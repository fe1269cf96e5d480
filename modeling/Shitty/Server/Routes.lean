import Shitty.Core.Message

/-!
# Routes

`Routes.cpp`, `StaticResponder.cpp` and the parts of `Server.cpp` in front of them. A
handler is given a `Responder`; the responses it gives to it before it returns are what
it returns here. The route of a path is the first one in the table whose path it begins
with. When there is none, nothing is called, and so nothing is sent.
-/

namespace Shitty

/-- Over the state of the application. -/
abbrev RequestHandler (σ : Type) := Request → σ → Except Exn (List Response × σ)

/-- `StaticResponder::addStandardHeaders`, which has the length of the body put into the header. -/
def addStandardHeaders (response_ : Response) : Response :=
  let length := octets (toString response_.message.body_.length)
  let headers_ := response_.message.headers_.set (octets "content-length") length
  { response_ with message := { response_.message with headers_ := headers_ } }

/-- `StaticResponder`, whose constructor adds the standard headers. -/
def StaticResponder {σ : Type} (response_ : Response) : RequestHandler σ :=
  fun _ app => .ok ([addStandardHeaders response_], app)

structure Routes (σ : Type) where
  handlers_ : List (Bytes × RequestHandler σ) := []

namespace Routes

variable {σ : Type}

def addHandler (routes : Routes σ) (path : Bytes) (handler : RequestHandler σ) : Routes σ where
  handlers_ := routes.handlers_ ++ [(path, handler)]

/-- `Server::addRoute` with a response, for which a `StaticResponder` is made. -/
def addRoute (routes : Routes σ) (path : Bytes) (response : Response) : Routes σ :=
  routes.addHandler path (StaticResponder response)

/-- The first handler whose path the request's path starts with. The default handler is
not called: where it is meant to be, there is a comment. -/
def dispatch (routes : Routes σ) : RequestHandler σ := fun request app =>
  match routes.handlers_.find? fun handler => handler.1.isPrefixOf request.path_ with
  | some handler => handler.2 request app
  | none => .ok ([], app)

/-- Routes with static responses only, one for each path of the table. -/
def static (table : List (Bytes × Response)) : Routes σ :=
  table.foldl (fun routes route => routes.addRoute route.1 route.2) {}

theorem handlers_static (table : List (Bytes × Response)) :
    (static table : Routes σ).handlers_ =
      table.map fun route => (route.1, StaticResponder route.2) := by
  have hfold : ∀ (table : List (Bytes × Response)) (routes : Routes σ),
      (table.foldl (fun routes route => routes.addRoute route.1 route.2) routes).handlers_ =
        routes.handlers_ ++ table.map fun route => (route.1, StaticResponder route.2) := by
    intro table
    induction table with
    | nil => exact fun routes => (List.append_nil _).symm
    | cons route table ih =>
        intro routes
        rw [List.foldl_cons, ih, addRoute, addHandler, List.map_cons, List.append_assoc,
          List.singleton_append]
  exact hfold table {}

/-- A request is answered by the first route that fits, or not at all. -/
theorem dispatch_static (table : List (Bytes × Response)) (request : Request) (app : σ) :
    (static table).dispatch request app =
      .ok (((table.find? fun route => route.1.isPrefixOf request.path_).map
        fun route => addStandardHeaders route.2).toList, app) := by
  have hfind : ((static table : Routes σ).handlers_.find? fun handler =>
      handler.1.isPrefixOf request.path_) =
        (table.find? fun route => route.1.isPrefixOf request.path_).map
          fun route => (route.1, StaticResponder route.2) := by
    rw [handlers_static, List.find?_map]
    rfl
  unfold dispatch
  rw [hfind]
  cases table.find? fun route => route.1.isPrefixOf request.path_ <;> rfl

end Routes

end Shitty
