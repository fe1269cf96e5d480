import Mathlib.Logic.Relation
import Shitty.Http1.Theorems.Delivery

/-!
# Messages that are passed on

A proxy sends what it has received. However many of them a message passes, it arrives as
it did behind the first transport that sent it: no field is put in twice, and no name or
value changes any more. What one hop does is compared with what it was given, up to the
case of names and the order of fields; hops are then put together, as many as there are.
-/

namespace Shitty.Http1

/-! ## Names in lower case -/

theorem tolower_eq_iff {c d : Octet} (h : tolower d = d)
    (hletter : ∀ c, 0x41 ≤ c ∧ c ≤ 0x5a → c + 0x20 ≠ d) :
    tolower c = d ↔ c = d := by
  constructor
  · intro hc
    unfold tolower at hc
    split at hc
    · rename_i hupper
      exact absurd hc (hletter c hupper)
    · exact hc
  · rintro rfl
    exact h

theorem mem_asciiLower {s : Bytes} {d : Octet} (h : tolower d = d)
    (hletter : ∀ c, 0x41 ≤ c ∧ c ≤ 0x5a → c + 0x20 ≠ d) : d ∈ asciiLower s ↔ d ∈ s := by
  simp only [asciiLower, List.mem_map, tolower_eq_iff h hletter, exists_eq_right]

theorem isLWS_tolower (c : Octet) : isLWS (tolower c) = isLWS c := by
  revert c
  decide +kernel

@[simp] theorem asciiLower_asciiLower (s : Bytes) : asciiLower (asciiLower s) = asciiLower s := by
  rw [asciiLower, asciiLower, List.map_map]
  exact List.map_congr_left fun c _ => tolower_tolower c

/-- The field with its name in lower case. -/
def Field.lower (f : Field) : Field where
  name := asciiLower f.name
  value := f.value
  name_ne h := f.name_ne (List.map_eq_nil_iff.mp h)
  name_colon h := f.name_colon ((mem_asciiLower (by decide) (by decide +kernel)).mp h)
  name_line h := f.name_line ((mem_asciiLower (by decide) (by decide +kernel)).mp h)
  name_front c hc := by
    rw [asciiLower, List.head?_map, Option.map_eq_some_iff] at hc
    obtain ⟨d, hd, rfl⟩ := hc
    rw [isLWS_tolower]
    exact f.name_front d hd
  value_line := f.value_line
  value_front := f.value_front
  value_back := f.value_back

theorem Field.is_lower (f : Field) (name : String) : f.lower.is name = f.is name :=
  f.is_header name

/-! ## One hop -/

/-- What is kept of an entry of the map by the side that reads it. -/
def keptEntry (entry : Bytes × Bytes) : Bytes × Bytes := (asciiLower entry.1, entry.2)

theorem map_header (fields : List Field) :
    fields.map Field.header = (fields.map Field.entry).map keptEntry := by
  rw [List.map_map]
  rfl

theorem header_kept (fields : List Field) :
    (fields.map Field.header).map keptEntry = fields.map Field.header := by
  rw [List.map_map]
  refine List.map_congr_left fun f _ => ?_
  simp [keptEntry, Field.header]

/-- Fields with the entries of others, in some order. -/
theorem any_is_perm {fields others : List Field}
    (h : (fields.map Field.entry).Perm (others.map Field.header)) (name : String) :
    (fields.any fun f => f.is name) = others.any fun f => f.is name := by
  rw [← Parcel.has_entries, Headers.has_perm h, Headers.has, List.any_map]
  congr 1
  funext f
  exact f.is_header name

namespace Parcel

/-- A message that has arrived is sent on. -/
def Forwards (p p' : Parcel) : Prop := Arrives p p'.message

/-- All fields that are put in are there. -/
theorem outgoing_any (p : Parcel) {name : String} (h : name ∈ ["date", "server", "content-length"]) :
    (p.outgoing.any fun f => f.is name) = true := by
  have hput : ∀ field, field.is name = true →
      (∀ f ∈ missingField p.fields field name, f ∈ p.outgoing) →
      (p.outgoing.any fun f => f.is name) = true := by
    intro field his hmem
    rw [List.any_eq_true]
    by_cases hown : (p.fields.any fun f => f.is name) = true
    · obtain ⟨f, hf, his⟩ := List.any_eq_true.mp hown
      exact ⟨f, by simp [outgoing, hf], his⟩
    · exact ⟨field, hmem field (by simp [missingField, hown]), his⟩
  have hself : ∀ field : Field, field.name = octets name → field.is name = true := by
    intro field hname
    rw [Field.is, hname]
    exact caseInsensitiveEqual_self _
  simp only [List.mem_cons, List.not_mem_nil, or_false] at h
  rcases h with rfl | rfl | rfl
  · exact hput (dateField p.moment.tm p.year) (hself _ rfl) fun f hf => by simp [outgoing, hf]
  · exact hput serverField (hself _ rfl) fun f hf => by simp [outgoing, hf]
  · exact hput (contentLengthField p.body.length) (hself _ rfl) fun f hf => by simp [outgoing, hf]

/-- Nothing is put into a message that is sent on. -/
theorem Forwards.outgoing {p p' : Parcel} (h : Forwards p p') : p'.outgoing = p'.fields := by
  have hnone : ∀ field name, name ∈ ["date", "server", "content-length"] →
      missingField p'.fields field name = [] := by
    intro field name hname
    rw [missingField, any_is_perm h.headers, p.outgoing_any hname, if_pos rfl]
  rw [Parcel.outgoing, hnone _ "date" (by simp), hnone _ "server" (by simp),
    hnone _ "content-length" (by simp), List.append_nil, List.append_nil, List.append_nil]

/-- What arrives of it is what has arrived of the first one. -/
theorem Forwards.arrives {p p' : Parcel} {msg : Message} (h : Forwards p p')
    (hmsg : Arrives p' msg) : Arrives p msg := by
  refine ⟨hmsg.body.trans h.body, ?_⟩
  have hentries := h.headers.map keptEntry
  have hheaders := hmsg.headers
  rw [header_kept, message, ← map_header] at hentries
  rw [h.outgoing] at hheaders
  exact hheaders.trans hentries

end Parcel

/-! ## Proxies -/

/-- A server that keeps the requests that it is given. -/
def recorder : Server (List Request) where
  dispatch request app := .ok ([], app ++ [request])
  upgrade _ := .error (.runtime_error "internal error: new transport failed")

theorem recorder_dispatches {requests app app' : List Request} {responses : List Response}
    (h : Dispatches recorder requests app responses app') : app' = app ++ requests := by
  induction h with
  | nil => exact (List.append_nil _).symm
  | cons hdispatch _ ih =>
      cases hdispatch
      rw [ih, List.append_assoc, List.singleton_append]

/-- From one proxy to the next: what the server transport at the other end dispatches is the
request that is sent on. -/
structure Asking.Hop (a b : Asking) : Prop where
  plain : a.Plain
  read : ∃ (d : Direction Asking.sender [a]) (find : Find),
    (Transport.run find (ServerTransport.virtual find recorder) d.pieces
      (ServerTransport.new [])).1.world.app = [b.request]

theorem Asking.Hop.arrives {a b : Asking} (h : a.Hop b) : a.Arrives b.request := by
  obtain ⟨d, find, hread⟩ := h.read
  obtain ⟨ms, hms, hcut, hpaced⟩ := d.exists_messages
  have hserver : recorder.Returns := fun _ _ => ⟨_, _, rfl, nofun⟩
  obtain ⟨requests, responses, app', harrive, hdispatches, htakes⟩ :=
    takes_askings find hserver hms
      (List.forall_mem_singleton.mpr h.plain) { app := [] } rfl rfl
  have hrun := Transport.run_messages htakes rfl d.pieces_ne hcut hpaced []
  change Transport.run find _ d.pieces (ServerTransport.new []) = _ at hrun
  rw [hrun] at hread
  have hkept : requests = [b.request] := (recorder_dispatches hdispatches).symm.trans hread
  rw [hkept] at harrive
  exact (List.forall₂_cons.mp harrive).1

/-- On the way back: what the client transport hands to its handler is the response that is
sent on. -/
structure Answer.Hop (a b : Answer) : Prop where
  stays : a.StaysOpen
  read : ∃ (d : Direction Answer.sender [a]) (find : Find),
    (Transport.run find (ClientTransport.virtual fun _ _ => pure ()) d.pieces
      (Transport.between [] []
        ({ handler_ := some (), app := () } : ClientTransport.World Unit Unit))).1.world.handed =
      [((), b.response)]

theorem Answer.Hop.arrives {a b : Answer} (h : a.Hop b) : a.Arrives b.response := by
  obtain ⟨d, find, hread⟩ := h.read
  obtain ⟨ms, hms, hcut, hpaced⟩ := d.exists_messages
  have hcall : Obliging fun (_ : Unit) (_ : Response) =>
      (pure () : ClientTransport.Act Unit Unit Unit) := fun _ _ w hset => ⟨w, rfl, hset⟩
  obtain ⟨responses, w', harrive, hhands, htakes⟩ :=
    takes_answers find hcall hms (List.forall_mem_singleton.mpr h.stays)
      ({ handler_ := some (), app := () } : ClientTransport.World Unit Unit) rfl
  rw [Transport.run_messages htakes rfl d.pieces_ne hcut hpaced []] at hread
  obtain ⟨response, responses, hfirst, hnone, rfl⟩ := List.forall₂_cons_left_iff.mp harrive
  rw [List.forall₂_nil_left_iff.mp hnone] at hhands
  have hhanded : w'.handed = [((), response)] := by
    cases hhands with
    | cons hset hcall hrest =>
        cases hrest
        cases hcall
        rfl
  have hsame : [((), response)] = [((), b.response)] := hhanded.symm.trans hread
  cases hsame
  exact hfirst

/-- However many proxies a request passes, it is dispatched with the method, the path, the
body and the fields that the first of them dispatches it with: what has been put in by the
first transport that sent it is not put in again. And so it is with a response on its way
back. -/
theorem relay_settles :
    (∀ a b : Asking, Relation.TransGen Asking.Hop a b → a.Arrives b.request) ∧
      ∀ a b : Answer, Relation.TransGen Answer.Hop a b → a.Arrives b.response := by
  constructor
  · intro a b h
    induction h with
    | single hhop => exact hhop.arrives
    | tail _ hlast ih =>
        have hnext := hlast.arrives
        exact ⟨hnext.method.trans ih.method, hnext.path.trans ih.path,
          Parcel.Forwards.arrives ih.message hnext.message⟩
  · intro a b h
    induction h with
    | single hhop => exact hhop.arrives
    | tail _ hlast ih =>
        have hnext := hlast.arrives
        exact ⟨hnext.code.trans ih.code, Parcel.Forwards.arrives ih.message hnext.message⟩

/-! ## Two proxies -/

/-- The fields of a message as they arrive, in the order of the transport. -/
def Parcel.arrived (p : Parcel) : List Field := p.outgoing.map Field.lower

theorem Parcel.arrived_length (p : Parcel) : ∀ f ∈ p.arrived, f.is "content-length" = true →
    f.value ≠ [] ∧ (∀ c ∈ f.value, isdigit c = true) ∧ decimal f.value = p.body.length := by
  intro f hf his
  obtain ⟨g, hg, rfl⟩ := List.mem_map.mp hf
  rw [g.is_lower] at his
  exact p.outgoing_length.2 g hg his

/-- The message that the next proxy sends. -/
def Parcel.forwarded (p : Parcel) : Parcel :=
  { p with fields := p.arrived, content_length := p.arrived_length }

def Asking.forwarded (a : Asking) : Asking := { a with toParcel := a.toParcel.forwarded }

def Answer.forwarded (a : Answer) : Answer := { a with toParcel := a.toParcel.forwarded }

/-- A message that is sent alone, and of which the body is read by itself. -/
def alonePieces {α : Type} (sender : Sender α) (a : α) : List Bytes :=
  let wire := (sentAll sender [a]).wire
  let (head, _) := (sender.parcel a).sizes Find.first Order.asIs
  [wire.take head, wire.drop head]

theorem posted_sent : SentAll Asking.sender [postAsking] (alonePieces Asking.sender postAsking) where
  sent := by decide +kernel
  isOpen := by decide +kernel
  nothing_waits := by decide +kernel
  reads := by decide +kernel
  pieces_ne := by decide +kernel
  paced := ⟨fun _ => by decide +kernel, trivial⟩

theorem forwarded_sent : SentAll Asking.sender [postAsking.forwarded]
    (alonePieces Asking.sender postAsking.forwarded) where
  sent := by decide +kernel
  isOpen := by decide +kernel
  nothing_waits := by decide +kernel
  reads := by decide +kernel
  pieces_ne := by decide +kernel
  paced := ⟨fun _ => by decide +kernel, trivial⟩

theorem posted_hop : postAsking.Hop postAsking.forwarded where
  plain := postAsking_plain
  read := ⟨posted_sent.direction, Find.first, by decide +kernel⟩

theorem forwarded_hop : postAsking.forwarded.Hop postAsking.forwarded.forwarded where
  plain := ⟨by decide +kernel, by decide +kernel, by decide +kernel⟩
  read := ⟨forwarded_sent.direction, Find.first, by decide +kernel⟩

theorem missing_sent :
    SentAll Answer.sender [missingAnswer] (alonePieces Answer.sender missingAnswer) where
  sent := by decide +kernel
  isOpen := by decide +kernel
  nothing_waits := by decide +kernel
  reads := by decide +kernel
  pieces_ne := by decide +kernel
  paced := ⟨fun _ => by decide +kernel, trivial⟩

theorem returned_sent : SentAll Answer.sender [missingAnswer.forwarded]
    (alonePieces Answer.sender missingAnswer.forwarded) where
  sent := by decide +kernel
  isOpen := by decide +kernel
  nothing_waits := by decide +kernel
  reads := by decide +kernel
  pieces_ne := by decide +kernel
  paced := ⟨fun _ => by decide +kernel, trivial⟩

theorem missing_hop : missingAnswer.Hop missingAnswer.forwarded where
  stays := by decide +kernel
  read := ⟨missing_sent.direction, Find.first, by decide +kernel⟩

theorem returned_hop : missingAnswer.forwarded.Hop missingAnswer.forwarded.forwarded where
  stays := by decide +kernel
  read := ⟨returned_sent.direction, Find.first, by decide +kernel⟩

/-- A request with a body on its way through two proxies, and an answer on its way back. -/
theorem relay_settles_twice :
    postAsking.Arrives postAsking.forwarded.forwarded.request ∧
      missingAnswer.Arrives missingAnswer.forwarded.forwarded.response :=
  ⟨relay_settles.1 _ _ (.tail (.single posted_hop) forwarded_hop),
    relay_settles.2 _ _ (.tail (.single missing_hop) returned_hop)⟩

end Shitty.Http1
