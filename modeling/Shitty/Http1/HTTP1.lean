import Shitty.Core.Message
import Shitty.Core.StreamBuf

/-!
# Lines, lengths and request lines

`http1/HTTP1.cpp`: what reads heads of messages, and `renderHeaders`. A reader of lines
looks for the next line feed in what has been received, and takes nothing while there is
none. What belongs to first lines of responses is in `Http1/FirstLines.lean`.
-/

namespace Shitty.Http1

/-! ## Lines -/

/-- The number of octets up to and including the first line feed. -/
def findEndOfLine (buf : Bytes) : Option Nat := (buf.findIdx? fun c => c == LF).map (· + 1)

def removeTrailingChar (s : Bytes) (c : Octet) : Bytes :=
  if s.getLast? = some c then s.dropLast else s

def trimNewline (s : Bytes) : Bytes := removeTrailingChar (removeTrailingChar s LF) CR

/-- The first line, and the buffer without it. -/
def getLine (buf : Bytes) : Except Exn (Option Bytes × Bytes) :=
  match findEndOfLine buf with
  | none => .ok (none, buf)
  | some line_len => do
      let rest ← advance line_len buf
      return (some (trimNewline (buf.take line_len)), rest)

theorem findEndOfLine_line {front : Bytes} (rest : Bytes) (h : LF ∉ front) :
    findEndOfLine (front ++ LF :: rest) = some (front.length + 1) := by
  have hfront : front.findIdx? (fun c => c == LF) = none := by
    rw [List.findIdx?_eq_none_iff]
    intro c hc
    exact beq_false_of_ne fun heq => h (heq ▸ hc)
  rw [findEndOfLine, List.findIdx?_append, hfront]
  simp [List.findIdx?_cons]

theorem findEndOfLine_none {buf : Bytes} : findEndOfLine buf = none ↔ LF ∉ buf := by
  rw [findEndOfLine, Option.map_eq_none_iff, List.findIdx?_eq_none_iff]
  constructor
  · intro h hmem
    have := h LF hmem
    simp at this
  · intro h c hc
    exact beq_false_of_ne fun heq => h (heq ▸ hc)

@[simp] theorem removeTrailingChar_append (s : Bytes) (c : Octet) :
    removeTrailingChar (s ++ [c]) c = s := by
  simp [removeTrailingChar]

theorem getLine_none {buf : Bytes} (h : LF ∉ buf) : getLine buf = .ok (none, buf) := by
  rw [getLine, findEndOfLine_none.mpr h]

/-- A line that ends in a line feed, with or without a carriage return before it. -/
theorem getLine_some {front : Bytes} (rest : Bytes) (h : LF ∉ front) :
    getLine (front ++ LF :: rest) = .ok (some (removeTrailingChar front CR), rest) := by
  have hsplit : front ++ LF :: rest = (front ++ [LF]) ++ rest := by simp
  have hlen : (front ++ [LF]).length = front.length + 1 := by simp
  have htake : (front ++ LF :: rest).take (front.length + 1) = front ++ [LF] := by
    rw [hsplit, List.take_left' hlen]
  have hadvance : advance (front.length + 1) (front ++ LF :: rest) = .ok rest := by
    rw [advance, if_neg (by simp), hsplit, List.drop_left' hlen]
  rw [getLine, findEndOfLine_line rest h]
  simp only [hadvance, ok_bind, htake]
  rw [trimNewline, removeTrailingChar_append]
  rfl

/-! ## Header fields -/

def CRLF : Bytes := [CR, LF]

/-- The fields are in the order in which the map has them. -/
def renderHeaders (headers : Headers) : Bytes :=
  let s := headers.foldl (fun s header => s ++ header.1 ++ octets ": " ++ header.2 ++ CRLF) []
  s ++ CRLF

/-- `renderHeaders` writes one line for each field, in the order of the map. -/
theorem renderHeaders_eq (headers : Headers) :
    renderHeaders headers =
      (headers.map fun header => header.1 ++ octets ": " ++ header.2 ++ CRLF).flatten ++ CRLF := by
  have hfold : ∀ s : Bytes, headers.foldl
      (fun s header => s ++ header.1 ++ octets ": " ++ header.2 ++ CRLF) s =
        s ++ (headers.map fun header => header.1 ++ octets ": " ++ header.2 ++ CRLF).flatten := by
    induction headers with
    | nil => exact fun s => (List.append_nil s).symm
    | cons header headers ih =>
        intro s
        rw [List.foldl_cons, ih, List.map_cons, List.flatten_cons]
        simp only [List.append_assoc]
  rw [renderHeaders, hfold, List.nil_append]

/-! ## The length of a body -/

/-- The length of the body, or -1 for a body that comes in chunks. -/
def getContentLength (find : Find) (headers : Headers) : Except Exn Int :=
  match find.find headers (octets "content-length") with
  | some i =>
      match stoul (headers.getD i no_header).2 with
      | .error _ => .error (.runtime_error "Invalid Content-Length header")
      | .ok len =>
          if 2 ^ 63 - 1 < len then .error (.runtime_error "Content-Length too big")
          else .ok len
  | none =>
      match find.find headers (octets "transfer-encoding") with
      | some _ => .ok (-1)
      | none => .ok 0

/-! ## Request lines -/

structure RequestLine where
  method : Bytes
  path : Bytes
  version : Bytes
  deriving DecidableEq, Repr

def findNextSpaceOrThrow (s : Bytes) (start : Nat) : Except Exn Nat :=
  match (s.drop start).findIdx? fun c => c == SP with
  | some sp => .ok (start + sp)
  | none => .error (.ProtocolError "Expected space character")

def parseRequestLine (request_line : Bytes) : Except Exn RequestLine :=
  let spaces := do
    let sp1 ← findNextSpaceOrThrow request_line 0
    let sp2 ← findNextSpaceOrThrow request_line (sp1 + 1)
    return (sp1, sp2)
  match spaces with
  | .ok (sp1, sp2) => .ok
      { method := request_line.take sp1
        path := (request_line.drop (sp1 + 1)).take (sp2 - sp1 - 1)
        version := request_line.drop (sp2 + 1) }
  | .error _ => .error (.ProtocolError "Malformed request line")

theorem findNextSpace_behind (front : Bytes) {word : Bytes} (rest : Bytes) (h : SP ∉ word) :
    findNextSpaceOrThrow (front ++ word ++ SP :: rest) front.length =
      .ok (front.length + word.length) := by
  have hword : word.findIdx? (fun c => c == SP) = none := by
    rw [List.findIdx?_eq_none_iff]
    intro c hc
    exact beq_false_of_ne fun heq => h (heq ▸ hc)
  have hspace : (word ++ SP :: rest).findIdx? (fun c => c == SP) = some word.length := by
    rw [List.findIdx?_append, hword]
    simp [List.findIdx?_cons]
  rw [findNextSpaceOrThrow, List.append_assoc, List.drop_left, hspace]

/-- A method and a path without spaces. -/
theorem parseRequestLine_ok {method path : Bytes} (version : Bytes) (hmethod : SP ∉ method)
    (hpath : SP ∉ path) :
    parseRequestLine (method ++ SP :: path ++ SP :: version) =
      .ok { method := method, path := path, version := version } := by
  have hsp1 := findNextSpace_behind [] (path ++ SP :: version) hmethod
  have hsp2 := findNextSpace_behind (method ++ [SP]) version hpath
  simp only [List.nil_append, List.length_nil, Nat.zero_add, List.append_assoc, List.cons_append,
    List.length_append, List.length_singleton] at hsp1 hsp2
  have hpath_len : method.length + 1 + path.length - method.length - 1 = path.length := by omega
  unfold parseRequestLine
  simp only [List.append_assoc, List.cons_append, hsp1, hsp2, ok_bind, pure, Except.pure]
  simp only [hpath_len, List.take_left]
  have hdrop1 : (method ++ SP :: (path ++ SP :: version)).drop (method.length + 1) =
      path ++ SP :: version := by
    simp [List.drop_append]
  have hdrop2 : (method ++ SP :: (path ++ SP :: version)).drop (method.length + 1 + path.length + 1)
      = version := by
    rw [show method.length + 1 + path.length + 1 = (method.length + 1) + (path.length + 1) by omega,
      ← List.drop_drop, hdrop1]
    simp [List.drop_append]
  rw [hdrop1, hdrop2, List.take_left]

end Shitty.Http1
