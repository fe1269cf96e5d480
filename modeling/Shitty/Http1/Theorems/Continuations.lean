import Shitty.Http1.Logic.Lines
import Shitty.Lib.Run

/-!
# Continuation lines

The field that a continuation line goes to is looked up by the last name, and may be any
of that name. It is the last one for certain only when the others have other names. The
lines of a head are followed one by one, for those that are accepted: which fields there
are by then, and by which name the next continuation is looked up.
-/

namespace Shitty.Http1.Transport

open Lib

variable {ω : Type} {find : Find} {s t : Transport ω} {msg : IncomingMessage}

/-! ## Lines of a head -/

def isContinuation (line : Bytes) : Bool := isLWS (line.headD 0)

/-- What `processInput` does with a line that is not empty. -/
def fieldLine (find : Find) (line : Bytes) : Act ω Unit :=
  if isContinuation line then headerContinuation find line else headerLine line

theorem fieldLine_continuation {line : Bytes} (h : isContinuation line = true) :
    fieldLine (ω := ω) find line = headerContinuation find line := if_pos h

theorem fieldLine_header {line : Bytes} (h : isContinuation line = false) :
    fieldLine (ω := ω) find line = headerLine line := by
  rw [fieldLine, h, if_neg Bool.false_ne_true]

theorem processLine_fieldLine (virtual : Virtual ω) {line : Bytes} (hline : line ≠ [])
    (h : s.incoming_message_ ≠ none) :
    processLine find virtual line s =
      (do
        fieldLine find line
        return true) s := by
  obtain ⟨c, line, rfl⟩ := List.exists_cons_of_ne_nil hline
  cases hc : isContinuation (c :: line) with
  | true =>
      rw [fieldLine_continuation hc]
      exact processLine_continuation hc h
  | false =>
      rw [fieldLine_header hc]
      exact processLine_header hc h

/-- One more line. An exception ends the head. -/
def stepLine (find : Find) (s : Transport ω) (line : Bytes) : Except Exn (Transport ω) :=
  match fieldLine find line s with
  | .ok _ t => .ok t
  | .error e _ => .error e

/-- The name of a header line, as it is stored. -/
def fieldName (line : Bytes) : Bytes := asciiLower (line.takeWhile (· != 0x3a))

/-- The names of the fields, as they arrive. -/
def names (lines : List Bytes) : List Bytes :=
  (lines.filter fun line => !isContinuation line).map fieldName

def lastName (lines : List Bytes) : Bytes := (names lines).getLast?.getD []

/-- Header lines have a colon, and continuation lines come behind a header line that has a
name. -/
def Formed (lines : List Bytes) : Prop :=
  ∀ front line, front ++ [line] <+: lines →
    if isContinuation line then lastName front ≠ [] else 0x3a ∈ line

/-- The fields of the message that is being read, as far as it has come. -/
def fields (t : Transport ω) : Headers :=
  (t.incoming_message_.map fun msg => msg.message.headers_).getD []

/-- A line that continues the last field. -/
def appendLast (headers : Headers) (line : Bytes) : Headers :=
  headers.modify (headers.length - 1) fun field => (field.1, field.2 ++ line)

/-- Whatever is found among equal names, each continuation line is appended to the last
field, and no other changes. -/
def ContinuesLast (s : Transport ω) (lines : List Bytes) : Prop :=
  ∀ find front line, front ++ [line] <+: lines → isContinuation line = true →
    ∃ t t', Run.run (stepLine find) s front = .ok t ∧ stepLine find t line = .ok t' ∧
      fields t' = appendLast (fields t) line

/-- The name of the last field is not that of another. -/
def LastNew (front : List Bytes) : Prop :=
  ∀ before name, names front = before ++ [name] → name ∉ before

/-! ## One line -/

/-- Behind the first line of a message. -/
structure Begun (s : Transport ω) (msg : IncomingMessage) : Prop where
  message : s.incoming_message_ = some msg
  nothing : msg.message.headers_ = []
  last : s.last_header_ = []

/-- The state behind some lines of a head: the fields have their names in order, and
`last_header_` is the last of them. -/
structure Behind (front : List Bytes) (t : Transport ω) : Prop where
  message : t.incoming_message_ ≠ none
  stored : (fields t).map Prod.fst = names front
  last : t.last_header_ = lastName front

theorem Begun.behind (h : s.Begun msg) : Behind [] s where
  message := by
    rw [h.message]
    exact Option.some_ne_none msg
  stored := by
    rw [fields, h.message, Option.map_some, Option.getD_some, h.nothing]
    rfl
  last := h.last

theorem names_header (front : List Bytes) {line : Bytes} (h : isContinuation line = false) :
    names (front ++ [line]) = names front ++ [fieldName line] := by
  simp [names, h]

theorem names_continuation (front : List Bytes) {line : Bytes} (h : isContinuation line = true) :
    names (front ++ [line]) = names front := by
  simp [names, h]

theorem line_colon {line : Bytes} (h : 0x3a ∈ line) :
    ∃ rest, line = line.takeWhile (· != 0x3a) ++ 0x3a :: rest ∧
      0x3a ∉ line.takeWhile (· != 0x3a) := by
  induction line with
  | nil => cases h
  | cons c line ih =>
      by_cases hc : c = 0x3a
      · subst hc
        exact ⟨line, by simp, by simp⟩
      · obtain ⟨rest, hline, hname⟩ := ih ((List.mem_cons.mp h).resolve_left (Ne.symm hc))
        have htake : (c :: line).takeWhile (· != 0x3a) = c :: line.takeWhile (· != 0x3a) :=
          List.takeWhile_cons_of_pos (by simpa using hc)
        refine ⟨rest, ?_, ?_⟩
        · rw [htake, List.cons_append, ← hline]
        · rw [htake, List.mem_cons, not_or]
          exact ⟨Ne.symm hc, hname⟩

theorem stepLine_header {front : List Bytes} {line : Bytes} (h : Behind front t)
    (hline : isContinuation line = false) (hcolon : 0x3a ∈ line) :
    ∃ t', stepLine find t line = .ok t' ∧ Behind (front ++ [line]) t' := by
  obtain ⟨msg, hmsg⟩ := Option.ne_none_iff_exists'.mp h.message
  obtain ⟨rest, hsplit, hname⟩ := line_colon hcolon
  have hread := headerLine_colon hname rest hmsg
  rw [← hsplit] at hread
  have hnames := h.stored
  rw [fields, hmsg] at hnames
  have hstep : stepLine find t line = .ok (t.setFields msg (fieldName line)
      (msg.message.headers_.add (fieldName line) (storedValue rest))) := by
    rw [stepLine, fieldLine_header hline, hread]
    rfl
  refine ⟨_, hstep, Option.some_ne_none _, ?_, ?_⟩
  · show (msg.message.headers_.add _ _).map Prod.fst = _
    rw [names_header front hline, ← hnames, Headers.add, List.map_append]
    rfl
  · rw [lastName, names_header front hline, List.getLast?_concat]
    rfl

theorem caseInsensitiveEqual_iff {left right : Bytes} :
    CaseInsensitiveEqual (asciiLower left) (asciiLower right) = true ↔
      asciiLower left = asciiLower right := by
  have hlower : ∀ s : Bytes, (asciiLower s).map tolower = asciiLower s := by
    intro s
    rw [asciiLower, List.map_map]
    exact List.map_congr_left fun c _ => tolower_tolower c
  rw [CaseInsensitiveEqual, hlower, hlower, beq_iff_eq]

/-- The names that are stored are in lower case. -/
theorem Behind.lower {front : List Bytes} (h : Behind front t) {field : Bytes × Bytes}
    (hfield : field ∈ fields t) : ∃ name, field.1 = asciiLower name := by
  have hmem : field.1 ∈ names front := by
    rw [← h.stored]
    exact List.mem_map_of_mem hfield
  obtain ⟨line, -, hline⟩ := List.mem_map.mp hmem
  exact ⟨_, hline.symm⟩

theorem Behind.last_mem {front : List Bytes} (h : Behind front t) (hlast : lastName front ≠ []) :
    ∃ before, names front = before ++ [t.last_header_] := by
  rcases List.eq_nil_or_concat (names front) with hnil | ⟨before, name, hnames⟩
  · rw [lastName, hnil] at hlast
    exact absurd rfl hlast
  · rw [List.concat_eq_append] at hnames
    refine ⟨before, ?_⟩
    rw [h.last, lastName, hnames, List.getLast?_concat, Option.getD_some]

/-- What is found has the last name. -/
theorem Behind.find_last (find : Find) {front : List Bytes} (h : Behind front t)
    (hlast : lastName front ≠ []) :
    ∃ i, find.find (fields t) t.last_header_ = some i ∧
      (names front)[i]? = some t.last_header_ := by
  obtain ⟨before, hnames⟩ := h.last_mem hlast
  have hmem : t.last_header_ ∈ (fields t).map Prod.fst := by
    rw [h.stored, hnames]
    exact List.mem_concat_self
  obtain ⟨field, hfield, hname⟩ := List.mem_map.mp hmem
  obtain ⟨lower, hlower⟩ := h.lower hfield
  rw [hname] at hlower
  cases hfind : find.find (fields t) t.last_header_ with
  | none =>
      -- a field of that name has been added
      have hnot := find.complete _ _ hfind field hfield
      rw [hname, hlower, caseInsensitiveEqual_iff.mpr rfl] at hnot
      cases hnot
  | some i =>
      obtain ⟨found, hfound, hequal⟩ := find.sound _ _ _ hfind
      obtain ⟨name, hfirst⟩ := h.lower (List.mem_of_getElem? hfound)
      rw [hfirst, hlower, caseInsensitiveEqual_iff, ← hfirst, ← hlower] at hequal
      refine ⟨i, rfl, ?_⟩
      rw [← h.stored, List.getElem?_map, hfound, Option.map_some, hequal]

/-- The field that is found is continued. -/
theorem stepLine_continuation (find : Find) {front : List Bytes} {line : Bytes} (h : Behind front t)
    (hline : isContinuation line = true) (hlast : lastName front ≠ []) :
    ∃ t' i, stepLine find t line = .ok t' ∧ Behind (front ++ [line]) t' ∧
      find.find (fields t) t.last_header_ = some i ∧ (names front)[i]? = some t.last_header_ ∧
      fields t' = (fields t).modify i fun field => (field.1, field.2 ++ line) := by
  obtain ⟨msg, hmsg⟩ := Option.ne_none_iff_exists'.mp h.message
  have hfields : fields t = msg.message.headers_ := by
    rw [fields, hmsg]
    rfl
  obtain ⟨i, hfind, hi⟩ := h.find_last find hlast
  have hne : t.last_header_ ≠ [] := by
    rw [h.last]
    exact hlast
  have hcontinue : headerContinuation find line t = .ok () (t.setFields msg t.last_header_
      (msg.message.headers_.modify i fun field => (field.1, field.2 ++ line))) := by
    unfold headerContinuation
    rw [act_get_bind]
    dsimp only
    rw [if_neg hne, act_bind_of_ok (message_of_some hmsg), ← hfields, hfind]
    rfl
  have hstep : stepLine find t line = .ok (t.setFields msg t.last_header_
      (msg.message.headers_.modify i fun field => (field.1, field.2 ++ line))) := by
    rw [stepLine, fieldLine_continuation hline, hcontinue]
  refine ⟨_, i, hstep, ⟨Option.some_ne_none _, ?_, ?_⟩, hfind, hi, ?_⟩
  · -- the names stay as they are
    show (msg.message.headers_.modify i _).map Prod.fst = _
    rw [names_continuation front hline, ← h.stored, hfields]
    apply List.ext_getElem?
    intro j
    rw [List.getElem?_map, List.getElem?_map, List.getElem?_modify]
    cases msg.message.headers_[j]? with
    | none => rfl
    | some field => by_cases hij : i = j <;> simp [hij]
  · rw [lastName, names_continuation front hline]
    exact h.last
  · rw [hfields]
    rfl

/-! ## All lines -/

theorem Formed.front {front lines : List Bytes} (h : Formed lines) (hfront : front <+: lines) :
    Formed front := fun p line hp => h p line (hp.trans hfront)

/-- The lines are accepted, whatever is found. -/
theorem run_behind {lines : List Bytes} (h : Formed lines) (hs : s.Begun msg) (find : Find) :
    ∃ t, Run.run (stepLine find) s lines = .ok t ∧ Behind lines t := by
  induction lines using List.reverseRecOn with
  | nil => exact ⟨s, rfl, hs.behind⟩
  | append_singleton front line ih =>
      obtain ⟨t, hrun, hbehind⟩ := ih (h.front (List.prefix_append _ _))
      have hline := h front line List.prefix_rfl
      cases hcontinues : isContinuation line with
      | true =>
          rw [if_pos hcontinues] at hline
          obtain ⟨t', i, hstep, hbehind', -⟩ := stepLine_continuation find hbehind hcontinues hline
          exact ⟨t', Run.run_snoc_of_ok hrun hstep, hbehind'⟩
      | false =>
          rw [hcontinues, if_neg Bool.false_ne_true] at hline
          obtain ⟨t', hstep, hbehind'⟩ := stepLine_header hbehind hcontinues hline
          exact ⟨t', Run.run_snoc_of_ok hrun hstep, hbehind'⟩

/-- A line that is accepted has a colon, or it continues a field that has been named before. -/
theorem stepLine_formed {front : List Bytes} {line : Bytes} {t' : Transport ω} (h : Behind front t)
    (hstep : stepLine find t line = .ok t') :
    if isContinuation line then lastName front ≠ [] else 0x3a ∈ line := by
  cases hline : isContinuation line with
  | true =>
      rw [if_pos rfl]
      intro hlast
      rw [stepLine, fieldLine_continuation hline, headerContinuation, act_get_bind] at hstep
      dsimp only at hstep
      rw [if_pos (h.last.trans hlast)] at hstep
      cases hstep
  | false =>
      rw [if_neg Bool.false_ne_true]
      by_contra hcolon
      have hfind : line.findIdx? (fun c => c == 0x3a) = none := by
        rw [List.findIdx?_eq_none_iff]
        intro c hc
        exact beq_false_of_ne fun heq => hcolon (heq ▸ hc)
      rw [stepLine, fieldLine_header hline, headerLine, hfind] at hstep
      cases hstep

theorem run_formed {lines : List Bytes} (hs : s.Begun msg)
    (h : Run.run (stepLine find) s lines = .ok t) : Formed lines := by
  induction lines using List.reverseRecOn generalizing t with
  | nil =>
      intro front line hprefix
      cases (List.append_eq_nil_iff.mp (List.prefix_nil.mp hprefix)).2
  | append_singleton front line ih =>
      obtain ⟨u, hfront, hstep⟩ := Run.run_snoc_ok h
      have hformed := ih hfront
      obtain ⟨u', hrun, hbehind⟩ := run_behind hformed hs find
      rw [hfront] at hrun
      cases hrun
      intro front' line' hprefix
      rcases List.prefix_concat_iff.mp hprefix with hall | hprefix'
      · obtain ⟨rfl, hline⟩ := List.append_inj' hall rfl
        cases hline
        exact stepLine_formed hbehind hstep
      · exact hformed front' line' hprefix'

/-- The first field of a name is not behind another of it. -/
theorem first_le {headers : Headers} {name : Bytes} {i j : Nat}
    (h : Find.first.find headers name = some i) {field : Bytes × Bytes}
    (hj : headers[j]? = some field) (hequal : CaseInsensitiveEqual field.1 name = true) : i ≤ j := by
  by_contra hlt
  obtain ⟨hi, -, hbefore⟩ := List.findIdx?_eq_some_iff_getElem.mp h
  have hnot := hbefore j (Nat.not_le.mp hlt)
  obtain ⟨hjlt, rfl⟩ := List.getElem?_eq_some_iff.mp hj
  exact hnot hequal

/-- What a continuation line does behind lines that are accepted. -/
theorem run_continuation {lines : List Bytes} (h : Formed lines) (hs : s.Begun msg) (find : Find)
    {front : List Bytes} {line : Bytes} (hfront : front ++ [line] <+: lines)
    (hline : isContinuation line = true) :
    ∃ t t' i before, Run.run (stepLine find) s front = .ok t ∧ stepLine find t line = .ok t' ∧
      Behind front t ∧ names front = before ++ [t.last_header_] ∧
      find.find (fields t) t.last_header_ = some i ∧ (names front)[i]? = some t.last_header_ ∧
      fields t' = (fields t).modify i fun field => (field.1, field.2 ++ line) := by
  have hlast := h front line hfront
  rw [if_pos hline] at hlast
  obtain ⟨t, hrun, hbehind⟩ :=
    run_behind (h.front ((List.prefix_append front [line]).trans hfront)) hs find
  obtain ⟨before, hnames⟩ := hbehind.last_mem hlast
  obtain ⟨t', i, hstep, -, hfind, hi, hfields⟩ := stepLine_continuation find hbehind hline hlast
  exact ⟨t, t', i, before, hrun, hstep, hbehind, hnames, hfind, hi, hfields⟩

theorem Behind.length {front before : List Bytes} {name : Bytes} (h : Behind front t)
    (hnames : names front = before ++ [name]) :
    (fields t).length = before.length + 1 := by
  rw [← List.length_map (f := Prod.fst), h.stored, hnames, List.length_append,
    List.length_singleton]

/-- A change of one field is not that of another. -/
theorem modify_ne {headers : Headers} {line : Bytes} {i j : Nat} (hline : line ≠ [])
    (hi : i < headers.length) (hij : i ≠ j) :
    (headers.modify i fun field => (field.1, field.2 ++ line)) ≠
      headers.modify j fun field => (field.1, field.2 ++ line) := by
  intro hsame
  have hget : (headers.modify i fun field => (field.1, field.2 ++ line))[i]? =
      (headers.modify j fun field => (field.1, field.2 ++ line))[i]? := by rw [hsame]
  simp only [List.getElem?_modify, if_neg (Ne.symm hij), if_true,
    List.getElem?_eq_getElem hi] at hget
  have hvalue := congrArg Prod.snd (Option.some.inj hget)
  exact hline (List.append_right_eq_self.mp hvalue)

/-- In an accepted head each continuation line is appended to the last field, whatever the
map finds, exactly when the name of the field before each of them is not that of an earlier
one. -/
theorem continuesLast_iff {lines : List Bytes} (hs : s.Begun msg)
    (h : Run.run (stepLine find) s lines = .ok t) :
    (ContinuesLast s lines ↔
      ∀ front line, front ++ [line] <+: lines → isContinuation line = true → LastNew front) ∧
    ∀ (virtual : Virtual ω) (u : Transport ω) (line : Bytes), line ≠ [] →
      u.incoming_message_ ≠ none → processLine find virtual line u =
        (do
          fieldLine find line
          return true) u := by
  refine ⟨?_, fun virtual u line => processLine_fieldLine virtual⟩
  have hformed := run_formed hs h
  constructor
  · intro hcontinues front line hprefix hline before name hnames hmem
    obtain ⟨u, u', i, before', hrun, hstep, hbehind, hnames', hfind, -, hfields⟩ :=
      run_continuation hformed hs .first hprefix hline
    obtain ⟨v, v', hrun', hstep', happended⟩ := hcontinues .first front line hprefix hline
    rw [hrun] at hrun'
    cases hrun'
    rw [hstep] at hstep'
    cases hstep'
    obtain ⟨rfl, hname⟩ := List.append_inj' (hnames.symm.trans hnames') rfl
    cases hname
    -- the field that is found first is an earlier one, and it has changed
    obtain ⟨j, hj, hat⟩ := List.getElem_of_mem hmem
    have hlen := hbehind.length hnames
    have hat' : ((fields u).map Prod.fst)[j]? = some u.last_header_ := by
      rw [hbehind.stored, hnames, List.getElem?_append_left hj, List.getElem?_eq_getElem hj, hat]
    rw [List.getElem?_map] at hat'
    obtain ⟨field, hfield, hfirst⟩ := Option.map_eq_some_iff.mp hat'
    obtain ⟨name, hlower⟩ := hbehind.lower (List.mem_of_getElem? hfield)
    have hle : i ≤ j := by
      apply first_le hfind hfield
      rw [← hfirst, hlower]
      exact caseInsensitiveEqual_iff.mpr rfl
    have hnonempty : line ≠ [] := by
      rintro rfl
      exact absurd hline (by decide)
    rw [hfields, appendLast, hlen, Nat.add_sub_cancel] at happended
    exact modify_ne hnonempty (by omega) (by omega) happended
  · intro hnew find front line hprefix hline
    obtain ⟨u, u', i, before, hrun, hstep, hbehind, hnames, -, hi, hfields⟩ :=
      run_continuation hformed hs find hprefix hline
    refine ⟨u, u', hrun, hstep, ?_⟩
    have hnot := hnew front line hprefix hline before _ hnames
    -- no earlier field has the name, so the last one has been found
    have hi' : i = before.length := by
      rw [hnames] at hi
      rcases Nat.lt_trichotomy i before.length with hlt | heq | hgt
      · rw [List.getElem?_append_left hlt] at hi
        exact absurd (List.mem_of_getElem? hi) hnot
      · exact heq
      · have hlen : (before ++ [u.last_header_]).length ≤ i := by
          rw [List.length_append, List.length_singleton]
          exact hgt
        rw [List.getElem?_eq_none hlen] at hi
        cases hi
    rw [hfields, appendLast, hbehind.length hnames, hi', Nat.add_sub_cancel]

/-- The first line of a message has been read. -/
def startOfHead : Transport Unit where
  incoming_message_ := some { first_line := octets "GET / HTTP/1.1" }
  world := ()

theorem startOfHead_begun : startOfHead.Begun { first_line := octets "GET / HTTP/1.1" } :=
  ⟨rfl, rfl, rfl⟩

/-- Two fields of two names, and the second goes on. -/
theorem continuesLast_names :
    ContinuesLast startOfHead [octets "a: 1", octets "b: 2", octets " 3"] := by
  have hlines : ∃ t, Run.run (stepLine .first) startOfHead
      [octets "a: 1", octets "b: 2", octets " 3"] = .ok t := ⟨_, rfl⟩
  obtain ⟨t, ht⟩ := hlines
  refine (continuesLast_iff startOfHead_begun ht).1.mpr fun front line hprefix hline => ?_
  -- the only line that continues is the last one
  rcases List.prefix_concat_iff.mp
    (show front ++ [line] <+: [octets "a: 1", octets "b: 2"] ++ [octets " 3"] from hprefix)
    with hall | hprefix
  · obtain ⟨rfl, -⟩ := List.append_inj' hall rfl
    intro before name hnames
    obtain ⟨rfl, hname⟩ := List.append_inj'
      (show [octets "a"] ++ [octets "b"] = before ++ [name] from hnames) rfl
    cases hname
    decide
  · rcases List.prefix_concat_iff.mp
      (show front ++ [line] <+: [octets "a: 1"] ++ [octets "b: 2"] from hprefix)
      with hall | hprefix
    · obtain ⟨-, hsame⟩ := List.append_inj' hall rfl
      cases hsame
      cases hline
    · rcases List.prefix_concat_iff.mp (show front ++ [line] <+: [] ++ [octets "a: 1"] from hprefix)
        with hall | hprefix
      · obtain ⟨-, hsame⟩ := List.append_inj' hall rfl
        cases hsame
        cases hline
      · cases (List.append_eq_nil_iff.mp (List.prefix_nil.mp hprefix)).2

/-- A third line that continues the second of two fields of one name. -/
theorem first_continued :
    ¬ ∀ (s : Transport Unit) (msg : IncomingMessage) (find : Find) (lines : List Bytes)
      (t : Transport Unit), s.Begun msg → Run.run (stepLine find) s lines = .ok t →
        ContinuesLast s lines := by
  intro h
  have hcontinues := h startOfHead _ .first [octets "a: 1", octets "a: 2", octets " 3"] _
    startOfHead_begun rfl .first [octets "a: 1", octets "a: 2"] (octets " 3") List.prefix_rfl rfl
  obtain ⟨t, t', hrun, hstep, hfields⟩ := hcontinues
  cases hrun
  cases hstep
  revert hfields
  decide

end Shitty.Http1.Transport
