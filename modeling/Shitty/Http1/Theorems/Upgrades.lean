import Shitty.Http1.Logic.Exceptions

/-!
# A transport that has been replaced

`handleMessage` does not touch it any more, but `onInput` calls `processInput` again
when there is something left in the buffer. The transport is left alone exactly when the
message that is upgraded is the last thing there. The turns are told apart by what they
find: a line, an upgrade, or nothing more. What is true of a loop is by induction on the
octets in its buffer.
-/

namespace Shitty.Http1

open Lib Lib.Resumable Transport ServerTransport

variable {ω σ : Type}

namespace Transport

/-! ## Turns -/

section

variable (find : Find) (virtual : Virtual ω)

/-- Once a turn has replaced the transport, `onInput` is done, with the state and the buffer
as they are then. -/
def LeftAlone (s : Transport ω) : Prop :=
  ∀ u ∈ turns find virtual s, ∀ b t, processInput find virtual u = .ok b t →
    virtual.replaced t.world = true → onInput find virtual s = .ok () t

/-- The first line of the buffer has been read, and there is more to be done. -/
def LineRead (s t : Transport ω) : Prop :=
  ∃ line rest, LF ∉ line ∧ s.buf = line ++ LF :: rest ∧ parked s = false ∧
    virtual.replaced s.world = false ∧
    processLine find virtual (removeTrailingChar line CR) { s with buf := rest } = .ok true t

/-- The buffer begins with an empty line at which a message is complete, and by handling it
the transport is replaced. -/
structure UpgradesNext (s : Transport ω) (rest : Bytes) : Prop where
  blank : s.buf = LF :: rest ∨ s.buf = CR :: LF :: rest
  unparked : parked s = false
  current : virtual.replaced s.world = false
  handled : ∃ msg w w', s.incoming_message_ = some msg ∧
    getContentLength find msg.message.headers_ = .ok (msg.message.body_.length : Int) ∧
    virtual.onEndOfMessageHeaders msg.message.headers_ s.world = .ok () w ∧
    virtual.handleIncomingMessage msg w = .ok () w' ∧ virtual.replaced w' = true

end

variable {find : Find} {virtual : Virtual ω} {s t u : Transport ω} {rest : Bytes}

/-! ## Lines -/

theorem removeTrailingChar_eq_nil {front : Bytes} :
    removeTrailingChar front CR = [] ↔ front = [] ∨ front = [CR] := by
  rcases List.eq_nil_or_concat front with rfl | ⟨front, c, rfl⟩
  · exact iff_of_true rfl (.inl rfl)
  · rw [List.concat_eq_append]
    unfold removeTrailingChar
    rw [List.getLast?_concat, List.dropLast_concat]
    by_cases hc : c = CR
    · rw [if_pos (congrArg some hc), hc]
      cases front <;> simp
    · rw [if_neg fun heq => hc (Option.some_inj.mp heq)]
      cases front <;> simp [hc]

/-- There is one first line: a text with a line feed is cut at the first one in one way only. -/
theorem line_unique {front front' rest' : Bytes} (h : LF ∉ front) (h' : LF ∉ front')
    (heq : front ++ LF :: rest = front' ++ LF :: rest') : front = front' ∧ rest = rest' := by
  have hlen := findEndOfLine_line rest h
  rw [heq, findEndOfLine_line rest' h'] at hlen
  have hsame : front.length = front'.length := by
    simp only [Option.some.injEq] at hlen
    omega
  obtain ⟨hfront, hrest⟩ := List.append_inj heq hsame
  exact ⟨hfront, (List.cons_inj_right LF).mp hrest⟩

/-- At an empty line the transport is replaced. -/
theorem UpgradesNext.line (h : UpgradesNext find virtual s rest) :
    ∃ front, LF ∉ front ∧ s.buf = front ++ LF :: rest ∧ removeTrailingChar front CR = [] := by
  rcases h.blank with hbuf | hbuf
  · exact ⟨[], List.not_mem_nil, hbuf, rfl⟩
  · exact ⟨[CR], by decide, hbuf, removeTrailingChar_append [] CR⟩

theorem UpgradesNext.replaces (h : UpgradesNext find virtual s rest) :
    ∃ t, processLine find virtual [] { s with buf := rest } = .ok true t ∧ t.buf = rest ∧
      virtual.replaced t.world = true := by
  obtain ⟨msg, w, w', hmsg, hlength, hhead, hcall, hreplaced⟩ := h.handled
  have hcomplete : isMessageComplete { s with
      buf := rest
      message_headers_complete_ := true
      expected_body_length_ := (msg.message.body_.length : Int)
      world := w } = true := by
    unfold isMessageComplete
    simp only [hmsg]
    exact beq_self_eq_true _
  refine ⟨_, (processLine_empty (s := { s with buf := rest }) hmsg hlength hhead).trans
    (handleComplete_true hcomplete (handleMessage_replaced hmsg hcall hreplaced)), rfl, hreplaced⟩

/-! ## Loops -/

/-- No message that is upgraded has anything behind it. -/
def UpgradeLast (find : Find) (virtual : Virtual ω) (s : Transport ω) : Prop :=
  ∀ u rest, Relation.ReflTransGen (LineRead find virtual) s u → UpgradesNext find virtual u rest →
    rest = []

/-- `LeftAlone`, for a number of turns. -/
def LeftAloneIn (find : Find) (virtual : Virtual ω) (turns : Nat) (s : Transport ω) : Prop :=
  ∀ u ∈ visited (processInput find virtual) (fun s => s.buf ≠ []) turns s, ∀ b t,
    processInput find virtual u = .ok b t → virtual.replaced t.world = true →
      onInput_loop find virtual turns s = .ok () t

/-- Where no line is read, none is empty. -/
theorem upgradeLast_of_stuck (h : parked s = true ∨ LF ∉ s.buf) : UpgradeLast find virtual s := by
  have hline : ∀ front rest, s.buf = front ++ LF :: rest → parked s = false → False := by
    intro front rest hbuf hopen
    rcases h with hparked | hmem
    · rw [hparked] at hopen
      cases hopen
    · exact hmem (by rw [hbuf]; simp)
  intro u rest hreached hu
  rcases hreached.cases_head with rfl | ⟨t, ⟨line, behind, -, hbuf, hopen, -⟩, -⟩
  · obtain ⟨front, -, hbuf, -⟩ := hu.line
    exact (hline front rest hbuf hu.unparked).elim
  · exact (hline line behind hbuf hopen).elim

/-- The loop ends with its first turn. -/
theorem leftAloneIn_of_stop (turns : Nat)
    (h : ∀ b t, processInput find virtual s = .ok b t → b = false ∨ t.buf = []) :
    LeftAloneIn find virtual (turns + 1) s := by
  have hvisited : visited (processInput find virtual) (fun s => s.buf ≠ []) (turns + 1) s = [s] := by
    refine visited_stop turns fun t ht => ?_
    rcases h true t ht with hfalse | hempty
    · cases hfalse
    · exact not_not_intro hempty
  unfold LeftAloneIn
  rw [hvisited]
  intro u hu b t ht _
  rw [List.mem_singleton.mp hu] at ht
  exact onInput_loop_stop ht (h b t ht)

/-- The loop goes on, and the transport is still in its place. -/
theorem leftAloneIn_again {turns : Nat} (h : processInput find virtual s = .ok true t)
    (hbuf : t.buf ≠ []) (ht : virtual.replaced t.world = false) :
    LeftAloneIn find virtual (turns + 1) s ↔ LeftAloneIn find virtual turns t := by
  unfold LeftAloneIn
  rw [visited_again turns h hbuf, List.forall_mem_cons, onInput_loop_again h hbuf]
  refine and_iff_right fun b u hu hreplaced => ?_
  rw [h] at hu
  cases hu
  rw [ht] at hreplaced
  cases hreplaced

section

variable {front : Bytes} (hopen : parked s = false) (hs : virtual.replaced s.world = false)
  (hsplit : s.buf = front ++ LF :: rest) (hfront : LF ∉ front)

include hsplit hfront

theorem LineRead.result (h : LineRead find virtual s t) :
    processLine find virtual (removeTrailingChar front CR) { s with buf := rest } = .ok true t := by
  obtain ⟨line, behind, hline, hbuf, -, -, hresult⟩ := h
  obtain ⟨rfl, rfl⟩ := line_unique hline hfront (hbuf.symm.trans hsplit)
  exact hresult

theorem UpgradesNext.result {behind : Bytes} (h : UpgradesNext find virtual s behind) :
    rest = behind ∧ ∃ t, processLine find virtual (removeTrailingChar front CR)
      { s with buf := rest } = .ok true t ∧ virtual.replaced t.world = true := by
  obtain ⟨line, hline, hbuf, hempty⟩ := h.line
  obtain ⟨rfl, rfl⟩ := line_unique hline hfront (hbuf.symm.trans hsplit)
  obtain ⟨t, hresult, -, ht⟩ := h.replaces
  exact ⟨rfl, t, by rw [hempty]; exact hresult, ht⟩

/-- A line behind which the loop goes on or ends, and the transport is still in its place. -/
theorem upgradeLast_behind {b : Bool}
    (hresult : processLine find virtual (removeTrailingChar front CR) { s with buf := rest } =
      .ok b t) (ht : virtual.replaced t.world = false) (hlast : b = true → UpgradeLast find virtual t) :
    UpgradeLast find virtual s := by
  intro u behind hreached hu
  rcases hreached.cases_head with rfl | ⟨v, hv, hrest⟩
  · obtain ⟨-, t', hresult', ht'⟩ := hu.result hsplit hfront
    rw [hresult] at hresult'
    cases hresult'
    rw [ht] at ht'
    cases ht'
  · have hresult' := hv.result hsplit hfront
    rw [hresult] at hresult'
    cases hresult'
    exact hlast rfl u behind hrest hu

/-- A line that is not read is not passed, nor is it empty. -/
theorem upgradeLast_of_throws {e : Exn}
    (hresult : processLine find virtual (removeTrailingChar front CR) { s with buf := rest } =
      .error e t) : UpgradeLast find virtual s := by
  intro u behind hreached hu
  rcases hreached.cases_head with rfl | ⟨v, hv, -⟩
  · obtain ⟨-, t', ht', -⟩ := hu.result hsplit hfront
    rw [hresult] at ht'
    cases ht'
  · have hv' := hv.result hsplit hfront
    rw [hresult] at hv'
    cases hv'

/-- A line at which the transport is replaced. -/
theorem loop_replaced_iff {turns : Nat} (hturns : s.buf.length < turns + 1)
    (hnext : UpgradesNext find virtual s rest) (hprocess : processInput find virtual s = .ok true t)
    (hresult : processLine find virtual (removeTrailingChar front CR) { s with buf := rest } =
      .ok true t) (hrest : t.buf = rest) (ht : virtual.replaced t.world = true) :
    LeftAloneIn find virtual (turns + 1) s ↔ UpgradeLast find virtual s := by
  have hpos : 0 < s.buf.length := by
    rw [hsplit]
    simp
  constructor
  · intro halone u behind hr hu
    -- one more turn of the loop is a turn of what has been replaced
    have hnil : rest = [] := by
      by_contra hne
      have hdone := halone s (by rw [visited]; exact List.mem_cons_self) true t
        hprocess ht
      rw [onInput_loop_again hprocess (by rw [hrest]; exact hne)] at hdone
      obtain ⟨n, rfl⟩ : ∃ n, turns = n + 1 := ⟨turns - 1, by omega⟩
      rw [onInput_loop_error (processInput_replaced ht)] at hdone
      cases hdone
    rcases hr.cases_head with rfl | ⟨v, hv, hafter⟩
    · rw [← (hu.result hsplit hfront).1, hnil]
    · have hv' := hv.result hsplit hfront
      rw [hresult] at hv'
      cases hv'
      rcases hafter.cases_head with rfl | ⟨v, ⟨_, _, -, -, -, hcurrent, -⟩, -⟩
      · have hcurrent := hu.current
        rw [ht] at hcurrent
        cases hcurrent
      · rw [ht] at hcurrent
        cases hcurrent
  · intro hlast
    have hnil := hlast s rest .refl hnext
    refine leftAloneIn_of_stop turns fun b' u hu => .inr ?_
    rw [hprocess] at hu
    cases hu
    exact hrest.trans hnil

end

section

variable (hheads : ∀ headers w w', virtual.onEndOfMessageHeaders headers w = .ok () w' →
    virtual.replaced w' = virtual.replaced w)
  (hclose : ∀ w, virtual.replaced (virtual.close w) = virtual.replaced w)

include hclose

/-- A transport is replaced when a message is complete and handled. -/
theorem handleComplete_replaces {msg : IncomingMessage} {b : Bool}
    (hmsg : s.incoming_message_ = some msg) (hs : virtual.replaced s.world = false)
    (h : handleComplete find virtual s = .ok b t) (ht : virtual.replaced t.world = true) :
    isMessageComplete s = true ∧ b = true ∧
      ∃ w, virtual.handleIncomingMessage msg s.world = .ok () w ∧ virtual.replaced w = true := by
  change (if isMessageComplete s then _ else _ : Act ω Bool) s = _ at h
  split at h
  · rename_i hcomplete
    obtain ⟨_, u, hhandled, hdone⟩ := act_bind_eq_ok.mp h
    cases hdone
    cases hvirtual : virtual.handleIncomingMessage msg s.world with
    | error e w =>
        rw [handleMessage_error hmsg hvirtual] at hhandled
        cases hhandled
    | ok _ w =>
        cases hreplaced : virtual.replaced w with
        | true => exact ⟨hcomplete, rfl, w, rfl, hreplaced⟩
        | false =>
            rw [handleMessage_ok hmsg hvirtual hreplaced] at hhandled
            cases hhandled
            have hbehind : virtual.replaced (s.behind find virtual msg w).world = false := by
              unfold behind
              simp only
              split
              · rw [hclose, hreplaced]
              · exact hreplaced
            rw [hbehind] at ht
            cases ht
  · cases h
    rw [hs] at ht
    cases ht

include hheads

/-- The only line that replaces a transport is an empty one. -/
theorem processLine_replaces {line : Bytes} {b : Bool} (hs : virtual.replaced s.world = false)
    (h : processLine find virtual line s = .ok b t) (ht : virtual.replaced t.world = true) :
    line = [] ∧ b = true ∧ ∃ msg w w', s.incoming_message_ = some msg ∧
      getContentLength find msg.message.headers_ = .ok (msg.message.body_.length : Int) ∧
      virtual.onEndOfMessageHeaders msg.message.headers_ s.world = .ok () w ∧
      virtual.handleIncomingMessage msg w = .ok () w' ∧ virtual.replaced w' = true := by
  have hsame : t.world ≠ s.world := by
    intro heq
    rw [heq, hs] at ht
    cases ht
  by_cases hincoming : s.incoming_message_ = none
  · rw [processLine_first hincoming] at h
    cases h
    exact absurd rfl hsame
  · cases line with
    | nil =>
        rw [processLine_blank hincoming] at h
        -- only an empty line calls a handler
        obtain ⟨_, u, hmark, hcall⟩ := act_bind_eq_ok.mp h
        obtain ⟨msg, length, w, hmsg, hlength, hhead, hu⟩ := markHeadersComplete_ok hmark
        have hmsg' : u.incoming_message_ = some msg := by rw [hu, hmsg]
        have hw : virtual.replaced u.world = false := by
          rw [hu]
          exact (hheads _ _ _ hhead).trans hs
        obtain ⟨hcomplete, rfl, w', hcalled, hreplaced⟩ :=
          handleComplete_replaces hclose hmsg' hw hcall ht
        unfold isMessageComplete at hcomplete
        simp only [hmsg', beq_iff_eq] at hcomplete
        rw [hu] at hcomplete hcalled
        rw [show length = (msg.message.body_.length : Int) from hcomplete.symm] at hlength
        exact ⟨rfl, rfl, msg, w, w', hmsg, hlength, hhead, hcalled, hreplaced⟩
    | cons c line =>
        cases hc : isLWS c with
        | true =>
            rw [processLine_continuation hc hincoming] at h
            obtain ⟨_, u, hfields, hdone⟩ := act_bind_eq_ok.mp h
            obtain ⟨msg, last_header_, headers_, -, rfl⟩ := headerContinuation_ok hfields
            cases hdone
            exact absurd rfl hsame
        | false =>
            rw [processLine_header hc hincoming] at h
            obtain ⟨_, u, hfields, hdone⟩ := act_bind_eq_ok.mp h
            obtain ⟨msg, last_header_, headers_, -, rfl⟩ := headerLine_ok hfields
            cases hdone
            exact absurd rfl hsame

theorem loop_leftAlone_iff (turns : Nat) : ∀ s : Transport ω, s.buf.length < turns →
    virtual.replaced s.world = false →
    (LeftAloneIn find virtual turns s ↔ UpgradeLast find virtual s) := by
  induction turns with
  | zero => exact fun s hturns => absurd hturns (Nat.not_lt_zero _)
  | succ turns ih =>
      intro s hturns hs
      by_cases hbuf : s.buf = []
      · refine iff_of_true (leftAloneIn_of_stop turns fun b t ht => ?_)
          (upgradeLast_of_stuck (.inr (by rw [hbuf]; exact List.not_mem_nil)))
        rw [processInput_empty hs hbuf] at ht
        cases ht
        exact .inl rfl
      cases hparked : parked s with
      | true =>
          -- a body takes all there is
          refine iff_of_true (leftAloneIn_of_stop turns fun b t ht => .inr ?_)
            (upgradeLast_of_stuck (.inl hparked))
          rw [processInput_body hs hbuf hparked] at ht
          exact (processBody_ok hparked ht).1
      | false =>
          by_cases hline : LF ∈ s.buf
          · obtain ⟨front, rest, hsplit, hfront⟩ := List.eq_append_cons_of_mem hline
            have hprocess := processInput_line find hs hparked hsplit hfront
            have hkeeps := (processLine_blind find virtual (removeTrailingChar front CR)).keeps_buf
              { s with buf := rest }
            cases hresult : processLine find virtual (removeTrailingChar front CR)
                { s with buf := rest } with
            | error e t =>
                rw [hresult] at hprocess
                refine iff_of_true (leftAloneIn_of_stop turns fun b u hu => ?_)
                  (upgradeLast_of_throws hsplit hfront hresult)
                rw [hprocess] at hu
                cases hu
            | ok b t =>
                rw [hresult] at hprocess hkeeps
                have hrest : t.buf = rest := hkeeps
                have hlen := congrArg List.length hsplit
                rw [List.length_append, List.length_cons] at hlen
                cases ht : virtual.replaced t.world with
                | true =>
                    obtain ⟨hempty, rfl, hhandled⟩ := processLine_replaces hheads hclose
                      (s := { s with buf := rest }) hs hresult ht
                    have hnext : UpgradesNext find virtual s rest := by
                      refine ⟨?_, hparked, hs, hhandled⟩
                      rcases removeTrailingChar_eq_nil.mp hempty with rfl | rfl
                      · exact .inl hsplit
                      · exact .inr hsplit
                    exact loop_replaced_iff hsplit hfront hturns hnext hprocess hresult hrest ht
                | false =>
                    by_cases hagain : b = true ∧ t.buf ≠ []
                    · obtain ⟨rfl, hne⟩ := hagain
                      rw [leftAloneIn_again hprocess hne ht, ih t (by rw [hrest]; omega) ht]
                      refine ⟨fun hlast => upgradeLast_behind hsplit hfront hresult ht fun _ => hlast,
                        fun hlast u behind hr hu => hlast u behind (.head ?_ hr) hu⟩
                      exact ⟨front, rest, hfront, hsplit, hparked, hs, hresult⟩
                    · rw [not_and_or, Bool.not_eq_true, not_not] at hagain
                      refine iff_of_true (leftAloneIn_of_stop turns fun b' u hu => ?_)
                        (upgradeLast_behind hsplit hfront hresult ht fun hb => ?_)
                      · rw [hprocess] at hu
                        cases hu
                        exact hagain
                      · rcases hagain with hfalse | hnil
                        · rw [hb] at hfalse
                          cases hfalse
                        · exact upgradeLast_of_stuck (.inr (by rw [hnil]; exact List.not_mem_nil))
          · refine iff_of_true (leftAloneIn_of_stop turns fun b t ht => ?_)
              (upgradeLast_of_stuck (.inr hline))
            rw [processInput_incomplete hs hbuf hparked hline] at ht
            cases ht
            exact .inl rfl

end

end Transport

/-! ## Server transports -/

/-- A server transport that has been replaced is left alone, with what is in the buffer behind
the upgraded message, exactly when nothing is. -/
theorem left_alone_iff (find : Find) (server : Server σ) (s : Transport (World σ))
    (hs : s.world.replacedBy = none) :
    LeftAlone find (virtual find server) s ↔ UpgradeLast find (virtual find server) s := by
  refine loop_leftAlone_iff (fun headers w w' h => ?_) (fun w => rfl) (s.buf.length + 1) s
    (Nat.lt_succ_self _) ?_
  · obtain ⟨w'', hw'', hsame⟩ := head_returns find headers w
    rw [show onEndOfMessageHeaders find headers w = .ok () w' from h] at hw''
    cases hw''
    exact hsame
  · show s.world.replacedBy.isSome = false
    rw [hs]
    rfl

/-! ## A request that is upgraded -/

/-- The settings of every request can be decoded. -/
def h2cServer : Server Unit where
  dispatch _ _ := .ok ([], ())
  upgrade _ := .ok (Http2.Impl.new {})

/-- `GET /` with an Upgrade field. -/
def upgradeText : Bytes :=
  octets "GET / HTTP/1.1" ++ CRLF ++ octets "Upgrade: h2c" ++ CRLF ++ CRLF

/-- A fresh transport, and what is in the buffer. -/
def buffered (buf : Bytes) : Transport (World Unit) := { new () with buf := buf }

/-- The transport is replaced when the call returns. -/
def replacing : EStateM.Result Exn (Transport (World Unit)) Bool → Bool
  | .ok _ t => t.world.replacedBy.isSome
  | .error _ _ => false

def thrown : EStateM.Result Exn (Transport (World Unit)) Unit → Option Exn
  | .ok _ _ => none
  | .error e _ => some e

/-- With one octet behind the request, `processInput` is called on what has been replaced. -/
theorem left_alone_octet_behind :
    thrown (onInput Find.first (virtual Find.first h2cServer) (buffered (upgradeText ++ [LF]))) =
        some .useAfterDestroy ∧
      ¬ LeftAlone Find.first (virtual Find.first h2cServer) (buffered (upgradeText ++ [LF])) := by
  have hthrows : thrown (onInput Find.first (virtual Find.first h2cServer)
      (buffered (upgradeText ++ [LF]))) = some .useAfterDestroy := by
    decide +kernel
  refine ⟨hthrows, fun h => ?_⟩
  have hturns : (turns Find.first (virtual Find.first h2cServer)
      (buffered (upgradeText ++ [LF]))).any
        (fun u => replacing (processInput Find.first (virtual Find.first h2cServer) u)) = true := by
    decide +kernel
  obtain ⟨u, hu, hreplacing⟩ := List.any_eq_true.mp hturns
  cases hturn : processInput Find.first (virtual Find.first h2cServer) u with
  | error e t =>
      rw [hturn] at hreplacing
      cases hreplacing
  | ok b t =>
      rw [hturn] at hreplacing
      have hdone := h u hu b t hturn hreplacing
      rw [hdone] at hthrows
      cases hthrows

/-- What is in the buffer behind some lines begins behind a line feed, or where it began. -/
theorem lineReads_behind {ω : Type} {find : Find} {virtual : Virtual ω} {s u : Transport ω}
    (h : Relation.ReflTransGen (LineRead find virtual) s u) :
    ∃ front, LF :: s.buf = front ++ LF :: u.buf := by
  induction h with
  | refl => exact ⟨[], rfl⟩
  | @tail t u _ hread ih =>
      obtain ⟨line, rest, -, hbuf, -, -, hresult⟩ := hread
      have hkeeps := (processLine_blind find virtual (removeTrailingChar line CR)).keeps_buf
        { t with buf := rest }
      rw [hresult] at hkeeps
      rw [show u.buf = rest from hkeeps]
      obtain ⟨front, hfront⟩ := ih
      exact ⟨front ++ LF :: line, by rw [hfront, hbuf]; simp⟩

/-- An empty line at the end, and nowhere else. -/
def blankLast : Bytes → Bool
  | [] => true
  | c :: text =>
      (c != LF || text.take 2 != CRLF || text.length == 2) && (c != LF || text.head? != some LF) &&
        blankLast text

theorem blankLast_behind {front text : Bytes} (h : blankLast (front ++ LF :: text) = true) :
    (∀ rest, text ≠ LF :: rest) ∧ ∀ rest, text = CR :: LF :: rest → rest = [] := by
  induction front with
  | nil =>
      rw [List.nil_append, blankLast, Bool.and_eq_true, Bool.and_eq_true] at h
      refine ⟨fun rest heq => ?_, fun rest heq => ?_⟩
      · rw [heq] at h
        simp at h
      · rw [heq] at h
        simpa [CRLF] using h.1.1
  | cons c front ih =>
      rw [List.cons_append, blankLast, Bool.and_eq_true] at h
      exact ih h.2

/-- Nothing is behind the request, and the transport is left alone. -/
theorem left_alone_request :
    LeftAlone Find.first (virtual Find.first h2cServer) (buffered upgradeText) := by
  refine (left_alone_iff Find.first h2cServer (buffered upgradeText) rfl).mpr ?_
  intro u rest hreads hnext
  have hblank : blankLast (LF :: upgradeText) = true := by decide +kernel
  obtain ⟨front, hfront⟩ := lineReads_behind hreads
  rw [show LF :: upgradeText = front ++ LF :: u.buf from hfront] at hblank
  obtain ⟨hlf, hcrlf⟩ := blankLast_behind hblank
  rcases hnext.blank with hbuf | hbuf
  · exact absurd hbuf (hlf rest)
  · exact hcrlf rest hbuf

end Shitty.Http1
