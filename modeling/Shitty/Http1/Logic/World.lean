import Shitty.Http1.Logic.Framing
import Shitty.Lib.Returns

/-!
# What the virtual functions keep

The transport touches the rest of the world by its virtual functions only, so what these
keep is kept by every turn, and while a stream is drained. There is one lemma for each
function of the class, from a line up to `onInput`. Each says that a property is kept
when it is by the virtual functions that are called there.
-/

namespace Shitty.Http1.Transport

open Lib Lib.Resumable

variable {ω : Type} {find : Find} {virtual : Virtual ω} {P : ω → Prop}

/-- A property of the world that holds behind each virtual function if it did before. -/
structure KeptBy (virtual : Virtual ω) (P : ω → Prop) : Prop where
  head : ∀ headers, Keeps (virtual.onEndOfMessageHeaders headers) P
  handled : ∀ msg, Keeps (virtual.handleIncomingMessage msg) P
  close : ∀ w, P w → P (virtual.close w)

/-- A property of the world, as one of the transport that has it. -/
abbrev Inside (P : ω → Prop) (s : Transport ω) : Prop := P s.world

theorem outside_keeps {f : EStateM Exn ω Unit} (h : Keeps f P) :
    Keeps (outside f) (Inside P) := by
  intro s hs
  have hend := h s.world hs
  unfold outside
  cases hf : f s.world with
  | ok _ w =>
      rw [hf] at hend
      exact hend
  | error e w =>
      rw [hf] at hend
      exact hend

theorem message_keeps : Keeps (message : Act ω IncomingMessage) (Inside P) := by
  intro s hs
  unfold message
  cases s.incoming_message_ <;> exact hs

theorem front_keeps (n : Nat) : Keeps (front n : Act ω Bytes) (Inside P) := by
  intro s hs
  unfold front
  split <;> exact hs

theorem advance_keeps (n : Nat) : Keeps (advance n : Act ω Unit) (Inside P) := by
  intro s hs
  unfold advance
  cases Shitty.advance n s.buf <;> exact hs

theorem getLine_keeps : Keeps (getLine : Act ω (Option Bytes)) (Inside P) := by
  intro s hs
  unfold getLine
  cases Http1.getLine s.buf <;> exact hs

theorem headerLine_keeps (line : Bytes) : Keeps (headerLine line : Act ω Unit) (Inside P) := by
  unfold headerLine
  cases line.findIdx? fun c => c == 0x3a with
  | none => exact .throw _
  | some colon =>
      refine .bind (.modify fun s hs => hs) fun _ => .bind message_keeps fun msg => ?_
      exact fun s hs => hs

theorem headerContinuation_keeps (line : Bytes) :
    Keeps (headerContinuation find line : Act ω Unit) (Inside P) := by
  refine .get_bind fun s => .ite (.throw _) (.bind message_keeps fun msg => ?_)
  cases find.find msg.message.headers_ s.last_header_ with
  | none => exact .throw _
  | some i => exact fun s hs => hs

theorem readBody_keeps : Keeps (readBody : Act ω Unit) (Inside P) := by
  refine .get_bind fun s => .ite (.throw _) (.get_bind fun s => .bind message_keeps fun msg => ?_)
  exact .bind (front_keeps _) fun data => .bind (fun s hs => hs) fun _ => advance_keeps _

section

variable (h : KeptBy virtual P)

include h

theorem markHeadersComplete_keeps : Keeps (markHeadersComplete find virtual) (Inside P) := by
  refine .bind (.modify fun s hs => hs) fun _ => .bind message_keeps fun msg => ?_
  cases getContentLength find msg.message.headers_ with
  | error e => exact .throw e
  | ok length => exact .bind (.modify fun s hs => hs) fun _ => outside_keeps (h.head _)

theorem handleMessage_keeps : Keeps (handleMessage find virtual) (Inside P) := by
  refine .get_bind fun s => ?_
  cases s.incoming_message_ with
  | none => exact .throw _
  | some msg =>
      refine .bind (fun s hs => hs) fun _ => .bind (outside_keeps (h.handled msg)) fun _ => ?_
      refine .get_bind fun s => .ite (.pure _) (.bind (fun s hs => hs) fun _ => ?_)
      exact .ite (.modify fun s hs => h.close s.world hs) (.pure _)

theorem handleComplete_keeps : Keeps (handleComplete find virtual) (Inside P) :=
  .get_bind fun _ => .ite (.bind (handleMessage_keeps h) fun _ => .pure _) (.pure _)

theorem processLine_keeps (line : Bytes) : Keeps (processLine find virtual line) (Inside P) := by
  refine .get_bind fun s => .ite (.bind (.modify fun s hs => hs) fun _ => .pure _) (.ite ?_ ?_)
  · exact .bind (markHeadersComplete_keeps h) fun _ => handleComplete_keeps h
  · exact .ite (.bind (headerContinuation_keeps line) fun _ => .pure _)
      (.bind (headerLine_keeps line) fun _ => .pure _)

theorem processInput_keeps : Keeps (processInput find virtual) (Inside P) := by
  refine .get_bind fun s => .ite (.throw _) (.get_bind fun s => .ite (.pure _) (.get_bind fun s => ?_))
  refine .ite (.bind readBody_keeps fun _ => handleComplete_keeps h) (.bind getLine_keeps ?_)
  rintro (_ | line)
  · exact .pure _
  · exact processLine_keeps h line

theorem onInput_keeps : Keeps (onInput find virtual) (Inside P) := by
  have hloop : ∀ turns, Keeps (onInput_loop find virtual turns) (Inside P) := by
    intro turns
    induction turns with
    | zero => exact .pure _
    | succ turns ih =>
        exact .bind (processInput_keeps h) fun continu => .get_bind fun s => .ite ih (.pure _)
  exact .get_bind fun s => hloop _

/-- Every step of the consumer keeps it. -/
theorem step_keeps {due : Nat → Option Nat} {received : Nat} {s : Transport ω} (hs : P s.world) :
    (∀ t, step find virtual due s received = .next t → P t.world) ∧
      ∀ t e, step find virtual due s received = .fail t e → P t.world := by
  have hverdict : ∀ (r : EStateM.Result Exn (Transport ω) Bool) (more : Bytes),
      P (endState r).world →
        (∀ t, verdict (mapState (·.feed more) r) = .next t → P t.world) ∧
          ∀ t e, verdict (mapState (·.feed more) r) = .fail t e → P t.world := by
    rintro (⟨b, u⟩ | ⟨e, u⟩) more hend
    · exact ⟨fun t ht => by cases ht; exact hend, fun t e ht => by cases ht⟩
    · exact ⟨fun t ht => (by cases ht), fun t e ht => by cases ht; exact hend⟩
  unfold step
  split
  · exact ⟨nofun, nofun⟩
  · split
    · unfold bodyStep
      simp only
      split
      · exact ⟨nofun, nofun⟩
      · split
        · exact ⟨nofun, nofun⟩
        · exact hverdict _ _ (processInput_keeps h { s with buf := _ } hs)
    · split
      · exact ⟨nofun, fun t e ht => by cases ht; exact hs⟩
      · split
        · cases hresult : processInput find virtual s with
          | ok b t => exact ⟨fun u hu => by
              cases hu
              exact (processInput_keeps h).of_ok hs hresult, nofun⟩
          | error e t => exact ⟨nofun, fun u e' hu => by
              cases hu
              exact (processInput_keeps h).of_error hs hresult⟩
        · exact ⟨nofun, nofun⟩

/-- A property that every turn keeps holds behind all that is drained. -/
theorem drains_keeps {due : Nat → Option Nat} {x : Transport ω × Nat}
    {o : (Transport ω × Nat) × Option Exn} (hdrains : Drains (messages find virtual due) x o)
    (hx : P x.1.world) : P o.1.1.world := by
  induction hdrains with
  | wait _ => exact hx
  | next hstep _ ih => exact ih ((step_keeps h hx).1 _ (Counting.next_iff.mp hstep).1)
  | fail hstep => exact (step_keeps h hx).2 _ _ (Counting.fail_iff.mp hstep).1

end

end Shitty.Http1.Transport
