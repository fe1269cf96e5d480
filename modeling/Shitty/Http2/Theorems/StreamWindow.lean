import Shitty.Http2.ServerStream

/-!
# The window of a stream

Runs of `addWindowSize` and `subtractWindowSize` on one stream. A window below zero is
compared with the reduction by its distance from zero, and not from -2^31, so that a
reduction is refused that would fit or taken that does not. Each call has its condition
for being exact. From the first call that is not, the run is not, and before it the
window is the sum of what has been accepted.
-/

namespace Shitty.Http2

/-! ## Calls -/

/-- A call on a stream, `addWindowSize(a)` or `subtractWindowSize(d)`. -/
inductive WindowCall where
  | add (windowSize : BitVec 32)
  | subtract (adjustment : BitVec 32)

namespace WindowCall

def apply : WindowCall → ServerStream → Except Exn ServerStream
  | .add windowSize, stream => stream.addWindowSize windowSize.toInt
  | .subtract adjustment, stream => stream.subtractWindowSize adjustment.toNat

/-- The stream after the call, which is as before when it throws. -/
def after (call : WindowCall) (stream : ServerStream) : ServerStream :=
  match call.apply stream with
  | .ok changed => changed
  | .error _ => stream

/-- What the call changes the window by when it is accepted. -/
def amount : WindowCall → Int
  | .add windowSize => windowSize.toInt
  | .subtract adjustment => -adjustment.toNat

def Rejected (call : WindowCall) (stream : ServerStream) : Prop :=
  ∃ e, call.apply stream = .error e

/-- When a call is to be rejected. -/
def Illegal (window : Int) : WindowCall → Prop
  | .add windowSize => windowSize.toInt < 1 ∨ ¬ InInt32 (window + windowSize.toInt)
  | .subtract adjustment =>
      INT32_MAX < adjustment.toNat ∨ ¬ InInt32 (window - adjustment.toNat)

/-- The signed numbers that are computed on the way, as integers. -/
def evaluates (window : Int) : WindowCall → List Int
  | .add windowSize =>
      if windowSize.toInt < 1 then []
      else if window < 0 then [window + windowSize.toInt]
      else (INT32_MAX - window) ::
        if wouldAddOverflow window windowSize.toInt then [] else [window + windowSize.toInt]
  | .subtract adjustment =>
      (if window < 0 then [(window.natAbs : Int)] else []) ++
        if (window < 0 ∧ window.natAbs < adjustment.toNat) ∨ INT32_MAX < adjustment.toNat then []
        else [(adjustment.toNat : Int), window - adjustment.toNat]

/-- One call is exact: it is rejected when it is to be, and nothing overflows. -/
structure Exact (call : WindowCall) (stream : ServerStream) : Prop where
  rejected : call.Rejected stream ↔ call.Illegal stream.availableWindowSize
  inside : ∀ v ∈ call.evaluates stream.availableWindowSize, InInt32 v

/-- The comparison with `abs(windowSize_)` decides as one with the room above -2^31
would. -/
def Unaffected (window : Int) : WindowCall → Prop
  | .add _ => True
  | .subtract adjustment =>
      0 ≤ window ∨ -2 ^ 31 < window ∧ (INT32_MAX < adjustment.toNat ∨
        ((adjustment.toNat : Int) ≤ -window ↔ (adjustment.toNat : Int) ≤ window + 2 ^ 31))

/-! ## One call -/

theorem add_rejected_iff (windowSize : BitVec 32) (stream : ServerStream) :
    (WindowCall.add windowSize).Rejected stream ↔
      windowSize.toInt < 1 ∨
        0 ≤ stream.windowSize_.toInt ∧ INT32_MAX - stream.windowSize_.toInt < windowSize.toInt := by
  unfold Rejected apply ServerStream.addWindowSize Http2.addWindowSize wouldAddOverflow
  by_cases hone : windowSize.toInt < 1
  · simp [hone]
  · by_cases hneg : stream.windowSize_.toInt < 0
    · simp [hone, hneg]
    · by_cases hover : INT32_MAX - stream.windowSize_.toInt < windowSize.toInt
      · simp [hone, hneg, hover, Int.not_lt.mp hneg]
      · simp [hone, hneg, hover]

theorem subtract_rejected_iff (adjustment : BitVec 32) (stream : ServerStream) :
    (WindowCall.subtract adjustment).Rejected stream ↔
      (stream.windowSize_.toInt < 0 ∧ stream.windowSize_.toInt.natAbs < adjustment.toNat) ∨
        INT32_MAX < adjustment.toNat := by
  simp only [Rejected, apply, ServerStream.subtractWindowSize]
  by_cases hlarge : (stream.windowSize_.toInt < 0 ∧ stream.windowSize_.toInt.natAbs < adjustment.toNat) ∨
      INT32_MAX < adjustment.toNat
  · simp [hlarge]
  · simp [hlarge]

/-- An addition is exact whatever the window. -/
theorem add_exact (windowSize : BitVec 32) (stream : ServerStream) :
    (WindowCall.add windowSize).Exact stream := by
  have hsize : windowSize.toInt ≤ INT32_MAX := Int.le_of_lt_add_one (BitVec.toInt_lt (x := windowSize))
  obtain ⟨hmin, hmax⟩ := inInt32_toInt stream.windowSize_
  refine ⟨?_, ?_⟩
  · rw [add_rejected_iff]
    simp only [Illegal, ServerStream.availableWindowSize, InInt32]
    omega
  · simp only [evaluates, wouldAddOverflow, ServerStream.availableWindowSize]
    by_cases hone : windowSize.toInt < 1
    · simp [hone]
    · by_cases hneg : stream.windowSize_.toInt < 0
      · simp [hone, hneg, InInt32]
        omega
      · by_cases hover : INT32_MAX - stream.windowSize_.toInt < windowSize.toInt
        · simp [hone, hneg, hover, InInt32]
          omega
        · simp [hone, hneg, hover, InInt32]
          omega

theorem subtract_exact_iff (adjustment : BitVec 32) (stream : ServerStream) :
    (WindowCall.subtract adjustment).Exact stream ↔
      (WindowCall.subtract adjustment).Unaffected stream.windowSize_.toInt := by
  obtain ⟨hmin, hmax⟩ := inInt32_toInt stream.windowSize_
  have hlast : INT32_MAX = 2 ^ 31 - 1 := rfl
  -- the distance is computed below zero only, the difference when the call is accepted
  have hinside : (∀ v ∈ (WindowCall.subtract adjustment).evaluates stream.windowSize_.toInt, InInt32 v) ↔
      (stream.windowSize_.toInt < 0 → stream.windowSize_.toInt ≠ -2 ^ 31) ∧
        (¬ (WindowCall.subtract adjustment).Rejected stream →
          -2 ^ 31 ≤ stream.windowSize_.toInt - adjustment.toNat) := by
    rw [subtract_rejected_iff]
    simp only [evaluates, List.forall_mem_append]
    refine and_congr ?_ ?_
    · by_cases hneg : stream.windowSize_.toInt < 0
      · rw [if_pos hneg, List.forall_mem_singleton, InInt32]
        omega
      · simp [hneg]
    · by_cases hlarge : (stream.windowSize_.toInt < 0 ∧ stream.windowSize_.toInt.natAbs < adjustment.toNat) ∨
          INT32_MAX < adjustment.toNat
      · simp [hlarge]
      · simp [hlarge, InInt32]
        omega
  have hrejected := subtract_rejected_iff adjustment stream
  constructor
  · rintro ⟨hexact, hvalues⟩
    obtain ⟨hdistance, hfits⟩ := hinside.mp hvalues
    simp only [Illegal, ServerStream.availableWindowSize, InInt32, Unaffected] at *
    rw [hrejected] at hexact
    omega
  · intro hunaffected
    simp only [Unaffected] at hunaffected
    refine ⟨?_, hinside.mpr ⟨by omega, ?_⟩⟩
    · rw [hrejected]
      simp only [Illegal, ServerStream.availableWindowSize, InInt32]
      omega
    · rw [hrejected]
      omega

/-- Exactly the calls are exact whose comparison is right. -/
theorem exact_iff (call : WindowCall) (stream : ServerStream) :
    call.Exact stream ↔ call.Unaffected stream.windowSize_.toInt := by
  cases call with
  | add windowSize => exact iff_of_true (add_exact windowSize stream) trivial
  | subtract adjustment => exact subtract_exact_iff adjustment stream

/-- The window is the sum, as it is stored, or the call is rejected. -/
theorem after_window (call : WindowCall) (stream : ServerStream) :
    call.Rejected stream ∧ call.after stream = stream ∨
      ¬ call.Rejected stream ∧ (call.after stream).windowSize_ =
        BitVec.ofInt 32 (stream.windowSize_.toInt + call.amount) := by
  unfold Rejected after
  cases happly : call.apply stream with
  | error e => exact .inl ⟨⟨e, rfl⟩, rfl⟩
  | ok changed =>
      refine .inr ⟨by simp, ?_⟩
      cases call with
      | add windowSize =>
          simp only [apply, ServerStream.addWindowSize] at happly
          cases hadd : Http2.addWindowSize stream.windowSize_.toInt windowSize.toInt with
          | error e =>
              rw [hadd] at happly
              cases happly
          | ok window =>
              rw [hadd] at happly
              cases happly
              simp only [Http2.addWindowSize] at hadd
              split at hadd
              · cases hadd
              · split at hadd
                · cases hadd
                  rfl
                · split at hadd
                  · cases hadd
                  · cases hadd
                    rfl
      | subtract adjustment =>
          simp only [apply, ServerStream.subtractWindowSize] at happly
          split at happly
          · cases happly
          · cases happly
            rfl

/-- An exact call that is accepted changes the window by the amount. -/
theorem Exact.window {call : WindowCall} {stream : ServerStream} (h : call.Exact stream) :
    (call.after stream).availableWindowSize = stream.availableWindowSize +
      match call.apply stream with
      | .ok _ => call.amount
      | .error _ => 0 := by
  rcases call.after_window stream with ⟨⟨e, hrejected⟩, hsame⟩ | ⟨haccepted, hchanged⟩
  · rw [hsame, hrejected, Int.add_zero]
  · have hlegal := haccepted
    rw [h.rejected] at hlegal
    have hinside : InInt32 (stream.windowSize_.toInt + call.amount) := by
      cases call with
      | add windowSize => exact not_not.mp fun hout => hlegal (.inr hout)
      | subtract adjustment => exact not_not.mp fun hout => hlegal (.inr hout)
    cases happly : call.apply stream with
    | error e => exact absurd ⟨e, happly⟩ haccepted
    | ok changed =>
        rw [ServerStream.availableWindowSize, hchanged, hinside.toInt_ofInt]
        rfl

end WindowCall

/-! ## Runs -/

/-- The stream after some calls, of which those that throw change nothing. -/
def runCalls (stream : ServerStream) (calls : List WindowCall) : ServerStream :=
  calls.foldl (fun stream call => call.after stream) stream

/-- The accepted additions less the accepted subtractions. -/
def acceptedTotal : ServerStream → List WindowCall → Int
  | _, [] => 0
  | stream, call :: calls =>
      (match call.apply stream with
        | .ok _ => call.amount
        | .error _ => 0) + acceptedTotal (call.after stream) calls

/-- Every call of a run from construction is exact, and the window is what has been
accepted. -/
structure ExactRun (id : BitVec 31) (calls : List WindowCall) : Prop where
  window : ∀ done, done <+: calls →
    (runCalls { id_ := id } done).availableWindowSize = 65535 + acceptedTotal { id_ := id } done
  each : ∀ done call, done ++ [call] <+: calls → call.Exact (runCalls { id_ := id } done)

/-- When every call is exact, the window is what has been accepted. -/
theorem runCalls_window (calls : List WindowCall) : ∀ stream : ServerStream,
    (∀ before call, before ++ [call] <+: calls → call.Exact (runCalls stream before)) →
      (runCalls stream calls).availableWindowSize =
        stream.availableWindowSize + acceptedTotal stream calls := by
  induction calls with
  | nil => exact fun stream _ => (Int.add_zero _).symm
  | cons call calls ih =>
      intro stream hexact
      have hfirst : call.Exact stream :=
        hexact [] call (List.cons_prefix_cons.mpr ⟨rfl, List.nil_prefix⟩)
      have hrest := ih (call.after stream) fun before call' hprefix =>
        hexact (call :: before) call' (List.cons_prefix_cons.mpr ⟨rfl, hprefix⟩)
      show (runCalls (call.after stream) calls).availableWindowSize = _
      rw [hrest, acceptedTotal, hfirst.window, Int.add_assoc]

/-- In a run from construction every call is exact, and the window what has been
accepted, exactly when no subtraction is from a window below zero where the comparison
with its distance from zero decides otherwise than the room above -2^31. -/
theorem exactRun_iff (id : BitVec 31) (calls : List WindowCall) :
    ExactRun id calls ↔
      ∀ done call, done ++ [call] <+: calls →
        call.Unaffected (runCalls { id_ := id } done).availableWindowSize := by
  constructor
  · intro hrun done call hcall
    exact (WindowCall.exact_iff call _).mp (hrun.each done call hcall)
  · intro hall
    have heach : ∀ done call, done ++ [call] <+: calls →
        call.Exact (runCalls { id_ := id } done) :=
      fun done call hcall => (WindowCall.exact_iff call _).mpr (hall done call hcall)
    refine ⟨fun done hdone => ?_, heach⟩
    exact runCalls_window done { id_ := id } fun before call hbefore =>
      heach before call (hbefore.trans hdone)

/-- From -1 a reduction by 2 is refused. -/
theorem window_refused : ¬ ∀ id calls, ExactRun id calls := by
  intro h
  have hexact := (h 1 [.subtract 65536, .subtract 2]).each [.subtract 65536] (.subtract 2)
    List.prefix_rfl
  have hrejected := hexact.rejected.mp ⟨.runtime_error "window size reduction too large", rfl⟩
  revert hrejected
  simp [WindowCall.Illegal, InInt32, INT32_MAX, runCalls, WindowCall.after, WindowCall.apply,
    ServerStream.subtractWindowSize, ServerStream.availableWindowSize]

end Shitty.Http2
