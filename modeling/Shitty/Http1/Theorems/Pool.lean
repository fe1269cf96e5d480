import Mathlib.Data.List.Induction
import Shitty.Http1.Logic.Pool

/-!
# Whose a backend transport is

Users of the pool get transports and put them back, in any order. Nobody gets one that
somebody else has. The history of who holds what is kept beside the pool, and the
invariant relates the two. Each kind of call has its case, also where it throws.
-/

namespace Shitty.Http1.ClientTransportSource

variable {η : Type}

/-! ## Calls -/

/-- `getTransport` may find no connection to be had; what is thrown then comes with the
call. -/
inductive Call (η : Type) where
  | getTransport (resp_handler : η) (refused : Option Exn)
  | resetHandler (t : Nat)
  | putTransport (t : Nat)

inductive Outcome where
  | transport (t : Nat)
  | done
  | thrown (e : Exn)
  deriving DecidableEq

/-- The pool, and the transports that its users have got and not put back. -/
structure Usage (η : Type) where
  source : ClientTransportSource η := {}
  held : List Nat := []

namespace Usage

/-- A connection is only made when there is none to spare, and before anything else is
changed. -/
def call (u : Usage η) : Call η → Outcome × Usage η
  | .getTransport resp_handler refused =>
      match u.source.spare_connections_, refused with
      | [], some e => (.thrown e, u)
      | _, _ =>
          let got := u.source.getTransport resp_handler
          (.transport got.1, { source := got.2, held := got.1 :: u.held })
  | .resetHandler t => (.done, { u with source := u.source.resetHandler t })
  | .putTransport t =>
      match ClientTransportSource.putTransport t u.source with
      | .ok _ source => (.done, { source := source, held := u.held.erase t })
      | .error e source => (.thrown e, { u with source := source })

/-- The pool and its users behind some calls. An exception leaves a call and does not end the
run. -/
def run (calls : List (Call η)) : Usage η := calls.foldl (fun u c => (u.call c).2) {}

/-- No transport is shared: each is in one container, and in it once; one that is got was
not held; and one that is not in use cannot be put back. -/
structure NeverShared (u : Usage η) : Prop where
  one_container : ∀ t, t < u.source.next →
    Xor (t ∈ u.source.spare_connections_) (t ∈ u.source.in_use_connections_)
  once : u.source.spare_connections_.Nodup ∧ u.source.in_use_connections_.Nodup
  created : ∀ t, t ∈ u.source.spare_connections_ ∨ t ∈ u.source.in_use_connections_ →
    t < u.source.next
  gets : ∀ resp_handler refused t u',
    u.call (.getTransport resp_handler refused) = (.transport t, u') → t ∉ u.held
  idle : ∀ t ∈ u.source.spare_connections_, (u.source.transports t).handler_ = none
  refuses : ∀ t, t ∉ u.source.in_use_connections_ → ∃ u',
    u.call (.putTransport t) = (.thrown (.logic_error "Tried to remove unknown transport"), u') ∧
      u'.source.spare_connections_ = u.source.spare_connections_ ∧
      u'.source.in_use_connections_ = u.source.in_use_connections_

/-! ## What a call keeps -/

/-- The transports in use are those that are held. -/
structure Kept (u : Usage η) : Prop where
  pooled : Pooled u.source
  held : u.held = u.source.in_use_connections_

theorem kept_new : Kept ({} : Usage η) := ⟨pooled_new, rfl⟩

/-- A transport that is not of this pool has no handler that could be reset. -/
theorem resetHandler_pooled {source : ClientTransportSource η} (h : Pooled source) (t : Nat) :
    Pooled (source.resetHandler t) := by
  by_cases hknown : t < source.next
  · exact h.modify hknown fun _ => rfl
  · have hfresh := h.fresh t (Nat.not_lt.mp hknown)
    have hsame : source.resetHandler t = source := by
      have hupdate : Function.update source.transports t
          { source.transports t with handler_ := none } = source.transports := by
        rw [Function.update_eq_self_iff, hfresh]
      show { source with transports := _ } = source
      rw [hupdate]
    rw [hsame]
    exact h

theorem putTransport_unknown {source : ClientTransportSource η} {t : Nat}
    (h : t ∉ source.in_use_connections_) :
    putTransport t source =
      .error (.logic_error "Tried to remove unknown transport") (source.resetHandler t) := if_neg h

/-- A transport is got, or none could be connected. -/
theorem call_getTransport (u : Usage η) (resp_handler : η) (refused : Option Exn) :
    (∃ e, u.call (.getTransport resp_handler refused) = (.thrown e, u)) ∨
      u.call (.getTransport resp_handler refused) =
        (.transport (u.source.getTransport resp_handler).1,
          { source := (u.source.getTransport resp_handler).2
            held := (u.source.getTransport resp_handler).1 :: u.held }) := by
  unfold call
  dsimp only
  split
  · exact .inl ⟨_, rfl⟩
  · exact .inr rfl

theorem Kept.call {u : Usage η} (h : Kept u) (c : Call η) : Kept (u.call c).2 := by
  cases c with
  | getTransport resp_handler refused =>
      rcases u.call_getTransport resp_handler refused with ⟨e, hcall⟩ | hcall
      · rw [hcall]
        exact h
      · rw [hcall]
        have hgets := getTransport_gets h.pooled resp_handler
        exact ⟨hgets.pooled, by rw [hgets.in_use, ← h.held]⟩
  | resetHandler t => exact ⟨resetHandler_pooled h.pooled t, h.held⟩
  | putTransport t =>
      by_cases hin : t ∈ u.source.in_use_connections_
      · obtain ⟨source, hput, hpooled, -⟩ := putTransport_puts h.pooled hin
        have herase := putTransport_in_use hin
        rw [herase] at hput
        cases hput
        simp only [Usage.call, herase]
        exact ⟨hpooled, congrArg (List.erase · t) h.held⟩
      · -- the handler is reset all the same
        simp only [Usage.call, putTransport_unknown hin]
        exact ⟨resetHandler_pooled h.pooled t, h.held⟩

theorem run_kept (calls : List (Call η)) : Kept (run calls) := by
  induction calls using List.reverseRecOn with
  | nil => exact kept_new
  | append_singleton calls c ih =>
      rw [run, List.foldl_append]
      exact ih.call c

/-- In every history of calls, no transport is shared. -/
theorem calls_never_share (calls : List (Call η)) : NeverShared (run calls) where
  one_container t ht := by
    have hpooled := (run_kept calls).pooled
    rcases (hpooled.known t).mp ht with hspare | hin
    · exact .inl ⟨hspare, hpooled.disjoint t hspare⟩
    · exact .inr ⟨hin, fun hspare => hpooled.disjoint t hspare hin⟩
  once := ⟨(run_kept calls).pooled.spare_nodup, (run_kept calls).pooled.in_use_nodup⟩
  created t ht := ((run_kept calls).pooled.known t).mpr ht
  gets resp_handler refused t u' hcall := by
    have hkept := run_kept calls
    rw [hkept.held]
    rcases (run calls).call_getTransport resp_handler refused with ⟨e, hthrown⟩ | hgot
    · rw [hthrown] at hcall
      cases hcall
    · rw [hgot] at hcall
      cases hcall
      exact (getTransport_gets hkept.pooled resp_handler).free
  idle t ht := (run_kept calls).pooled.idle t ((run_kept calls).pooled.disjoint t ht)
  refuses t ht := by
    refine ⟨{ run calls with source := (run calls).source.resetHandler t }, ?_, rfl, rfl⟩
    simp only [call, putTransport_unknown ht]

end Usage

end Shitty.Http1.ClientTransportSource
