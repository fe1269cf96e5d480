import Mathlib.Data.List.Nodup
import Shitty.Http1.ClientTransportSource

/-!
# The pool of backend transports

Every transport there has been is either spare or in use, and whoever gets one gets one
that is not in use. A transport that has been got is in use until it is put back.
Changes of one transport leave the others as they are, and the two containers.
-/

namespace Shitty.Http1.ClientTransportSource

variable {η : Type}

structure Pooled (source : ClientTransportSource η) : Prop where
  spare_nodup : source.spare_connections_.Nodup
  in_use_nodup : source.in_use_connections_.Nodup
  known : ∀ t, t < source.next ↔
    t ∈ source.spare_connections_ ∨ t ∈ source.in_use_connections_
  disjoint : ∀ t ∈ source.spare_connections_, t ∉ source.in_use_connections_
  idle : ∀ t, t ∉ source.in_use_connections_ → (source.transports t).handler_ = none
  fresh : ∀ t, source.next ≤ t → source.transports t = {}

theorem pooled_new : Pooled ({} : ClientTransportSource η) where
  spare_nodup := .nil
  in_use_nodup := .nil
  known t := by simp
  disjoint _ h := by cases h
  idle _ _ := rfl
  fresh _ _ := rfl

theorem modify_transports (source : ClientTransportSource η) (t : Nat)
    (f : ClientTransport η → ClientTransport η) :
    (source.modify t f).transports =
      Function.update source.transports t (f (source.transports t)) := rfl

theorem modify_self (source : ClientTransportSource η) (t : Nat)
    (f : ClientTransport η → ClientTransport η) :
    (source.modify t f).transports t = f (source.transports t) := Function.update_self ..

theorem modify_of_ne (source : ClientTransportSource η) {t u : Nat} (h : u ≠ t)
    (f : ClientTransport η → ClientTransport η) :
    (source.modify t f).transports u = source.transports u := Function.update_of_ne h ..

/-- The connection of a transport that is there may change as it likes. -/
theorem Pooled.modify {source : ClientTransportSource η} (h : Pooled source) {t : Nat}
    {f : ClientTransport η → ClientTransport η} (ht : t < source.next)
    (hidle : t ∉ source.in_use_connections_ → (f (source.transports t)).handler_ = none) :
    Pooled (source.modify t f) where
  spare_nodup := h.spare_nodup
  in_use_nodup := h.in_use_nodup
  known := h.known
  disjoint := h.disjoint
  idle u hu := by
    by_cases hsame : u = t
    · subst hsame
      rw [modify_self]
      exact hidle hu
    · rw [source.modify_of_ne hsame]
      exact h.idle u hu
  fresh u hu := by
    have hsame : u ≠ t := by
      rintro rfl
      exact absurd ht (Nat.not_lt.mpr hu)
    rw [source.modify_of_ne hsame]
    exact h.fresh u hu

/-- What `getTransport` returns was not in use, and is now, with the handler. -/
structure Gets (source : ClientTransportSource η) (resp_handler : η) (t : Nat)
    (source' : ClientTransportSource η) : Prop where
  free : t ∉ source.in_use_connections_
  in_use : source'.in_use_connections_ = t :: source.in_use_connections_
  spare : source'.spare_connections_ = source.spare_connections_.tail
  transports : source'.transports = Function.update source.transports t
    { source.transports t with handler_ := some resp_handler }
  known : t < source'.next
  pooled : Pooled source'

theorem getTransport_gets {source : ClientTransportSource η} (h : Pooled source)
    (resp_handler : η) :
    Gets source resp_handler (source.getTransport resp_handler).1
      (source.getTransport resp_handler).2 := by
  unfold getTransport
  cases hspare : source.spare_connections_ with
  | cons top rest =>
      have hmem : top ∈ source.spare_connections_ := by
        rw [hspare]
        exact List.mem_cons_self
      have hfree := h.disjoint top hmem
      have hnodup := h.spare_nodup
      rw [hspare, List.nodup_cons] at hnodup
      simp only [spareTransport, emplace, if_neg hfree]
      have hbase : Pooled ({ source with
          spare_connections_ := rest
          in_use_connections_ := top :: source.in_use_connections_ } : ClientTransportSource η) :=
        { spare_nodup := hnodup.2
          in_use_nodup := List.nodup_cons.mpr ⟨hfree, h.in_use_nodup⟩
          known := by
            intro t
            have hknown := h.known t
            rw [hspare, List.mem_cons] at hknown
            rw [hknown, List.mem_cons]
            tauto
          disjoint := by
            intro t ht
            rw [List.mem_cons, not_or]
            refine ⟨?_, h.disjoint t (by rw [hspare]; exact List.mem_cons_of_mem _ ht)⟩
            rintro rfl
            exact hnodup.1 ht
          idle := by
            intro t ht
            exact h.idle t fun hin => ht (List.mem_cons_of_mem _ hin)
          fresh := h.fresh }
      have hknown : top < source.next := (h.known top).mpr (.inl hmem)
      exact ⟨hfree, rfl, by rw [hspare]; rfl, rfl, hknown,
        hbase.modify hknown fun hnot => absurd List.mem_cons_self hnot⟩
  | nil =>
      have hunknown : ¬ source.next < source.next := Nat.lt_irrefl _
      rw [h.known, not_or] at hunknown
      have hfresh := h.fresh source.next (Nat.le_refl _)
      -- there is nothing yet where the new transport will be
      have hupdate : Function.update source.transports source.next {} = source.transports :=
        Function.update_eq_self_iff.mpr hfresh.symm
      simp only [newTransport, emplace, if_neg hunknown.2, hupdate]
      have hbase : Pooled ({ source with
          in_use_connections_ := source.next :: source.in_use_connections_
          next := source.next + 1 } : ClientTransportSource η) :=
        { spare_nodup := h.spare_nodup
          in_use_nodup := List.nodup_cons.mpr ⟨hunknown.2, h.in_use_nodup⟩
          known := by
            intro t
            have hknown := h.known t
            rw [List.mem_cons]
            show t < source.next + 1 ↔ _
            rw [Nat.lt_succ_iff, Nat.le_iff_lt_or_eq, hknown]
            tauto
          disjoint := by
            intro t ht
            rw [List.mem_cons, not_or]
            refine ⟨?_, h.disjoint t ht⟩
            rintro rfl
            exact hunknown.1 ht
          idle := by
            intro t ht
            exact h.idle t fun hin => ht (List.mem_cons_of_mem _ hin)
          fresh := by
            intro t ht
            exact h.fresh t (Nat.le_of_succ_le ht) }
      exact ⟨hunknown.2, rfl, by rw [hspare]; rfl, rfl, Nat.lt_succ_self _,
        hbase.modify (Nat.lt_succ_self _) fun hnot => absurd List.mem_cons_self hnot⟩

theorem putTransport_in_use {source : ClientTransportSource η} {t : Nat}
    (h : t ∈ source.in_use_connections_) :
    putTransport t source = .ok () { source.resetHandler t with
      spare_connections_ := t :: source.spare_connections_
      in_use_connections_ := source.in_use_connections_.erase t } := if_pos h

/-- A transport in use is put back, without its handler. -/
theorem putTransport_puts {source : ClientTransportSource η} (h : Pooled source) {t : Nat}
    (ht : t ∈ source.in_use_connections_) :
    ∃ source', putTransport t source = .ok () source' ∧ Pooled source' ∧
      source'.next = source.next ∧
      source'.spare_connections_ = t :: source.spare_connections_ ∧
      source'.transports = Function.update source.transports t
        { source.transports t with handler_ := none } := by
  have hknown : t < source.next := (h.known t).mpr (.inr ht)
  have hreset : Pooled (source.resetHandler t) := h.modify hknown fun _ => rfl
  refine ⟨_, putTransport_in_use ht, ?_, rfl, rfl, rfl⟩
  have hspare : t ∉ source.spare_connections_ := fun hmem => h.disjoint t hmem ht
  have herase : ∀ u, u ∈ source.in_use_connections_.erase t ↔
      u ≠ t ∧ u ∈ source.in_use_connections_ := fun u => h.in_use_nodup.mem_erase_iff
  exact
    { spare_nodup := List.nodup_cons.mpr ⟨hspare, h.spare_nodup⟩
      in_use_nodup := h.in_use_nodup.erase t
      known := by
        intro u
        show u < source.next ↔ u ∈ t :: source.spare_connections_ ∨
          u ∈ source.in_use_connections_.erase t
        rw [h.known, herase, List.mem_cons]
        by_cases hsame : u = t
        · subst hsame
          simp [ht]
        · simp [hsame]
      disjoint := by
        intro u hu
        show u ∉ source.in_use_connections_.erase t
        rw [herase]
        rintro ⟨hne, hin'⟩
        rcases List.mem_cons.mp hu with rfl | hu
        · exact hne rfl
        · exact h.disjoint u hu hin'
      idle := by
        intro u hu
        have hu' : u ∉ source.in_use_connections_.erase t := hu
        rw [herase, not_and_or, not_ne_iff] at hu'
        rcases hu' with rfl | hu'
        · show (Function.update source.transports u _ u).handler_ = none
          rw [Function.update_self]
        · exact hreset.idle u hu'
      fresh := hreset.fresh }

end Shitty.Http1.ClientTransportSource
