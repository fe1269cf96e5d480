import Shitty.Hpack.Logic.Table
import Shitty.Lib.Run

/-!
# The dynamic table and the table of RFC 7541

The same history of insertions and size changes, run by the code and by the reference
table: when they hold the same entries all along. An insertion is right when no number
of the newest entries fits under what the code takes for its limit and not under the
limit set last, a size change when it evicts nothing. A history agrees all along exactly
when each of its steps is right.
-/

namespace Shitty.Hpack

open Lib Lib.Eviction

/-! ## Histories -/

inductive TableOp where
  | insert (header : Header)
  | resize (new_hpack_size : BitVec 32)
  deriving DecidableEq, Repr

def DynamicTable.apply (t : DynamicTable) : TableOp → Except Exn DynamicTable
  | .insert header => .ok (t.insert header)
  | .resize n => t.resize n.toNat

/-- A history from construction, run by the code. -/
def runTable (ops : List TableOp) : Except Exn DynamicTable := Run.run DynamicTable.apply {} ops

/-- The table of RFC 7541 section 4. -/
abbrev RfcTable := Table entrySize

def RfcTable.apply (t : RfcTable) : TableOp → RfcTable
  | .insert header => t.insert header
  | .resize n => t.resize n.toNat

/-- The same history of insertions and size changes, run by the reference table. -/
def runRfc (ops : List TableOp) : RfcTable :=
  ops.foldl RfcTable.apply { limit := 4096, entries := [], fits := by simp }

/-- After this history the code holds the reference table's entries, which are
no larger than the maximum set last. -/
def Agrees (ops : List TableOp) : Prop :=
  ∃ t, runTable ops = .ok t ∧ t.table_ = (runRfc ops).entries ∧
    total entrySize t.table_ ≤ (runRfc ops).limit

/-- The real sums stay below 2^32. -/
def SumsFit (ops : List TableOp) : Prop :=
  ∀ p header, p ++ [.insert header] <+: ops →
    entrySize header + total entrySize (runRfc p).entries < UINT_MOD

/-- When a step is right, for a table whose maximum was last set to `limit`: an
insertion that no number of the newest entries lets fit under `size_octets_` but
not under `limit`, and a size change that evicts nothing. -/
def StepOk (t : DynamicTable) (limit : Nat) : TableOp → Prop
  | .insert header =>
      ∀ m, m <+: t.table_ → entrySize header + total entrySize m ≤ t.size_octets_ →
        entrySize header + total entrySize m ≤ limit
  | .resize n => total entrySize t.table_ ≤ n.toNat

/-! ## One step -/

/-- The code's table against the reference table. -/
structure Tracks (t : DynamicTable) (r : RfcTable) : Prop where
  entries : t.table_ = r.entries
  limit : r.limit ≤ t.size_octets_
  range : t.size_octets_ < UINT_MOD

theorem insert_tracks_iff {t : DynamicTable} {r : RfcTable} (h : Tracks t r) {header : Header}
    (hsum : entrySize header + total entrySize r.entries < UINT_MOD) :
    (t.insert header).table_ = (r.insert header).entries ↔
      StepOk t r.limit (.insert header) := by
  have hlimit := h.limit
  rw [DynamicTable.insert_table t header (by rw [h.entries]; exact hsum)]
  simp only [Table.insert, StepOk, h.entries]
  by_cases hsmall : entrySize header ≤ r.limit
  · rw [if_pos (by omega), if_pos hsmall]
    simp only [List.cons.injEq, true_and]
    rw [keep_eq_iff entrySize (by omega)]
    constructor
    · intro hkeep m hm hle
      have := hkeep m hm (by omega)
      omega
    · intro hok m hm hle
      have := hok m hm (by omega)
      omega
  · rw [if_neg hsmall]
    by_cases hlarge : entrySize header ≤ t.size_octets_
    · rw [if_pos hlarge]
      constructor
      · intro heq
        cases heq
      · intro hok
        have := hok [] List.nil_prefix (by simpa using hlarge)
        simp only [total_nil, Nat.add_zero] at this
        exact absurd this hsmall
    · rw [if_neg hlarge]
      simp only [true_iff]
      intro m _ hle
      omega

/-- One step of both: they agree again exactly when the step is right. -/
theorem apply_tracks_iff {t : DynamicTable} {r : RfcTable} (h : Tracks t r) {op : TableOp}
    (hsum : ∀ header, op = .insert header →
      entrySize header + total entrySize r.entries < UINT_MOD) :
    (∃ t', t.apply op = .ok t' ∧ t'.table_ = (r.apply op).entries) ↔ StepOk t r.limit op := by
  cases op with
  | insert header =>
      rw [← insert_tracks_iff h (hsum header rfl)]
      constructor
      · rintro ⟨t', ht', heq⟩
        cases ht'
        exact heq
      · intro heq
        exact ⟨_, rfl, heq⟩
  | resize n =>
      have hfits := r.fits
      have hlimit := h.limit
      have hrange := h.range
      simp only [DynamicTable.apply, RfcTable.apply, Table.resize, StepOk, h.entries]
      by_cases hle : t.size_octets_ ≤ n.toNat
      · have htotal : total entrySize r.entries ≤ n.toNat := by omega
        simp only [htotal, iff_true]
        refine ⟨_, DynamicTable.resize_of_le hle, ?_⟩
        rw [keep_of_total_le entrySize htotal]
        exact h.entries
      · by_cases htotal : total entrySize r.entries ≤ n.toNat
        · simp only [htotal, iff_true]
          refine ⟨t, DynamicTable.resize_fits (by omega) (by rw [h.entries]; exact htotal), ?_⟩
          rw [keep_of_total_le entrySize htotal]
          exact h.entries
        · simp only [htotal, iff_false]
          rintro ⟨t', ht', -⟩
          rw [DynamicTable.resize_evicts (by omega) (by rw [h.entries]; omega)
            (by rw [h.entries]; omega)] at ht'
          cases ht'

/-- `resize` never sets `size_octets_` below what it was or what is asked for. -/
theorem resize_size_octets {t t' : DynamicTable} {n : Nat} (hsum : total entrySize t.table_ < UINT_MOD)
    (h : t.resize n = .ok t') : t'.size_octets_ = max t.size_octets_ n := by
  by_cases hle : t.size_octets_ ≤ n
  · rw [DynamicTable.resize_of_le hle] at h
    cases h
    exact (Nat.max_eq_right hle).symm
  · by_cases hfits : total entrySize t.table_ ≤ n
    · rw [DynamicTable.resize_fits (by omega) hfits] at h
      cases h
      exact (Nat.max_eq_left (by omega)).symm
    · rw [DynamicTable.resize_evicts (by omega) hsum (by omega)] at h
      cases h

/-- A step after which both agree keeps track. -/
theorem tracks_apply {t t' : DynamicTable} {r : RfcTable} (h : Tracks t r) {op : TableOp}
    (hstep : t.apply op = .ok t') (heq : t'.table_ = (r.apply op).entries) :
    Tracks t' (r.apply op) := by
  have hlimit := h.limit
  have hrange := h.range
  cases op with
  | insert header =>
      cases hstep
      refine ⟨heq, ?_, ?_⟩
      · rwa [DynamicTable.insert_size_octets]
      · rwa [DynamicTable.insert_size_octets]
  | resize n =>
      have hfits := r.fits
      have hsize := resize_size_octets (by rw [h.entries]; omega) hstep
      have hn := n.isLt
      refine ⟨heq, ?_, ?_⟩
      · show n.toNat ≤ t'.size_octets_
        omega
      · rw [UINT_MOD] at *
        omega

/-! ## Whole histories -/

theorem runRfc_snoc (p : List TableOp) (op : TableOp) :
    runRfc (p ++ [op]) = (runRfc p).apply op := by
  rw [runRfc, List.foldl_append]
  rfl

/-- Once both have agreed all along, the code's table tracks the reference. -/
theorem tracks_of_agrees (ops : List TableOp) (hall : ∀ p, p <+: ops → Agrees p) :
    ∃ t, runTable ops = .ok t ∧ Tracks t (runRfc ops) := by
  induction ops using List.reverseRecOn with
  | nil => exact ⟨{}, rfl, rfl, Nat.le_refl _, by decide⟩
  | append_singleton p op ih =>
      obtain ⟨t, ht, htracks⟩ := ih fun q hq => hall q (hq.trans (List.prefix_append p [op]))
      obtain ⟨t', ht', heq, -⟩ := hall (p ++ [op]) List.prefix_rfl
      have hstep : t.apply op = .ok t' := by
        rw [runTable, Run.run_snoc, ← runTable, ht] at ht'
        exact ht'
      rw [runRfc_snoc] at heq ⊢
      exact ⟨t', ht', tracks_apply htracks hstep heq⟩

/-- The code's table refines the reference table throughout a history exactly
when every step of it is right. -/
theorem dynamic_table_refines_iff (ops : List TableOp) (hsums : SumsFit ops) :
    (∀ p, p <+: ops → Agrees p) ↔
      ∀ p op, p ++ [op] <+: ops → ∀ t, runTable p = .ok t → StepOk t (runRfc p).limit op := by
  refine Run.always_iff ⟨{}, rfl, rfl, by decide⟩ ?_
  intro p op hp hbefore
  obtain ⟨t, ht, htracks⟩ := tracks_of_agrees p hbefore
  have hstep := apply_tracks_iff htracks fun header hop =>
    hsums p header (by rw [← hop]; exact hp)
  have hrun : runTable (p ++ [op]) = t.apply op := by
    rw [runTable, Run.run_snoc, ← runTable, ht]
    rfl
  rw [Agrees, hrun, runRfc_snoc]
  constructor
  · rintro ⟨t', ht', heq, -⟩ t₁ ht₁
    rw [ht] at ht₁
    cases ht₁
    exact hstep.mp ⟨t', ht', heq⟩
  · intro hok
    obtain ⟨t', ht', heq⟩ := hstep.mpr (hok t ht)
    refine ⟨t', ht', heq, ?_⟩
    rw [heq]
    exact Table.fits _

/-- A table with one field, `a: b`, that is inserted behind its construction. -/
theorem dynamic_table_refines_a_b :
    Agrees [TableOp.insert { name := [0x61#8], value := [0x62#8] }] := by
  have hsums : SumsFit [.insert { name := [0x61#8], value := [0x62#8] }] := by
    rintro p header ⟨rest, hrest⟩
    cases p with
    | nil =>
        cases hrest
        decide
    | cons op p => simp at hrest
  refine (dynamic_table_refines_iff _ hsums).mpr ?_ _ List.prefix_rfl
  rintro p op ⟨rest, hrest⟩ t ht
  cases p with
  | nil =>
      cases hrest
      cases ht
      intro m hm _
      rw [List.prefix_nil.mp hm]
      decide
  | cons op' p => simp at hrest

/-- A lowered maximum is forgotten: the entry inserted after it stays. -/
theorem resize_then_insert :
    ¬ ∀ ops : List TableOp, SumsFit ops → ∀ p, p <+: ops → Agrees p := by
  intro h
  have hsums : SumsFit [.resize 0, .insert { name := [0x61#8], value := [0x62#8] }] := by
    rintro p header ⟨rest, hrest⟩
    match p with
    | [] => cases hrest
    | [op] =>
        cases hrest
        decide
    | op :: op' :: p => simp at hrest
  obtain ⟨t, ht, heq, -⟩ := h _ hsums _ List.prefix_rfl
  cases ht
  exact absurd heq (by decide)

end Shitty.Hpack
