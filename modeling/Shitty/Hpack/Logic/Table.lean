import Shitty.Hpack.Table
import Shitty.Lib.Eviction

/-!
# What the dynamic table does

As long as the real sums stay below 2^32, `insert` keeps exactly the newest entries that
fit beside the new one under `size_octets_`; `resize` raises `size_octets_`, and
otherwise changes nothing or fails. That is what `insert` and `resize` of the library do
to a table under a limit. Where the sums overflow, the code is left to compute what it
does, and nothing is said here.
-/

namespace Shitty.Hpack

open Lib.Eviction

/-- The size of an entry as a number (RFC 7541 section 4.1). -/
def entrySize (h : Header) : Nat := 32 + h.name.length + h.value.length

theorem Header.hpack_size_eq (h : Header) : h.hpack_size = entrySize h % UINT_MOD := rfl

theorem hpack_size_eq (table_ : List Header) :
    hpack_size table_ = total entrySize table_ % UINT_MOD := by
  have hfold : ∀ (l : List Header) (s : Nat),
      l.foldl (fun s header => (s + header.hpack_size) % UINT_MOD) (s % UINT_MOD) =
        (s + total entrySize l) % UINT_MOD := by
    intro l
    induction l with
    | nil =>
        intro s
        rfl
    | cons h l ih =>
        intro s
        rw [List.foldl_cons, Header.hpack_size_eq, ← Nat.add_mod, ih, total_cons, Nat.add_assoc]
  have := hfold table_ 0
  rwa [Nat.zero_add] at this

/-- Popping entries until the rest is not too large. -/
theorem pop_back_while_eq {too_large : List Header → Bool} {limit : Nat} :
    ∀ {n : Nat} {l : List Header}, n = l.length →
      (∀ p, p <+: l → (too_large p = true ↔ limit < total entrySize p)) →
      pop_back_while too_large n l = keep entrySize limit l := by
  intro n
  induction n with
  | zero =>
      intro l hn _
      rw [List.length_eq_zero_iff.mp hn.symm]
      rfl
  | succ n ih =>
      intro l hn h
      rw [pop_back_while]
      split
      · rename_i htoo
        rw [← keep_dropLast entrySize ((h l List.prefix_rfl).mp htoo)]
        exact ih (by simp [← hn]) fun p hp => h p (hp.trans (List.dropLast_prefix l))
      · rename_i hfits
        have hle : ¬ limit < total entrySize l := fun hlt =>
          hfits ((h l List.prefix_rfl).mpr hlt)
        exact (keep_of_total_le entrySize (by omega)).symm

/-- What `insert` leaves in the table. -/
theorem DynamicTable.insert_table (t : DynamicTable) (h : Header)
    (hsum : entrySize h + total entrySize t.table_ < UINT_MOD) :
    (t.insert h).table_ =
      if entrySize h ≤ t.size_octets_ then
        h :: keep entrySize (t.size_octets_ - entrySize h) t.table_
      else [] := by
  have hh : h.hpack_size = entrySize h := by
    rw [Header.hpack_size_eq, Nat.mod_eq_of_lt (by omega)]
  unfold DynamicTable.insert
  simp only [hh]
  by_cases hle : entrySize h ≤ t.size_octets_
  · rw [if_neg (by omega), if_pos hle]
    simp only [List.cons.injEq, true_and]
    apply pop_back_while_eq rfl
    intro p hp
    have hpt := total_prefix_le entrySize hp
    rw [hpack_size_eq, Nat.mod_add_mod, Nat.mod_eq_of_lt (by omega), decide_eq_true_eq]
    omega
  · rw [if_pos (by omega), if_neg hle]

@[simp] theorem DynamicTable.insert_size_octets (t : DynamicTable) (h : Header) :
    (t.insert h).size_octets_ = t.size_octets_ := by
  unfold DynamicTable.insert
  simp only
  split <;> rfl

theorem DynamicTable.resize_of_le {t : DynamicTable} {n : Nat} (h : t.size_octets_ ≤ n) :
    t.resize n = .ok { t with size_octets_ := n } := by
  rw [DynamicTable.resize, if_pos h]

/-- Below the current limit nothing changes while the entries fit. -/
theorem DynamicTable.resize_fits {t : DynamicTable} {n : Nat} (hlt : n < t.size_octets_)
    (hfits : total entrySize t.table_ ≤ n) : t.resize n = .ok t := by
  rw [DynamicTable.resize, if_neg (by omega)]
  split
  · rfl
  · rename_i hne
    have hmod : hpack_size t.table_ ≤ n := by
      rw [hpack_size_eq]
      exact Nat.le_trans (Nat.mod_le _ _) hfits
    have hloop : resize_loop n t.table_.reverse 0 (hpack_size t.table_) = .ok 0 := by
      cases t.table_.reverse with
      | nil => rw [resize_loop, if_neg (by omega)]
      | cons oldest newer => rw [resize_loop, if_neg (by omega)]
    rw [hloop]
    show Except.ok { t with table_ := t.table_.take (t.table_.length - 0) } = .ok t
    rw [Nat.sub_zero, List.take_length]

/-- Evicting by `resize` fails: no entry is larger than all of them. -/
theorem DynamicTable.resize_evicts {t : DynamicTable} {n : Nat} (hlt : n < t.size_octets_)
    (hsum : total entrySize t.table_ < UINT_MOD) (hevict : n < total entrySize t.table_) :
    t.resize n = .error (.assertion "this_entry_sz > hsize") := by
  have hmod : hpack_size t.table_ = total entrySize t.table_ := by
    rw [hpack_size_eq, Nat.mod_eq_of_lt hsum]
  have hrev : total entrySize t.table_.reverse = total entrySize t.table_ := by
    rw [total, List.map_reverse, List.sum_reverse, total]
  rw [DynamicTable.resize, if_neg (by omega)]
  split
  · rename_i hnil
    rw [hnil] at hevict
    simp at hevict
  · have hloop : resize_loop n t.table_.reverse 0 (hpack_size t.table_) =
        .error (.assertion "this_entry_sz > hsize") := by
      cases hr : t.table_.reverse with
      | nil =>
          rw [hr, total_nil] at hrev
          omega
      | cons oldest newer =>
          rw [hr, total_cons] at hrev
          have hsize : oldest.hpack_size ≤ hpack_size t.table_ := by
            rw [Header.hpack_size_eq, Nat.mod_eq_of_lt (by omega)]
            omega
          rw [resize_loop, if_pos (by omega)]
          exact if_neg (by omega)
    rw [hloop]
    rfl

end Shitty.Hpack
