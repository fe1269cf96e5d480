import Shitty.Hpack.Logic.Decoder
import Shitty.Hpack.Theorems.Compositional

/-!
# Size updates

`parseHeaders` knows a size update by its bit 0x20, and `dynamic_table_resize` looks for
bit 0x02, which is one of the new size: half of the sizes below 31 are refused. From 31
on the bit is one of the prefix, so that every size is taken. The table has no entries
here, as there is nothing to evict from it then.
-/

namespace Shitty.Hpack

/-- The pattern 001 of a size update, in front of five bits (RFC 7541 section 6.3). -/
def updatePattern : Mem := fun _ => 0x20#8

/-- The octets of a size update for `n`, as RFC 7541 section 6.3 has them. -/
def sizeUpdate (n : Nat) : Bytes :=
  let (len, buf) := encode_number n 5 updatePattern 10
  buf.read 0 len.toNat

theorem sizeUpdate_eq {n : Nat} (h : n ≤ 4096) : sizeUpdate n = numberOctets 5 0x20#8 n := by
  have hlength : (numberOctets 5 0x20#8 n).length ≤ 10 := by
    have hmono := numberLength_mono 5 h
    have hlast : numberLength 5 4096 = 3 := by norm_num [numberLength]
    rw [length_numberOctets_eq]
    omega
  unfold sizeUpdate
  rw [encode_number_eq (by omega) n updatePattern 10 hlength]
  simp only [Int.toNat_natCast]
  exact Mem.read_write _ _ _

/-- The low bits of the first octet are those of the size, or all set in front of a
longer one. -/
theorem sizeUpdate_first (n : Nat) :
    prefixOctet 5 0x20#8 (min n (2 ^ 5 - 1)) &&& 0x02#8 = 0x02#8 ↔ 31 ≤ n ∨ 2 ≤ n % 4 := by
  have hlow : ∀ m : Fin 32,
      prefixOctet 5 0x20#8 m.val &&& 0x02#8 = 0x02#8 ↔ 2 ≤ m.val % 4 := by decide
  have h := hlow ⟨min n 31, by omega⟩
  rw [show 2 ^ 5 - 1 = 31 by rfl, h]
  simp only
  omega

/-- `table_.resize(n)` is what an update does when it passes the test. -/
theorem parseHeaders_sizeUpdate {n : Nat} (hn : n ≤ 4096) {table_ resized : DynamicTable}
    (hresize : table_.resize n = .ok resized) (rest : Bytes) :
    parseHeaders table_ (sizeUpdate n ++ rest) =
      if 31 ≤ n ∨ 2 ≤ n % 4 then parseHeaders resized rest
      else (.error (.logic_error "Not a dynamic table size update message"), table_) := by
  have hpow := Nat.two_pow_pos 5
  obtain ⟨octet, tail, hcons, hmask⟩ := numberOctets_first (p := 5) (by omega) 0x20#8 n
  have h80 := hmask 0x80#8 (by decide)
  have h40 := hmask 0x40#8 (by decide)
  have h20 := hmask 0x20#8 (by decide)
  have hmarked : octet &&& 0x02#8 = 0x02#8 ↔ 31 ≤ n ∨ 2 ≤ n % 4 := by
    rw [← sizeUpdate_first]
    rw [numberOctets_cons] at hcons
    rw [List.cons.inj hcons |>.1]
  have hfield : parse_field table_ octet (octet :: (tail ++ rest)) =
      dynamic_table_resize table_ (octet :: (tail ++ rest)) >>= fun r =>
        pure (none, r.1, r.2) := by
    rw [parse_field, if_neg (by simp [h80]), if_neg (by simp [h40]), if_pos (by simp [h20])]
  have hread := read_number_numberOctets (p := 5) 0x20#8 (by omega)
    (show n < UINTMAX_MOD by rw [UINTMAX_MOD]; omega) rest
    "Error decoding buffer resize message"
  rw [hcons, List.cons_append] at hread
  rw [sizeUpdate_eq hn, hcons, List.cons_append]
  by_cases hbit : octet &&& 0x02#8 = 0x02#8
  · rw [if_pos (hmarked.mp hbit)]
    rw [dynamic_table_resize, if_neg (not_not.mpr hbit), hread, ok_bind] at hfield
    simp only [Nat.mod_eq_of_lt (show n < UINT_MOD by rw [UINT_MOD]; omega), hresize,
      ok_bind] at hfield
    rw [parseHeaders_cons hfield]
    rcases parseHeaders resized rest with ⟨_ | headers, table'⟩ <;> rfl
  · rw [if_neg (fun h => hbit (hmarked.mpr h))]
    rw [dynamic_table_resize, if_pos hbit, error_bind] at hfield
    rw [parseHeaders, List.length_cons, parse_loop, hfield]

/-- An update to `n` is taken: the block behind it is decoded as it is from the state
behind `table_.resize(n)`, if it is decoded from there. -/
def TakesUpdate (table_ : DynamicTable) (n : Nat) : Prop :=
  ∀ resized block headers, table_.resize n = .ok resized →
    (parseHeaders resized block).1 = .ok headers →
      parseHeaders table_ (sizeUpdate n ++ block) = parseHeaders resized block

/-- With nothing in the table, an update to a legal size is taken exactly when the size
is not below 31, or its bit 0x02 is set. -/
theorem takesUpdate_iff {table_ : DynamicTable} {n : Nat} (hempty : table_.table_ = [])
    (hn : n ≤ 4096) : TakesUpdate table_ n ↔ 31 ≤ n ∨ 2 ≤ n % 4 := by
  constructor
  · intro htakes
    obtain ⟨resized, hresize⟩ : ∃ resized, table_.resize n = .ok resized := by
      rw [DynamicTable.resize]
      by_cases hle : table_.size_octets_ ≤ n
      · exact ⟨_, if_pos hle⟩
      · exact ⟨_, by rw [if_neg hle, if_pos hempty]⟩
    have hnothing := htakes resized [] [] hresize rfl
    rw [parseHeaders_sizeUpdate hn hresize] at hnothing
    by_contra hrefused
    rw [if_neg hrefused] at hnothing
    cases hnothing
  · intro hmarked resized block headers hresize _
    rw [parseHeaders_sizeUpdate hn hresize, if_pos hmarked]

/-- The default size, and the largest one that fits in the first octet. -/
theorem takesUpdate_default : TakesUpdate {} 4096 ∧ TakesUpdate {} 30 :=
  ⟨(takesUpdate_iff rfl (by simp)).mpr (by simp), (takesUpdate_iff rfl (by simp)).mpr (by simp)⟩

/-- A table emptied by an update to 0. -/
theorem sizeUpdate_refused :
    ¬ ∀ (table_ : DynamicTable) (n : Nat), table_.table_ = [] → n ≤ 4096 →
      TakesUpdate table_ n := by
  intro h
  have hnothing := h {} 0 rfl (by simp) {} [] [] rfl rfl
  rw [parseHeaders_sizeUpdate (by simp) rfl] at hnothing
  cases hnothing

end Shitty.Hpack
