import Shitty.Hpack.Logic.Locality

/-!
# Decoding is compositional

A block in two parts is decoded as the second part is from the table the first one
leaves. The induction is on the turns that the first part takes, each of which leaves
the octets behind it alone.
-/

namespace Shitty.Hpack

/-- A block that is decoded begins with a field that is, and so is the rest. -/
theorem parseHeaders_ok_cons {table_ table₁ : DynamicTable} {octet : Octet} {buf : Bytes}
    {headers : List Header} (h : parseHeaders table_ (octet :: buf) = (.ok headers, table₁)) :
    ∃ own rest header table' hs, buf = own ++ rest ∧
      (∀ more, parse_field table_ octet (octet :: own ++ more) = .ok (header, more, table')) ∧
      parseHeaders table' rest = (.ok hs, table₁) ∧ headers = header.toList ++ hs := by
  cases hfield : parse_field table_ octet (octet :: buf) with
  | error e =>
      rw [parseHeaders, List.length_cons, parse_loop, hfield] at h
      cases h
  | ok r =>
      obtain ⟨header, rest, table'⟩ := r
      obtain ⟨own, rfl, hmore⟩ := parse_field_local hfield
      rw [parseHeaders_cons hfield] at h
      obtain ⟨hheaders, htable⟩ := Prod.mk.inj h
      rcases hrest : parseHeaders table' rest with ⟨outcome, table₂⟩
      rw [hrest] at hheaders htable
      cases outcome with
      | error e => cases hheaders
      | ok hs =>
          cases hheaders
          cases htable
          exact ⟨own, rest, header, table', hs, rfl, hmore, hrest, rfl⟩

/-- What follows a decoded part is decoded from the table it leaves. -/
theorem parseHeaders_append :
    ∀ {n : Nat} {a : Bytes} {table_ table₁ : DynamicTable} {ha : List Header}, a.length ≤ n →
      parseHeaders table_ a = (.ok ha, table₁) → ∀ b,
      parseHeaders table_ (a ++ b) =
        ((parseHeaders table₁ b).1.map (ha ++ ·), (parseHeaders table₁ b).2) := by
  intro n
  induction n with
  | zero =>
      intro a table_ table₁ ha hn h b
      rw [List.length_eq_zero_iff.mp (Nat.le_zero.mp hn)] at h ⊢
      cases h
      rw [List.nil_append]
      cases hb : parseHeaders table_ b with
      | mk outcome table₂ => cases outcome <;> rfl
  | succ n ih =>
      intro a table_ table₁ ha hn h b
      cases a with
      | nil =>
          cases h
          rw [List.nil_append]
          cases hb : parseHeaders table_ b with
          | mk outcome table₂ => cases outcome <;> rfl
      | cons octet buf =>
          obtain ⟨own, rest, header, table', hs, rfl, hmore, hrest, rfl⟩ := parseHeaders_ok_cons h
          have hlen : rest.length ≤ n := by
            simp only [List.length_cons, List.length_append] at hn
            omega
          have hfield := hmore (rest ++ b)
          rw [List.cons_append] at hfield
          rw [List.cons_append, List.append_assoc, parseHeaders_cons hfield, ih hlen hrest b]
          cases (parseHeaders table₁ b).1 <;> simp [Except.map]

/-- Decoding is compositional: from any state, once a part is decoded, the whole
is decoded exactly when the rest is from the table behind the part, to the
headers of both and the same table. Each representation depends only on its own
octets and the table. -/
theorem parseHeaders_compositional {table_ table₁ : DynamicTable} {a : Bytes} {ha : List Header}
    (h : parseHeaders table_ a = (.ok ha, table₁)) (b : Bytes) :
    ((∃ headers, (parseHeaders table_ (a ++ b)).1 = .ok headers) ↔
      ∃ hb, (parseHeaders table₁ b).1 = .ok hb) ∧
    (∀ hb, (parseHeaders table₁ b).1 = .ok hb →
      (parseHeaders table_ (a ++ b)).1 = .ok (ha ++ hb) ∧
      (parseHeaders table_ (a ++ b)).2 = (parseHeaders table₁ b).2) ∧
    ∀ octet buf header rest table', parse_field table_ octet (octet :: buf) =
        .ok (header, rest, table') →
      ∃ own, buf = own ++ rest ∧
        ∀ more, parse_field table_ octet (octet :: own ++ more) = .ok (header, more, table') := by
  rw [parseHeaders_append (Nat.le_refl _) h b]
  refine ⟨?_, ?_, fun octet buf header rest table' => parse_field_local⟩
  · cases (parseHeaders table₁ b).1 with
    | error e => simp [Except.map]
    | ok hb => simp [Except.map]
  · intro hb hok
    rw [hok]
    exact ⟨rfl, rfl⟩

/-- `:method: GET` and, behind it, `:path: /`. -/
theorem parseHeaders_compositional_get :
    (parseHeaders {} ([0x82#8] ++ [0x84#8])).1 =
      .ok ([{ name := octets ":method", value := octets "GET" }] ++
        [{ name := octets ":path", value := octets "/" }]) :=
  have hfirst : parseHeaders {} [0x82#8] =
      (.ok [{ name := octets ":method", value := octets "GET" }], {}) := rfl
  ((parseHeaders_compositional hfirst [0x84#8]).2.1 _ rfl).1

end Shitty.Hpack
