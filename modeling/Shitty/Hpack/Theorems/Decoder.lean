import Shitty.Hpack.Logic.Decoder

/-!
# Decoding inverts serialisation

From any state reached by earlier blocks, `parseHeaders` returns what the fields of a
block denote and leaves the table of RFC 7541 section 4 behind. The fields are any of
the five representations, with any of the two codings for their strings and any index
that names an entry. The induction is on the fields, with the tables kept the same.
-/

namespace Shitty.Hpack

/-- A run of the loop over the fields of a block. -/
theorem parse_loop_denotes :
    ∀ {fields : List Rfc.Field} {turns : Nat} {d : DynamicTable} {t t' : Rfc.DynTable}
      {triples : List Rfc.Triple} (headers : List Header), Mirrors d t →
      Rfc.denotes t fields = some (triples, t') →
      (Rfc.blockOctets fields).length < 2 ^ 24 →
      (Rfc.blockOctets fields).length ≤ turns →
      ∃ hs d', parse_loop turns d (Rfc.blockOctets fields) headers = (.ok (headers ++ hs), d') ∧
        hs.map Header.triple = triples ∧ Mirrors d' t' := by
  intro fields
  induction fields with
  | nil =>
      intro turns d t t' triples headers hm h _ _
      obtain ⟨rfl, rfl⟩ : [] = triples ∧ t = t' := by simpa [Rfc.denotes] using h
      refine ⟨[], d, ?_, rfl, hm⟩
      rw [List.append_nil]
      cases turns <;> rfl
  | cons field fields ih =>
      intro turns d t t' triples headers hm h hlen hturns
      obtain ⟨⟨triple, t₁⟩, hfield, hrest⟩ := Option.bind_eq_some_iff.mp h
      obtain ⟨⟨triples', t₂⟩, hfields, heq⟩ := Option.map_eq_some_iff.mp hrest
      obtain ⟨rfl, rfl⟩ := Prod.mk.inj heq
      have hsplit : Rfc.blockOctets (field :: fields) = field.octets ++ Rfc.blockOctets fields := rfl
      rw [hsplit, List.length_append] at hlen hturns
      obtain ⟨octet, tail, header, d₁, hfirst, hparse, htriple, hm₁⟩ :=
        parse_field_denotes hm hfield (by omega) (Rfc.blockOctets fields)
      have hpos : 0 < field.octets.length := by
        rw [hfirst]
        simp
      cases turns with
      | zero => omega
      | succ turns =>
          obtain ⟨hs, d₂, hloop, htriples, hm₂⟩ :=
            ih (headers ++ [header]) hm₁ hfields (by omega) (show _ ≤ turns by omega)
          refine ⟨header :: hs, d₂, ?_, by rw [List.map_cons, htriple, htriples], hm₂⟩
          rw [hfirst, List.cons_append] at hparse
          rw [hsplit, hfirst, List.cons_append, parse_loop, hparse]
          simp only [Option.toList]
          rw [hloop, List.append_assoc, List.singleton_append]

/-- A block of the kind described: fields whose indices are valid where they
occur, in fewer than 2^24 octets. -/
structure Block (t : Rfc.DynTable) where
  fields : List Rfc.Field
  triples : List Rfc.Triple
  after : Rfc.DynTable
  valid : Rfc.denotes t fields = some (triples, after)
  short : (Rfc.blockOctets fields).length < 2 ^ 24

/-- The decoder states reached from construction by such blocks, with the
reference table that has seen the same blocks. -/
inductive Reached : DynamicTable → Rfc.DynTable → Prop where
  | init : Reached {} Rfc.DynTable.init
  | block {d : DynamicTable} {t : Rfc.DynTable} (before : Reached d t) (b : Block t) :
      Reached (parseHeaders d (Rfc.blockOctets b.fields)).2 b.after

theorem Mirrors.parseHeaders {d : DynamicTable} {t : Rfc.DynTable} (hm : Mirrors d t)
    (b : Block t) :
    ∃ hs, (Hpack.parseHeaders d (Rfc.blockOctets b.fields)).1 = .ok hs ∧
      hs.map Header.triple = b.triples ∧
      Mirrors (Hpack.parseHeaders d (Rfc.blockOctets b.fields)).2 b.after := by
  obtain ⟨hs, d', hloop, htriples, hm'⟩ :=
    parse_loop_denotes [] hm b.valid b.short (Nat.le_refl _)
  rw [Hpack.parseHeaders, hloop]
  exact ⟨hs, rfl, htriples, hm'⟩

theorem Reached.mirrors {d : DynamicTable} {t : Rfc.DynTable} (h : Reached d t) :
    Mirrors d t := by
  induction h with
  | init => exact mirrors_init
  | block before b ih => exact (ih.parseHeaders b).choose_spec.2.2

/-- Decoding inverts serialisation: from every state reached by earlier blocks,
a block's octets give exactly the triples its fields denote, in order, and leave
the entries of the reference table in the dynamic table, newest first. -/
theorem parseHeaders_inverts_serialisation {d : DynamicTable} {t : Rfc.DynTable}
    (h : Reached d t) (b : Block t) :
    ∃ headers, (parseHeaders d (Rfc.blockOctets b.fields)).1 = .ok headers ∧
      headers.map Header.triple = b.triples ∧
      (parseHeaders d (Rfc.blockOctets b.fields)).2.table_.map Header.entry = b.after.entries ∧
      (parseHeaders d (Rfc.blockOctets b.fields)).2.size_octets_ = b.after.limit := by
  obtain ⟨hs, hok, htriples, hm⟩ := h.mirrors.parseHeaders b
  exact ⟨hs, hok, htriples, hm.entries, by rw [hm.size_octets, hm.limit]⟩

/-- RFC 7541 appendix C.2.1: `custom-key: custom-header` after construction. -/
theorem parseHeaders_inverts_custom_key :
    ∃ headers, (parseHeaders {} (Rfc.blockOctets [.literal .incremental
        (.literal ⟨octets "custom-key", _, .raw⟩) ⟨octets "custom-header", _, .raw⟩])).1 =
          .ok headers ∧
      headers.map Header.triple = [(octets "custom-key", octets "custom-header", false)] := by
  have hb := parseHeaders_inverts_serialisation Reached.init
    { fields := [.literal .incremental
        (.literal ⟨octets "custom-key", _, .raw⟩) ⟨octets "custom-header", _, .raw⟩]
      triples := [(octets "custom-key", octets "custom-header", false)]
      after := Rfc.DynTable.init.insert (octets "custom-key", octets "custom-header")
      valid := rfl
      short := by decide }
  obtain ⟨headers, hok, htriples, -, -⟩ := hb
  exact ⟨headers, hok, htriples⟩

end Shitty.Hpack
