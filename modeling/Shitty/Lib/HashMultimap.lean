import Mathlib.Data.List.Basic

/-!
# Hash tables with equal keys

Buckets of entries, where an entry goes into its bucket at a place that is left open, and
the table may be made anew with any number of buckets. As long as equal keys hash alike, no
operation can tell it from a bag of entries.
-/

namespace Lib.HashMultimap

variable {κ β : Type*}

/-- A hash function, and which keys are taken for the same. -/
structure Hashing (κ : Type*) where
  hash : κ → Nat
  equal : κ → κ → Bool

/-- Keys that compare equal have the same hash, as the standard library asks for. -/
structure Hashing.Lawful (h : Hashing κ) : Prop where
  hash_eq : ∀ {k k'}, h.equal k k' = true → h.hash k = h.hash k'

/-- Every entry is in the bucket of its key. -/
structure Table (h : Hashing κ) (β : Type*) where
  buckets : List (List (κ × β))
  nonempty : 0 < buckets.length
  placed : ∀ i bucket, buckets[i]? = some bucket →
    ∀ entry ∈ bucket, h.hash entry.1 % buckets.length = i

/-- Where among the entries of a bucket a new one is put. -/
abbrev Place (κ β : Type*) := List (κ × β) → κ → Nat

namespace Table

variable {h : Hashing κ}

def empty (h : Hashing κ) (β : Type*) (more : Nat) : Table h β where
  buckets := List.replicate (more + 1) []
  nonempty := by simp
  placed i bucket hbucket entry hentry := by
    rw [List.eq_of_mem_replicate (List.mem_of_getElem? hbucket)] at hentry
    cases hentry

/-- All entries, in the order of an iteration. -/
def elements (t : Table h β) : List (κ × β) := t.buckets.flatten

def slot (t : Table h β) (k : κ) : Nat := h.hash k % t.buckets.length

theorem slot_lt (t : Table h β) (k : κ) : t.slot k < t.buckets.length := Nat.mod_lt _ t.nonempty

def bucket (t : Table h β) (k : κ) : List (κ × β) := t.buckets.get ⟨t.slot k, t.slot_lt k⟩

/-- A change of the one bucket that a key is in, which puts nothing there but entries of its
hash. -/
def modify (t : Table h β) (k : κ) (f : List (κ × β) → List (κ × β))
    (hf : ∀ entry ∈ f (t.bucket k), entry ∈ t.bucket k ∨ h.hash entry.1 = h.hash k) :
    Table h β where
  buckets := t.buckets.modify (t.slot k) f
  nonempty := by
    rw [List.length_modify]
    exact t.nonempty
  placed i bucket hbucket entry hentry := by
    rw [List.length_modify]
    rw [List.getElem?_modify] at hbucket
    obtain ⟨old, hold, rfl⟩ := Option.map_eq_some_iff.mp hbucket
    by_cases hi : t.slot k = i
    · subst hi
      rw [if_pos rfl] at hentry
      have hsame : old = t.bucket k := by
        rw [List.getElem?_eq_getElem (t.slot_lt k)] at hold
        exact (Option.some.inj hold).symm
      subst hsame
      rcases hf entry hentry with hentry | hhash
      · exact t.placed _ _ hold entry hentry
      · rw [hhash]
        rfl
    · rw [if_neg hi] at hentry
      exact t.placed i old hold entry hentry

/-- One bucket, and those around it. -/
theorem elements_split (t : Table h β) (k : κ) : ∃ front back,
    t.elements = front ++ (t.bucket k ++ back) ∧
      (∀ f hf, (t.modify k f hf).elements = front ++ (f (t.bucket k) ++ back)) ∧
      ∀ entry ∈ front ++ back, h.hash entry.1 % t.buckets.length ≠ t.slot k := by
  have hlt := t.slot_lt k
  have hsplit : t.buckets =
      t.buckets.take (t.slot k) ++ t.bucket k :: t.buckets.drop (t.slot k + 1) := by
    rw [bucket, List.get_eq_getElem, ← List.drop_eq_getElem_cons, List.take_append_drop]
  refine ⟨(t.buckets.take (t.slot k)).flatten, (t.buckets.drop (t.slot k + 1)).flatten, ?_, ?_, ?_⟩
  · rw [elements]
    nth_rewrite 1 [hsplit]
    rw [List.flatten_append, List.flatten_cons]
  · intro f hf
    show (t.buckets.modify (t.slot k) f).flatten = _
    rw [List.modify_eq_take_cons_drop hlt, List.flatten_append, List.flatten_cons, bucket,
      List.get_eq_getElem]
  · intro entry hentry
    rw [← List.flatten_append, List.mem_flatten] at hentry
    obtain ⟨other, hother, hentry⟩ := hentry
    rcases List.mem_append.mp hother with hother | hother
    · obtain ⟨i, hi, hget⟩ := List.mem_take_iff_getElem.mp hother
      rw [t.placed i other (List.getElem?_eq_some_iff.mpr ⟨by omega, hget⟩) entry hentry]
      omega
    · obtain ⟨i, hi, hget⟩ := List.mem_drop_iff_getElem.mp hother
      rw [t.placed _ other (List.getElem?_eq_some_iff.mpr ⟨by omega, hget⟩) entry hentry]
      omega

/-! ## Operations -/

def emplace (place : Place κ β) (t : Table h β) (k : κ) (v : β) : Table h β :=
  t.modify k (fun bucket =>
      bucket.take (place bucket k) ++ (k, v) :: bucket.drop (place bucket k)) fun entry hentry => by
    rcases List.mem_append.mp hentry with hentry | hentry
    · exact .inl (List.mem_of_mem_take hentry)
    rcases List.mem_cons.mp hentry with rfl | hentry
    · exact .inr rfl
    · exact .inl (List.mem_of_mem_drop hentry)

/-- `erase` of a key, which takes away all entries whose keys equal it. -/
def erase (t : Table h β) (k : κ) : Table h β :=
  t.modify k (fun bucket => bucket.filter fun entry => !h.equal entry.1 k)
    fun _ hentry => .inl (List.mem_of_mem_filter hentry)

def find? (t : Table h β) (k : κ) : Option (κ × β) :=
  (t.bucket k).find? fun entry => h.equal entry.1 k

def emplaceAll (place : Place κ β) (t : Table h β) (entries : List (κ × β)) : Table h β :=
  entries.foldl (fun t entry => t.emplace place entry.1 entry.2) t

def rehash (place : Place κ β) (t : Table h β) (more : Nat) : Table h β :=
  (empty h β more).emplaceAll place t.elements

/-! ## What they do to the entries -/

@[simp] theorem elements_empty (more : Nat) : (empty h β more).elements = [] := by
  simp [elements, empty]

open scoped List in
theorem elements_emplace (place : Place κ β) (t : Table h β) (k : κ) (v : β) :
    (t.emplace place k v).elements.Perm (t.elements ++ [(k, v)]) := by
  obtain ⟨front, back, helements, hmodify, -⟩ := t.elements_split k
  rw [emplace, hmodify, helements]
  calc front ++ (((t.bucket k).take _ ++ (k, v) :: (t.bucket k).drop _) ++ back)
      _ ~ front ++ ((k, v) :: ((t.bucket k).take _ ++ (t.bucket k).drop _) ++ back) :=
        (List.perm_middle.append_right back).append_left front
      _ = front ++ (k, v) :: (t.bucket k ++ back) := by rw [List.take_append_drop, List.cons_append]
      _ ~ (k, v) :: (front ++ (t.bucket k ++ back)) := List.perm_middle
      _ ~ front ++ (t.bucket k ++ back) ++ [(k, v)] := (List.perm_append_singleton _ _).symm

theorem elements_emplaceAll (place : Place κ β) (entries : List (κ × β)) : ∀ t : Table h β,
    (t.emplaceAll place entries).elements.Perm (t.elements ++ entries) := by
  induction entries with
  | nil =>
      intro t
      rw [List.append_nil]
      exact List.Perm.refl _
  | cons entry entries ih =>
      intro t
      have hfirst := (t.elements_emplace place entry.1 entry.2).append_right entries
      rw [List.append_assoc] at hfirst
      exact (ih _).trans hfirst

/-- A table that is made anew has the same entries. -/
theorem elements_rehash (place : Place κ β) (t : Table h β) (more : Nat) :
    (t.rehash place more).elements.Perm t.elements := by
  have hall := elements_emplaceAll place t.elements (empty h β more)
  rwa [elements_empty, List.nil_append] at hall

section

variable (lawful : h.Lawful)

include lawful

/-- Keys in other buckets are other keys. -/
theorem unequal {t : Table h β} {k : κ} {entries : List (κ × β)}
    (hslot : ∀ entry ∈ entries, h.hash entry.1 % t.buckets.length ≠ t.slot k) :
    ∀ entry ∈ entries, h.equal entry.1 k = false := by
  intro entry hentry
  by_contra hequal
  refine hslot entry hentry ?_
  rw [lawful.hash_eq (Bool.of_not_eq_false hequal)]
  rfl

/-- All entries with an equal key are erased, and no others. -/
theorem elements_erase (t : Table h β) (k : κ) :
    (t.erase k).elements = t.elements.filter fun entry => !h.equal entry.1 k := by
  obtain ⟨front, back, helements, hmodify, hothers⟩ := t.elements_split k
  have hunequal := unequal lawful hothers
  have hkept : ∀ entries : List (κ × β), (∀ entry ∈ entries, entry ∈ front ++ back) →
      (entries.filter fun entry => !h.equal entry.1 k) = entries := by
    intro entries hsub
    rw [List.filter_eq_self]
    intro entry hentry
    rw [hunequal entry (hsub entry hentry), Bool.not_false]
  rw [erase, hmodify, helements, List.filter_append, List.filter_append,
    hkept front fun _ hentry => List.mem_append_left _ hentry,
    hkept back fun _ hentry => List.mem_append_right _ hentry]

/-- What is found is an entry with an equal key, and there is none when nothing is found. -/
theorem find?_spec (t : Table h β) (k : κ) :
    (∀ entry, t.find? k = some entry → entry ∈ t.elements ∧ h.equal entry.1 k = true) ∧
      (t.find? k = none → ∀ entry ∈ t.elements, h.equal entry.1 k = false) := by
  obtain ⟨front, back, helements, -, hothers⟩ := t.elements_split k
  have hunequal := unequal lawful hothers
  rw [helements]
  constructor
  · intro entry hfind
    have hfound : (t.bucket k).find? (fun entry => h.equal entry.1 k) = some entry := hfind
    have hmem := List.mem_of_find?_eq_some hfound
    have hequal := List.find?_some hfound
    exact ⟨by simp [hmem], hequal⟩
  · intro hnone entry hentry
    by_cases hmem : entry ∈ t.bucket k
    · simpa using List.find?_eq_none.mp hnone entry hmem
    · refine hunequal entry ?_
      simp only [List.mem_append] at hentry ⊢
      tauto

end

end Table

end Lib.HashMultimap
