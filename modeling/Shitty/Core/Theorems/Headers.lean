import Mathlib.Data.Multiset.Filter
import Shitty.Core.HeaderTable

/-!
# Headers

After any calls, the table of a header holds the fields that a multimap over names
without letter case holds, and what `get` finds is one of them. The steps are from the
hash table to a multimap, and from that to the list of fields that the other modules
work with; calls are any of the class, in any order, from any construction.
-/

namespace Shitty

open Lib.HashMultimap

/-! ## A multimap over names -/

/-- The fields of each name, in no order. The name is in small letters, and the fields have
it as it was given. -/
abbrev Fields := Bytes → Multiset (Bytes × Bytes)

namespace Fields

def add (fields : Fields) (field : Bytes × Bytes) : Fields :=
  Function.update fields (asciiLower field.1) (field ::ₘ fields (asciiLower field.1))

def clear (fields : Fields) (name : Bytes) : Fields :=
  Function.update fields (asciiLower name) 0

def none : Fields := fun _ => 0

/-- The fields in a list of entries, by their names in lower case. -/
def ofList (entries : List (Bytes × Bytes)) : Fields := fun name =>
  ↑(entries.filter fun field => asciiLower field.1 = name)

end Fields

namespace HeaderCall

/-- What a call is for: what it does to the fields, whatever table they are in. -/
def onFields (fields : Fields) : HeaderCall → Fields
  | add name value => fields.add (name, value)
  | set name value => (fields.clear name).add (name, value)
  | remove name => fields.clear name
  | append _ headers => headers.foldl Fields.add fields
  | setMissing name value =>
      if fields (asciiLower name) = 0 then fields.add (name, value) else fields
  | rehash _ => fields

/-- On the list that stands for a table elsewhere. -/
def onHeaders (find : Find) (headers : Headers) : HeaderCall → Headers
  | add name value => headers.add name value
  | set name value => headers.set name value
  | remove name => headers.remove name
  | append _ more => headers ++ more
  | setMissing name value => Shitty.setMissing find name value headers
  | rehash _ => headers

end HeaderCall

/-! ## Letter case -/

theorem caseInsensitiveEqual_iff {s t : Bytes} :
    CaseInsensitiveEqual s t = true ↔ asciiLower s = asciiLower t := by
  simp [CaseInsensitiveEqual, asciiLower]

/-- Names that are equal but for letter case are in the same bucket. -/
theorem hashing_lawful (std_hash : Bytes → Nat) : (hashing std_hash).Lawful where
  hash_eq h := congrArg std_hash (caseInsensitiveEqual_iff.mp h)

namespace Fields

theorem ofList_perm {entries entries' : List (Bytes × Bytes)} (h : entries.Perm entries') :
    ofList entries = ofList entries' :=
  funext fun _ => Multiset.coe_eq_coe.mpr (h.filter _)

@[simp] theorem ofList_nil : ofList [] = none := rfl

theorem ofList_snoc (entries : List (Bytes × Bytes)) (field : Bytes × Bytes) :
    ofList (entries ++ [field]) = (ofList entries).add field := by
  funext name
  rw [ofList_perm (List.perm_append_singleton field entries)]
  by_cases hname : name = asciiLower field.1
  · subst hname
    simp [ofList, add]
  · rw [add, Function.update_of_ne hname]
    simp [ofList, Ne.symm hname]

theorem ofList_append (more : List (Bytes × Bytes)) : ∀ entries : List (Bytes × Bytes),
    ofList (entries ++ more) = more.foldl add (ofList entries) := by
  induction more with
  | nil =>
      intro entries
      rw [List.append_nil]
      rfl
  | cons field more ih =>
      intro entries
      have hsplit : entries ++ field :: more = (entries ++ [field]) ++ more := by simp
      rw [hsplit, ih, ofList_snoc]
      rfl

theorem ofList_remove (entries : List (Bytes × Bytes)) (name : Bytes) :
    ofList (entries.filter fun field => !CaseInsensitiveEqual field.1 name) =
      (ofList entries).clear name := by
  funext other
  rw [ofList, List.filter_filter]
  by_cases hother : other = asciiLower name
  · subst hother
    rw [clear, Function.update_self]
    simp only [Multiset.coe_eq_zero, List.filter_eq_nil_iff]
    intro field _ hboth
    simp only [Bool.and_eq_true, decide_eq_true_eq, Bool.not_eq_true', Bool.eq_false_iff] at hboth
    exact hboth.2 (caseInsensitiveEqual_iff.mpr hboth.1)
  · rw [clear, Function.update_of_ne hother, ofList]
    congr 1
    refine List.filter_congr fun field _ => ?_
    by_cases hfield : asciiLower field.1 = other
    · have hdiffers : CaseInsensitiveEqual field.1 name = false := by
        rw [Bool.eq_false_iff]
        exact fun hequal => hother (hfield.symm.trans (caseInsensitiveEqual_iff.mp hequal))
      simp [hfield, hdiffers]
    · simp [hfield]

theorem mem_ofList {entries : List (Bytes × Bytes)} {name : Bytes} {field : Bytes × Bytes} :
    field ∈ ofList entries (asciiLower name) ↔
      field ∈ entries ∧ CaseInsensitiveEqual field.1 name = true := by
  rw [caseInsensitiveEqual_iff]
  simp [ofList]

/-- A list has none of a name exactly when none of its entries has that name in lower case. -/
theorem ofList_eq_zero {entries : List (Bytes × Bytes)} {name : Bytes} :
    ofList entries (asciiLower name) = 0 ↔
      ∀ field ∈ entries, CaseInsensitiveEqual field.1 name = false := by
  rw [Multiset.eq_zero_iff_forall_notMem]
  refine ⟨fun h field hfield => ?_, fun h field hmem => ?_⟩
  · rw [Bool.eq_false_iff]
    exact fun hequal => h field (mem_ofList.mpr ⟨hfield, hequal⟩)
  · obtain ⟨hfield, hequal⟩ := mem_ofList.mp hmem
    rw [h field hfield] at hequal
    cases hequal

end Fields

/-! ## One call -/

section

variable {std_hash : Bytes → Nat} (place : Place Bytes Bytes)

/-- What is found, and what is not. -/
theorem HeaderTable.find?_fields (t : HeaderTable std_hash) (name : Bytes) :
    (∀ field, t.find? name = some field → field ∈ Fields.ofList t.elements (asciiLower name)) ∧
      (t.find? name = none → Fields.ofList t.elements (asciiLower name) = 0) := by
  obtain ⟨hsome, hnone⟩ := Table.find?_spec (hashing_lawful std_hash) t name
  exact ⟨fun field hfind => Fields.mem_ofList.mpr (hsome field hfind),
    fun hfind => Fields.ofList_eq_zero.mpr (hnone hfind)⟩

theorem elements_ofPairs (more : Nat) (headers : List (Bytes × Bytes)) :
    (HeaderTable.ofPairs place more headers : HeaderTable std_hash).elements.Perm headers := by
  have hall := Table.elements_emplaceAll place headers (Table.empty (hashing std_hash) Bytes more)
  rwa [Table.elements_empty, List.nil_append] at hall

namespace HeaderCall

/-- A call has the same outcome on a table and on the list of its entries. -/
theorem onTable_elements (find : Find) {t : HeaderTable std_hash} {headers : Headers}
    (h : t.elements.Perm headers) (call : HeaderCall) :
    (call.onTable place t).elements.Perm (call.onHeaders find headers) := by
  have hemplace : ∀ (t : HeaderTable std_hash) {headers : Headers} name value,
      t.elements.Perm headers →
        (t.emplace place name value).elements.Perm (headers ++ [(name, value)]) :=
    fun t headers name value h => (t.elements_emplace place name value).trans (h.append_right _)
  have hremove : ∀ name, (t.erase name).elements.Perm (headers.remove name) := by
    intro name
    rw [Table.elements_erase (hashing_lawful std_hash)]
    exact h.filter _
  cases call with
  | add name value => exact hemplace t name value h
  | set name value => exact hemplace _ name value (hremove name)
  | remove name => exact hremove name
  | append more others =>
      exact (t.elements_emplaceAll place _).trans (h.append (elements_ofPairs place more others))
  | setMissing name value =>
      have hspec := Table.find?_spec (hashing_lawful std_hash) t name
      simp only [onTable, onHeaders, HeaderTable.setMissing, setMissing_eq, missing]
      cases hfind : t.find? name with
      | some field =>
          obtain ⟨hmem, hequal⟩ := hspec.1 field hfind
          have hhas : headers.has name = true :=
            List.any_eq_true.mpr ⟨field, h.mem_iff.mp hmem, hequal⟩
          rw [if_pos hhas, List.append_nil]
          exact h
      | none =>
          have hhas : headers.has name = false :=
            Headers.not_has.mpr fun field hfield => hspec.2 hfind field (h.mem_iff.mpr hfield)
          rw [if_neg (by rw [hhas]; exact Bool.false_ne_true)]
          exact hemplace t name value h
  | rehash more => exact (t.elements_rehash place more).trans h

/-- What it does to the list is what it is for. -/
theorem onHeaders_fields (find : Find) (headers : Headers) (call : HeaderCall) :
    Fields.ofList (call.onHeaders find headers) = call.onFields (Fields.ofList headers) := by
  cases call with
  | add name value => exact Fields.ofList_snoc headers (name, value)
  | set name value =>
      exact (Fields.ofList_snoc _ (name, value)).trans
        (congrArg (Fields.add · (name, value)) (Fields.ofList_remove headers name))
  | remove name => exact Fields.ofList_remove headers name
  | append _ more => exact Fields.ofList_append more headers
  | setMissing name value =>
      simp only [onHeaders, onFields, setMissing_eq, missing, Fields.ofList_eq_zero]
      by_cases hhas : headers.has name = true
      · have hsome : ¬ ∀ field ∈ headers, CaseInsensitiveEqual field.1 name = false := by
          rw [← Headers.not_has, hhas]
          simp
        rw [if_pos hhas, if_neg hsome, List.append_nil]
      · have hnone := Headers.not_has.mp (Bool.eq_false_of_not_eq_true hhas)
        rw [if_neg hhas, if_pos hnone, Fields.ofList_snoc]
  | rehash _ => rfl

/-! ## Any calls -/

theorem foldl_onTable (find : Find) (calls : List HeaderCall) :
    ∀ {t : HeaderTable std_hash} {headers : Headers}, t.elements.Perm headers →
      (calls.foldl (onTable place) t).elements.Perm (calls.foldl (onHeaders find) headers) := by
  induction calls with
  | nil => exact fun h => h
  | cons call calls ih => exact fun h => ih (call.onTable_elements place find h)

theorem foldl_onHeaders (find : Find) (calls : List HeaderCall) : ∀ headers : Headers,
    Fields.ofList (calls.foldl (onHeaders find) headers) =
      calls.foldl onFields (Fields.ofList headers) := by
  induction calls with
  | nil => exact fun _ => rfl
  | cons call calls ih =>
      intro headers
      rw [List.foldl_cons, List.foldl_cons, ih, onHeaders_fields]

end HeaderCall

/-! ## Construction -/

/-- The field that a string stands for. -/
def fieldOf (hstr : Bytes) : Bytes × Bytes :=
  (trimLWS (hstr.takeWhile (· != 0x3a)), trimLWS (hstr.dropWhile (· != 0x3a)).tail)

theorem splitString_eq (hstr : Bytes) :
    HeaderTable.splitString hstr =
      if 0x3a ∈ hstr then .ok (fieldOf hstr)
      else .error (.runtime_error "Malformed string header; ':' required") := by
  unfold HeaderTable.splitString
  cases hcol : hstr.idxOf? 0x3a with
  | none => rw [if_neg (List.idxOf?_eq_none_iff.mp hcol)]
  | some col =>
      obtain ⟨-, hfind⟩ := List.findIdx?_eq_some_iff_findIdx_eq.mp hcol
      have hmem : (0x3a : Octet) ∈ hstr := by
        by_contra hnot
        rw [List.idxOf?_eq_none_iff.mpr hnot] at hcol
        cases hcol
      have hnot : (fun c : Octet => !(c != 0x3a)) = (· == 0x3a) := by
        funext c
        rw [bne, Bool.not_not]
      have htake : hstr.takeWhile (· != 0x3a) = hstr.take col := by
        rw [List.takeWhile_eq_take_findIdx_not, hnot, hfind]
      have hdrop : hstr.dropWhile (· != 0x3a) = hstr.drop col := by
        rw [List.dropWhile_eq_drop_findIdx_not, hnot, hfind]
      rw [if_pos hmem, fieldOf, htake, hdrop, List.tail_drop]

/-- A string without a colon is found out. -/
theorem ofStrings_eq (more : Nat) (strings : List Bytes) :
    (HeaderTable.ofStrings place more strings : Except Exn (HeaderTable std_hash)) =
      if ∀ hstr ∈ strings, 0x3a ∈ hstr then .ok (.ofPairs place more (strings.map fieldOf))
      else .error (.runtime_error "Malformed string header; ':' required") := by
  unfold HeaderTable.ofStrings HeaderTable.ofPairs
  generalize Table.empty (hashing std_hash) Bytes more = t
  induction strings generalizing t with
  | nil => rfl
  | cons hstr strings ih =>
      rw [List.foldlM_cons, splitString_eq]
      by_cases hcolon : (0x3a : Octet) ∈ hstr
      · have hrest : (∀ s ∈ hstr :: strings, (0x3a : Octet) ∈ s) ↔
            ∀ s ∈ strings, (0x3a : Octet) ∈ s :=
          List.forall_mem_cons.trans (and_iff_right hcolon)
        rw [if_pos hcolon, if_congr hrest rfl rfl]
        exact ih (t.emplace place (fieldOf hstr).1 (fieldOf hstr).2)
      · rw [if_neg hcolon, if_neg fun h => hcolon (h hstr List.mem_cons_self)]
        rfl

/-! ## What is found in a table -/

/-- The `find` of a table, on its own entries. -/
def HeaderTable.toFind (t : HeaderTable std_hash) : Find where
  find headers name :=
    if headers = t.elements then (t.find? name).map fun field => t.elements.idxOf field
    else Find.first.find headers name
  sound headers name i h := by
    split at h
    · rename_i hheaders
      subst hheaders
      obtain ⟨field, hfind, rfl⟩ := Option.map_eq_some_iff.mp h
      obtain ⟨hmem, hequal⟩ := (Table.find?_spec (hashing_lawful std_hash) t name).1 field hfind
      exact ⟨field, List.getElem?_idxOf hmem, hequal⟩
    · exact Find.first.sound headers name i h
  complete headers name h := by
    split at h
    · rename_i hheaders
      subst hheaders
      exact (Table.find?_spec (hashing_lawful std_hash) t name).2 (Option.map_eq_none_iff.mp h)
    · exact Find.first.complete headers name h

theorem HeaderTable.get_toFind (t : HeaderTable std_hash) (name : Bytes) :
    t.get name = Headers.get t.elements t.toFind name := by
  unfold HeaderTable.get Headers.get HeaderTable.toFind
  simp only [if_pos]
  cases hfind : t.find? name with
  | none => rfl
  | some field =>
      obtain ⟨hmem, -⟩ := (Table.find?_spec (hashing_lawful std_hash) t name).1 field hfind
      rw [Option.map_some, Option.getD_some]
      simp only [List.getD_eq_getElem?_getD, List.getElem?_idxOf hmem, Option.getD_some]

/-- A table with the fields that a multimap has. -/
structure HeaderTable.Holds (t : HeaderTable std_hash) (fields : Fields) : Prop where
  elements : Fields.ofList t.elements = fields
  get : ∀ name, (fields (asciiLower name) = 0 ∧ t.get name = no_header) ∨
    t.get name ∈ fields (asciiLower name)
  find : ∃ find : Find, ∀ name, t.get name = Headers.get t.elements find name

theorem HeaderTable.holds (t : HeaderTable std_hash) : t.Holds (Fields.ofList t.elements) := by
  refine ⟨rfl, fun name => ?_, t.toFind, t.get_toFind⟩
  obtain ⟨hsome, hnone⟩ := t.find?_fields name
  unfold HeaderTable.get
  cases hfind : t.find? name with
  | none => exact .inl ⟨hnone hfind, rfl⟩
  | some field => exact .inr (hsome field hfind)

/-- Of the fields that a header is constructed with, and any calls then: whatever the hash
function is, the table has the fields of the multimap and those of the list, and a string
without a colon is an error. -/
theorem headers_refine (std_hash : Bytes → Nat) (place : Place Bytes Bytes) (more : Nat)
    (strings : List Bytes) (calls : List HeaderCall) :
    (∃ t₀ : HeaderTable std_hash, HeaderTable.ofStrings place more strings = .ok t₀ ∧
      (∀ hstr ∈ strings, 0x3a ∈ hstr) ∧
      (calls.foldl (HeaderCall.onTable place) t₀).Holds
        (calls.foldl HeaderCall.onFields (Fields.ofList (strings.map fieldOf))) ∧
      ∀ find, (calls.foldl (HeaderCall.onTable place) t₀).elements.Perm
        (calls.foldl (HeaderCall.onHeaders find) (strings.map fieldOf))) ∨
    ((HeaderTable.ofStrings place more strings : Except Exn (HeaderTable std_hash)) =
        .error (.runtime_error "Malformed string header; ':' required") ∧
      ∃ hstr ∈ strings, 0x3a ∉ hstr) := by
  rw [ofStrings_eq]
  by_cases hcolons : ∀ hstr ∈ strings, (0x3a : Octet) ∈ hstr
  · left
    have hperm : ∀ find, (calls.foldl (HeaderCall.onTable place)
        (HeaderTable.ofPairs place more (strings.map fieldOf) :
          HeaderTable std_hash)).elements.Perm
          (calls.foldl (HeaderCall.onHeaders find) (strings.map fieldOf)) :=
      fun find => HeaderCall.foldl_onTable place find calls (elements_ofPairs place more _)
    refine ⟨_, if_pos hcolons, hcolons, ?_, hperm⟩
    rw [← HeaderCall.foldl_onHeaders Find.first, ← Fields.ofList_perm (hperm Find.first)]
    exact HeaderTable.holds _
  · right
    refine ⟨if_neg hcolons, ?_⟩
    by_contra hnone
    refine hcolons fun hstr hmem => ?_
    by_contra hcolon
    exact hnone ⟨hstr, hmem, hcolon⟩

end

end Shitty
