import Shitty.Http2.Theorems.Settings

/-!
# The octets of settings

What is written is read back, and a payload is read as it is meant, as long as no octet
of a value is widened with its sign over others. So both halves are told by the octets
of the values. Numbers below 128 are never damaged, and the initial window size is, when
it is written and read again.
-/

namespace Shitty.Http2

open Settings

/-! ## What is written -/

/-- What is read is what was written. -/
def Settings.RoundTrips (settings : Settings) : Prop :=
  createFromBuffer settings.writeTo = .ok settings

/-- Each known parameter has the value of its last entry, or the initial one. -/
def ReadsLast (payload : Bytes) : Prop :=
  ∃ settings, createFromBuffer payload = .ok settings ∧ settings.Accumulate [payload]

theorem entries_written (id : BitVec 16) (v : BitVec 32) (payload : Bytes) :
    entries (htons id ++ htonl v ++ payload) = (wireNumber (htons id), htonl v) :: entries payload :=
  rfl

theorem entries_writeTo (settings : Settings) :
    entries settings.writeTo =
      (List.range 6).map fun i => (i + 1, htonl (settings.value (i + 1))) := by
  have hall : ∀ names : List Nat, (∀ i ∈ names, i < 6) →
      entries (names.flatMap fun i =>
        htons (BitVec.ofNat 16 (First + i)) ++ htonl (settings.values_.getD i 0)) =
        names.map fun i => (i + 1, htonl (settings.value (i + 1))) := by
    intro names
    induction names with
    | nil => intro _; rfl
    | cons i names ih =>
        intro hnames
        have hid : ∀ i : Fin 6, wireNumber (htons (BitVec.ofNat 16 (First + i.val))) = i.val + 1 := by
          decide
        have hlt := hnames i (List.mem_cons_self ..)
        rw [List.flatMap_cons, entries_written, ih fun j hj => hnames j (List.mem_cons_of_mem _ hj),
          hid ⟨i, hlt⟩, List.map_cons]
        rfl
  exact hall (List.range 6) fun i hi => List.mem_range.mp hi

theorem Settings.length_writeTo (settings : Settings) : settings.writeTo.length = 36 := rfl

/-- Every parameter is written once, so that the last value of each is the one there is. -/
theorem lastOctets_writeTo (settings : Settings) {name : Nat} (hfirst : First ≤ name)
    (hlast : name ≤ Last) :
    lastOctets name (entries settings.writeTo) = some (htonl (settings.value name)) := by
  rw [First] at hfirst
  rw [Last] at hlast
  rw [entries_writeTo]
  interval_cases name <;> rfl

/-- Settings with the same values of all parameters are the same settings. -/
theorem Settings.eq_of_values {settings settings' : Settings}
    (h : ∀ name, First ≤ name → name ≤ Last → settings.value name = settings'.value name) :
    settings = settings' := by
  obtain ⟨values⟩ := settings
  obtain ⟨values'⟩ := settings'
  congr 1
  apply Vector.ext
  intro i hi
  have hvalue := h (i + 1) (by rw [First]; omega) (by rw [Last]; omega)
  simpa [Settings.value, First, Vector.getD, Array.getD, hi] using hvalue

/-- A value is read back from its octets. -/
theorem readOctets_htonl_iff (v : BitVec 32) : readOctets (htonl v) = v ↔ SignSafe (htonl v) := by
  have hiff := readOctets_iff (FrameHeader.byte (v >>> 24)) (FrameHeader.byte (v >>> 16))
    (FrameHeader.byte (v >>> 8)) (FrameHeader.byte (v >>> 0))
  rw [wireNumber_bytes, BitVec.toNat_inj] at hiff
  exact hiff

theorem roundTrips_iff (settings : Settings) :
    settings.RoundTrips ↔
      ∀ name, First ≤ name → name ≤ Last → SignSafe (htonl (settings.value name)) := by
  have hvalue : ∀ name, First ≤ name → name ≤ Last →
      (createFromBuffer_loop settings.writeTo {}).value name =
        readOctets (htonl (settings.value name)) := by
    intro name hfirst hlast
    rw [createFromBuffer_loop_value hfirst hlast, lastOctets_writeTo settings hfirst hlast]
    rfl
  have hread : settings.RoundTrips ↔ createFromBuffer_loop settings.writeTo {} = settings := by
    rw [RoundTrips, createFromBuffer, settings.length_writeTo, if_neg (by simp), Except.ok.injEq]
  rw [hread]
  simp only [← readOctets_htonl_iff]
  constructor
  · intro h name hfirst hlast
    rw [← hvalue name hfirst hlast, h]
  · intro h
    apply eq_of_values
    intro name hfirst hlast
    rw [hvalue name hfirst hlast, h name hfirst hlast]

/-! ## What is sent -/

theorem readsLast_iff {payload : Bytes} (h : payload.length % 6 = 0) :
    ReadsLast payload ↔
      ∀ name octets, First ≤ name → name ≤ Last →
        lastOctets name (entries payload) = some octets → SignSafe octets := by
  have hread : ReadsLast payload ↔ (createFromBuffer_loop payload {}).Accumulate [payload] := by
    unfold ReadsLast createFromBuffer
    rw [if_neg (not_not.mpr h)]
    simp
  rw [hread, ← List.nil_append [payload], accumulate_iff]
  constructor
  · intro hcarries name octets hfirst hlast
    exact (hcarries name hfirst hlast).1 octets
  · intro hsafe name hfirst hlast
    exact ⟨fun octets => hsafe name octets hfirst hlast, fun _ => rfl⟩

/-- Settings are read back exactly when no value of theirs is damaged by a sign, and a
payload gives each parameter its last value exactly when none of the last values is. -/
theorem settings_payload_iff (settings : Settings) (payload : Bytes) :
    (settings.RoundTrips ↔
      ∀ name, First ≤ name → name ≤ Last → SignSafe (htonl (settings.value name))) ∧
    (payload.length % 6 = 0 →
      (ReadsLast payload ↔ ∀ name octets, First ≤ name → name ≤ Last →
        lastOctets name (entries payload) = some octets → SignSafe octets)) :=
  ⟨roundTrips_iff settings, readsLast_iff⟩

/-- The header table's size set to 2. -/
theorem settings_payload_tableSize : ReadsLast [0, 1, 0, 0, 0, 2] := by
  refine ((settings_payload_iff {} [0, 1, 0, 0, 0, 2]).2 rfl).mpr ?_
  intro name octets _ _ hlast
  rw [ServerTransport.lastOctets_tableSize] at hlast
  split at hlast
  · cases hlast
    exact (by decide : SignSafe [0, 0, 0, 2])
  · cases hlast

/-- The initial window size of 65535 comes back as 2^32 - 1. -/
theorem initial_settings_damaged :
    ¬ ((∀ settings : Settings, settings.RoundTrips) ∧
      ∀ payload : Bytes, payload.length % 6 = 0 → ReadsLast payload) := by
  intro h
  have hsafe := (roundTrips_iff {}).mp (h.1 {}) InitialWindowSize
  revert hsafe
  decide

end Shitty.Http2
