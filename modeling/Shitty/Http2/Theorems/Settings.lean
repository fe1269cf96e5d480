import Shitty.Http2.Logic.Frame
import Shitty.Http2.Logic.Steps
import Shitty.Lib.Run
import Mathlib.Tactic.IntervalCases

/-!
# SETTINGS frames one after the other

`receiveSettings` puts new settings in place of the old ones, and reads values from
signed octets: when `peerSettings_` holds what the peer has sent last all the same. What
the peer has said of a parameter is looked for in all its frames, from the last one on,
and compared with the value that the transport keeps, for any construction and any run.
-/

namespace Shitty.Http2

open Lib

/-! ## What the peer sends -/

/-- The entries of a SETTINGS payload: an identifier and the octets of a value. -/
def entries : Bytes → List (Nat × Bytes)
  | a :: b :: c :: d :: e :: f :: payload => (wireNumber [a, b], [c, d, e, f]) :: entries payload
  | _ => []

/-- The octets of the last value for a parameter. -/
def lastOctets (name : Nat) (es : List (Nat × Bytes)) : Option Bytes :=
  ((es.filter fun e => e.1 = name).map Prod.snd).getLast?

/-- The initial value of a parameter; those without a limit have the largest. -/
def initialValue (name : Nat) : Nat :=
  if name = Settings.HeaderTableSize then 4096
  else if name = Settings.EnablePush then 1
  else if name = Settings.InitialWindowSize then 65535
  else if name = Settings.MaxFrameSize then 16384
  else 2 ^ 32 - 1

/-- The last value sent in any payload so far, or the initial one. -/
def sentValue (name : Nat) (payloads : List Bytes) : Nat :=
  ((lastOctets name (payloads.flatMap entries)).map wireNumber).getD (initialValue name)

/-- Settings that hold for each known parameter what has been sent last. -/
def Settings.Accumulate (settings : Settings) (payloads : List Bytes) : Prop :=
  ∀ name, Settings.First ≤ name → name ≤ Settings.Last →
    (settings.value name).toNat = sentValue name payloads

/-- When a payload is dealt with correctly behind others: the octets of the last
value it has for a parameter are not damaged by their signs, and a parameter it
has no value for has had none, or its initial one. -/
def Carries (before : List Bytes) (payload : Bytes) : Prop :=
  ∀ name, Settings.First ≤ name → name ≤ Settings.Last →
    (∀ octets, lastOctets name (entries payload) = some octets → SignSafe octets) ∧
    (lastOctets name (entries payload) = none → sentValue name before = initialValue name)

theorem lastOctets_append (name : Nat) (es fs : List (Nat × Bytes)) :
    lastOctets name (es ++ fs) = (lastOctets name fs).or (lastOctets name es) := by
  rw [lastOctets, List.filter_append, List.map_append, List.getLast?_append]
  rfl

theorem sentValue_append (name : Nat) (before : List Bytes) (payload : Bytes) :
    sentValue name (before ++ [payload]) =
      ((lastOctets name (entries payload)).map wireNumber).getD (sentValue name before) := by
  rw [sentValue, List.flatMap_append, List.flatMap_singleton, lastOctets_append]
  cases lastOctets name (entries payload) <;> rfl

/-! ## What the code reads -/

/-- A value read from its octets. -/
def readOctets (octets : Bytes) : BitVec 32 :=
  streamOf (dataAt octets 0) (dataAt octets 1) (dataAt octets 2) (dataAt octets 3)

/-- An identifier read from its octets. -/
def readId (a b : Octet) : BitVec 16 := (a.signExtend 16 <<< 8) ||| b.signExtend 16

theorem wireNumber_pair (a b : Octet) : wireNumber [a, b] = 256 * a.toNat + b.toNat := by
  simp [wireNumber]

theorem readId_toNat (a b : Octet) :
    (readId a b).toNat =
      256 * (FrameHeader.byte (readId a b >>> 8)).toNat +
        (FrameHeader.byte (readId a b >>> 0)).toNat := by
  have hlt := (readId a b).isLt
  simp only [FrameHeader.byte, BitVec.toNat_setWidth, BitVec.toNat_ushiftRight,
    Nat.shiftRight_eq_div_pow]
  omega

theorem getLsbD_readId (a b : Octet) {i : Nat} (hi : i < 16) :
    (readId a b).getLsbD i = if i < 8 then b.getLsbD i else (a.getLsbD (i - 8) || b.msb) := by
  simp only [readId, BitVec.getLsbD_or, BitVec.getLsbD_shiftLeft, BitVec.getLsbD_signExtend]
  by_cases h8 : i < 8
  · simp [h8, hi]
  · simp [h8, hi, show i - 8 < 16 by omega, show i - 8 < 8 by omega]

/-- A known identifier is read as it is, and no other is taken for one. -/
theorem readId_known {a b : Octet} {name : Nat} (hfirst : Settings.First ≤ name)
    (hlast : name ≤ Settings.Last) :
    (readId a b).toNat = name ↔ wireNumber [a, b] = name := by
  have hlow : FrameHeader.byte (readId a b >>> 0) = b := by
    rw [byte_eq_iff]
    intro i hi
    rw [getLsbD_readId a b (by omega), if_pos (by omega), Nat.zero_add]
  rw [readId_toNat, hlow, wireNumber_pair]
  rw [Settings.First] at hfirst
  rw [Settings.Last] at hlast
  cases hmsb : b.msb with
  | false =>
      have hhigh : FrameHeader.byte (readId a b >>> 8) = a := by
        rw [byte_eq_iff]
        intro i hi
        rw [getLsbD_readId a b (by omega), if_neg (by omega), hmsb, Bool.or_false,
          Nat.add_sub_cancel_left]
      rw [hhigh]
  | true =>
      -- both are too large
      have hb : 128 ≤ b.toNat := BitVec.le_toNat_of_msb_true hmsb
      omega

theorem value_setValue (settings : Settings) {id name : Nat} (v : BitVec 32)
    (hid : Settings.First ≤ id) (hfirst : Settings.First ≤ name) (hlast : name ≤ Settings.Last) :
    (settings.setValue id v).value name = if id = name then v else settings.value name := by
  rw [Settings.First] at hid hfirst
  rw [Settings.Last] at hlast
  have hname : name - 1 < 6 := by omega
  have hget : ∀ (values : Vector (BitVec 32) 6) (k : Nat),
      (values.setIfInBounds k v).getD (name - 1) 0 =
        if k = name - 1 then v else values.getD (name - 1) 0 := by
    intro values k
    simp [Vector.getD, Array.getD, hname, Array.getElem_setIfInBounds]
  show (settings.values_.setIfInBounds (id - 1) v).getD (name - 1) 0 = _
  rw [hget]
  by_cases heq : id = name
  · rw [if_pos heq, if_pos (by omega)]
  · rw [if_neg heq, if_neg (by omega)]
    rfl

/-- What the loop leaves for a parameter. -/
theorem createFromBuffer_loop_value {name : Nat} (hfirst : Settings.First ≤ name)
    (hlast : name ≤ Settings.Last) (buf : Bytes) (settings : Settings) :
    (Settings.createFromBuffer_loop buf settings).value name =
      ((lastOctets name (entries buf)).map readOctets).getD (settings.value name) := by
  fun_induction Settings.createFromBuffer_loop buf settings with
  | case1 a b c d e f buf settings id hunknown ih =>
      have hother : ¬ wireNumber [a, b] = name := by
        rw [← readId_known hfirst hlast]
        intro heq
        change id.toNat = name at heq
        omega
      rw [ih, entries, lastOctets, lastOctets, List.filter_cons_of_neg (by simpa using hother)]
  | case2 a b c d e f buf settings id hknown value ih =>
      rw [ih, value_setValue settings value (by omega) hfirst hlast, entries,
        ← List.singleton_append, lastOctets_append]
      have hid : id.toNat = name ↔ wireNumber [a, b] = name := readId_known hfirst hlast
      cases lastOctets name (entries buf) with
      | some octets => rfl
      | none =>
          by_cases heq : id.toNat = name
          · have hlast' : lastOctets name [(wireNumber [a, b], [c, d, e, f])] = some [c, d, e, f] := by
              simp [lastOctets, hid.mp heq]
            rw [if_pos heq, hlast']
            exact rfl
          · have hlast' : lastOctets name [(wireNumber [a, b], [c, d, e, f])] = none := by
              simp [lastOctets, hid.not.mp heq]
            rw [if_neg heq, hlast']
            rfl
  | case3 buf settings h =>
      have hnone : entries buf = [] := by
        unfold entries
        split
        · rename_i a b c d e f rest
          exact absurd rfl (h a b c d e f rest)
        · rfl
      rw [hnone]
      rfl

/-! ## Values -/

theorem readOctets_iff (c d e f : Octet) :
    (readOctets [c, d, e, f]).toNat = wireNumber [c, d, e, f] ↔ SignSafe [c, d, e, f] := by
  have hread : readOctets [c, d, e, f] = streamOf c d e f := rfl
  have hwire : wireNumber [c, d, e, f] =
      256 * (256 * (256 * c.toNat + d.toNat) + e.toNat) + f.toNat := by
    simp [wireNumber]
  have hlt := (streamOf c d e f).isLt
  have hc := c.isLt
  have hd := d.isLt
  have he := e.isLt
  have hf := f.isLt
  rw [hread, hwire, ← stream_octets_iff]
  simp only [← BitVec.toNat_inj, FrameHeader.byte, BitVec.toNat_setWidth, BitVec.toNat_ushiftRight,
    Nat.shiftRight_eq_div_pow]
  omega

/-- The values of an entry are four octets. -/
theorem lastOctets_four {name : Nat} {octets : Bytes} {payload : Bytes}
    (h : lastOctets name (entries payload) = some octets) :
    ∃ c d e f, octets = [c, d, e, f] := by
  have hmem := List.mem_of_getLast? h
  obtain ⟨entry, hentry, rfl⟩ := List.mem_map.mp hmem
  have hall : ∀ (buf : Bytes), ∀ entry ∈ entries buf, ∃ c d e f, entry.2 = [c, d, e, f] := by
    intro buf
    fun_induction entries buf with
    | case1 a b c d e f buf ih =>
        intro entry hentry
        rcases List.mem_cons.mp hentry with rfl | hentry
        · exact ⟨c, d, e, f, rfl⟩
        · exact ih entry hentry
    | case2 buf h =>
        intro entry hentry
        cases hentry
  exact hall payload entry (List.mem_of_mem_filter hentry)

theorem initialValue_eq {name : Nat} (hfirst : Settings.First ≤ name)
    (hlast : name ≤ Settings.Last) : (({} : Settings).value name).toNat = initialValue name := by
  rw [Settings.First] at hfirst
  rw [Settings.Last] at hlast
  interval_cases name <;> rfl

/-- New settings from a payload hold what has been sent last exactly when it
carries on what has been sent before. -/
theorem accumulate_iff (before : List Bytes) (payload : Bytes) :
    (Settings.createFromBuffer_loop payload {}).Accumulate (before ++ [payload]) ↔
      Carries before payload := by
  unfold Settings.Accumulate Carries
  refine forall_congr' fun name => forall₂_congr fun hfirst hlast => ?_
  rw [createFromBuffer_loop_value hfirst hlast, sentValue_append]
  cases hoctets : lastOctets name (entries payload) with
  | none =>
      simp only [Option.map_none, Option.getD_none, initialValue_eq hfirst hlast, reduceCtorEq,
        false_imp_iff, implies_true, true_and, true_imp_iff]
      exact eq_comm
  | some octets =>
      obtain ⟨c, d, e, f, rfl⟩ := lastOctets_four hoctets
      simp only [Option.map_some, Option.getD_some, readOctets_iff, Option.some.injEq, reduceCtorEq,
        false_imp_iff, and_true]
      exact ⟨fun h octets heq => heq ▸ h, fun h => h _ rfl⟩

namespace ServerTransport

/-! ## Histories -/

instance (header : FrameHeader) : Decidable (Sets header) := inferInstanceAs (Decidable (_ ∧ _))

/-- The payloads of the SETTINGS frames among those handled. -/
def settingsPayloads (handled : List (FrameHeader × Bytes)) : List Bytes :=
  (handled.filter fun f => Sets f.1).map Prod.snd

/-- All the settings the peer has sent: those in the request that was upgraded, if
there was one, and then the frames. -/
def sentPayloads (fb64 : Fb64) (http2Settings : Option Bytes) (s : Impl) : List Bytes :=
  (http2Settings.map fb64.payload).toList ++ settingsPayloads s.handled

/-- The settings made from the last payload. -/
def lastSettings (payloads : List Bytes) : Settings :=
  (payloads.getLast?.map fun payload => Settings.createFromBuffer_loop payload {}).getD {}

theorem createFromBuffer_ok {buf : Bytes} {settings : Settings}
    (h : Settings.createFromBuffer buf = .ok settings) :
    settings = Settings.createFromBuffer_loop buf {} := by
  unfold Settings.createFromBuffer at h
  split at h
  · cases h
  · cases h
    rfl

theorem construct_ok {fb64 : Fb64} {http2Settings : Option Bytes} {s : Impl}
    (h : Impl.construct fb64 http2Settings = .ok s) :
    s.handled = [] ∧ s.peerSettings_ = lastSettings (http2Settings.map fb64.payload).toList := by
  cases http2Settings with
  | none =>
      cases h
      exact ⟨rfl, rfl⟩
  | some b64encoded =>
      obtain ⟨settings, hdecode, h⟩ := bind_eq_ok.mp h
      cases h
      refine ⟨rfl, ?_⟩
      unfold decodeBase64Settings at hdecode
      dsimp only at hdecode
      split at hdecode
      · cases hdecode
      · split at hdecode
        · cases hdecode
        · exact createFromBuffer_ok hdecode

theorem settingsPayloads_append (handled : List (FrameHeader × Bytes)) (header : FrameHeader)
    (payload : Bytes) : settingsPayloads (handled ++ [(header, payload)]) =
      settingsPayloads handled ++ if Sets header then [payload] else [] := by
  rw [settingsPayloads, List.filter_append, List.map_append]
  by_cases h : Sets header <;> simp [settingsPayloads, h]

/-- `peerSettings_` is what was made from the last payload. -/
theorem peerSettings_eq {fb64 : Fb64} {http2Settings : Option Bytes} {s₀ s : Impl}
    (h₀ : Impl.construct fb64 http2Settings = .ok s₀) (h : Passes s₀ s) :
    s.peerSettings_ = lastSettings (sentPayloads fb64 http2Settings s) := by
  induction h with
  | refl =>
      obtain ⟨hhandled, hsettings⟩ := construct_ok h₀
      rw [hsettings, sentPayloads, hhandled]
      exact congrArg lastSettings (List.append_nil _).symm
  | tail _ hstep ih =>
      rcases hstep.cases with hsame | ⟨header, payload, haccepts⟩
      · rw [hsame.settings, ih, sentPayloads, sentPayloads, hsame.handled]
      · rw [sentPayloads, haccepts.handled, settingsPayloads_append, ← List.append_assoc]
        rw [sentPayloads] at ih
        cases haccepts.effect with
        | sets frame settings read settings_eq window updated =>
            rw [settings_eq, createFromBuffer_ok read, if_pos frame, lastSettings,
              List.getLast?_concat]
            rfl
        | widens frame size windowSize added settings_eq window updated =>
            have hno : ¬ Sets header := by
              rintro ⟨htype, -⟩
              rw [frame.1] at htype
              cases htype
            rw [settings_eq, ih, if_neg hno, List.append_nil]
        | other no_settings no_update settings_eq window updated =>
            rw [settings_eq, ih, if_neg no_settings, List.append_nil]

/-- Fewer frames, fewer payloads, and every number of payloads was there at some
time. -/
theorem settingsPayloads_front {handled : List (FrameHeader × Bytes)} {payloads : List Bytes} :
    payloads <+: settingsPayloads handled ↔
      ∃ p, p <+: handled ∧ settingsPayloads p = payloads := by
  constructor
  · induction handled using List.reverseRecOn with
    | nil =>
        intro h
        exact ⟨[], List.prefix_rfl, (List.prefix_nil.mp h).symm⟩
    | append_singleton handled f ih =>
        intro h
        rw [settingsPayloads_append] at h
        by_cases hsets : Sets f.1
        · rw [if_pos hsets] at h
          rcases List.prefix_concat_iff.mp h with rfl | h
          · refine ⟨_, List.prefix_rfl, ?_⟩
            rw [settingsPayloads_append, if_pos hsets]
          · obtain ⟨p, hp, heq⟩ := ih h
            exact ⟨p, hp.trans (List.prefix_append _ _), heq⟩
        · rw [if_neg hsets, List.append_nil] at h
          obtain ⟨p, hp, heq⟩ := ih h
          exact ⟨p, hp.trans (List.prefix_append _ _), heq⟩
  · rintro ⟨p, hp, rfl⟩
    exact (hp.filter _).map _

/-- In every state up to `s`, `peerSettings_` holds for each known parameter what
the peer has sent last, exactly when every payload carries on what was sent
before. -/
theorem settings_accumulate_iff {fb64 : Fb64} {http2Settings : Option Bytes} {s₀ s : Impl}
    (h₀ : Impl.construct fb64 http2Settings = .ok s₀) (h : Passes s₀ s) :
    (∀ s', Passes s₀ s' → Passes s' s →
        s'.peerSettings_.Accumulate (sentPayloads fb64 http2Settings s')) ↔
      ∀ before payload, before ++ [payload] <+: sentPayloads fb64 http2Settings s →
        Carries before payload := by
  obtain ⟨hempty, -⟩ := construct_ok h₀
  have hnone : (lastSettings []).Accumulate [] := fun name hfirst hlast =>
    initialValue_eq hfirst hlast
  have hpayloads : (∀ payloads, payloads <+: sentPayloads fb64 http2Settings s →
      (lastSettings payloads).Accumulate payloads) ↔
        ∀ before payload, before ++ [payload] <+: sentPayloads fb64 http2Settings s →
          Carries before payload := by
    refine Run.always_iff hnone fun before payload _ _ => ?_
    rw [lastSettings, List.getLast?_concat]
    exact accumulate_iff before payload
  rw [← hpayloads]
  constructor
  · -- every number of payloads was there in some state
    intro hall payloads hpre
    have hstate : ∀ frames, frames <+: settingsPayloads s.handled →
        payloads = (http2Settings.map fb64.payload).toList ++ frames →
        (lastSettings payloads).Accumulate payloads := by
      rintro frames hframes rfl
      obtain ⟨p, hp, rfl⟩ := settingsPayloads_front.mp hframes
      obtain ⟨u, hu, hus, rfl⟩ := passes_handled h (hempty ▸ List.nil_prefix) hp
      have := hall u hu hus
      rwa [peerSettings_eq h₀ hu] at this
    cases http2Settings with
    | none => exact hstate payloads hpre rfl
    | some b64encoded =>
        rcases payloads with _ | ⟨payload, frames⟩
        · exact hnone
        · obtain ⟨rfl, hframes⟩ := List.cons_prefix_cons.mp hpre
          exact hstate frames hframes rfl
  · intro hall s' hs' hs
    rw [peerSettings_eq h₀ hs']
    refine hall _ ?_
    exact (List.prefix_append_right_inj _).mpr
      (settingsPayloads_front.mpr ⟨_, handled_grows hs, rfl⟩)

/-! ## Two frames -/

/-- A transport that has taken a SETTINGS frame. -/
def tookSettings (s : Impl) (header : FrameHeader) (payload : Bytes) : Impl :=
  { s with
    peerSettings_ := Settings.createFromBuffer_loop payload {}
    windowSize_ := if s.windowUpdateReceived_ then s.windowSize_
      else (Settings.createFromBuffer_loop payload {}).value Settings.InitialWindowSize
    sent := s.sent ++
      [({ type := FrameType.SETTINGS, flags := setFlag 0 0 true } : FrameHeader).writeTo]
    handled := s.handled ++ [(header, payload)] }

theorem passes_settings {s : Impl} (hbuf : s.buf = []) (hcurrent : s.currentFrameHeader_ = none)
    {header : FrameHeader} {payload : Bytes}
    (hread : readFrameHeader (header.writeTo ++ payload) = .ok (header, payload))
    (hlen : header.length.toNat = payload.length) (hsets : Sets header)
    (hsize : payload.length % 6 = 0) : Passes s (tookSettings s header payload) := by
  have hcreate : Settings.createFromBuffer payload =
      .ok (Settings.createFromBuffer_loop payload {}) := by
    rw [Settings.createFromBuffer, if_neg (not_not.mpr hsize)]
  have hown : handler header { s with
      currentFrameHeader_ := some header, buf := payload
      handled := s.handled ++ [(header, payload)] } =
      .ok () { tookSettings s header payload with
        currentFrameHeader_ := some header, buf := payload } := by
    unfold handler
    simp only [hsets.1]
    show receiveSettings header _ = _
    rw [receiveSettings, hsets.2, if_neg Bool.false_ne_true, Steady.bind_apply, front_eq hlen.le]
    dsimp only
    rw [Steady.bind_apply, List.take_of_length_le hlen.ge, hcreate]
    rfl
  have hpasses := passes_frame hbuf hcurrent hread hlen hown rfl
  have heq : ({ tookSettings s header payload with
      currentFrameHeader_ := none, buf := [] } : Impl) = tookSettings s header payload := by
    rw [tookSettings, hbuf, hcurrent]
  rwa [← heq]

/-- A SETTINGS frame for the header table's size, and an empty one. -/
def tableSizeFrame : FrameHeader := { type := FrameType.SETTINGS, length := 6 }

def emptyFrame : FrameHeader := { type := FrameType.SETTINGS }

/-- `fb64` on the text `AAEAAAAB`, which sets the header table's size to 1. -/
def fb64_tableSize : Fb64 where
  decoded_size_nopad n := n * 3 / 4
  decode _ := (0, fun i => [0, 1, 0, 0, 0, 1].getD i 0)

/-- The transport of a request that was upgraded with that. -/
def upgraded : Impl := Impl.new (Settings.createFromBuffer_loop [0, 1, 0, 0, 0, 1] {})

theorem lastOctets_tableSize (name : Nat) (size : Octet) :
    lastOctets name (entries [0, 1, 0, 0, 0, size]) =
      if name = Settings.HeaderTableSize then some [0, 0, 0, size] else none := by
  have hid : wireNumber [0#8, 1#8] = Settings.HeaderTableSize := rfl
  by_cases h : name = Settings.HeaderTableSize
  · simp [lastOctets, entries, hid, h]
  · simp [lastOctets, entries, hid, h, Ne.symm h]

theorem carries_tableSize {before : List Bytes} {size : Octet} (hsize : size.msb = false)
    (hbefore : ∀ name, name ≠ Settings.HeaderTableSize → sentValue name before = initialValue name) :
    Carries before [0, 1, 0, 0, 0, size] := by
  intro name _ _
  rw [lastOctets_tableSize]
  by_cases h : name = Settings.HeaderTableSize
  · simp [h, SignSafe, hsize]
  · simp [h, hbefore name h]

/-- The header table's size in the request that was upgraded, and once more in a
frame. -/
theorem settings_accumulate_tableSize :
    (tookSettings upgraded tableSizeFrame [0, 1, 0, 0, 0, 2]).peerSettings_.Accumulate
      [[0, 1, 0, 0, 0, 1], [0, 1, 0, 0, 0, 2]] := by
  have hpasses : Passes upgraded (tookSettings upgraded tableSizeFrame [0, 1, 0, 0, 0, 2]) :=
    passes_settings rfl rfl rfl rfl ⟨rfl, rfl⟩ rfl
  have hiff := @settings_accumulate_iff fb64_tableSize (some (octets "AAEAAAAB")) _ _ rfl hpasses
  refine hiff.mpr ?_ _ hpasses .refl
  rintro before payload ⟨rest, hsplit⟩
  change before ++ [payload] ++ rest = [[0, 1, 0, 0, 0, 1], [0, 1, 0, 0, 0, 2]] at hsplit
  rcases before with _ | ⟨first, _ | ⟨second, before⟩⟩
  · obtain ⟨rfl, -⟩ := List.cons.inj hsplit
    exact carries_tableSize rfl fun name _ => rfl
  · obtain ⟨hfirst, hsecond⟩ := List.cons.inj hsplit
    obtain ⟨rfl, -⟩ := List.cons.inj hsecond
    subst hfirst
    refine carries_tableSize rfl fun name hother => ?_
    rw [sentValue, List.flatMap_singleton, lastOctets_tableSize, if_neg hother]
    rfl
  · have hlen := congrArg List.length hsplit
    simp at hlen

/-- The header table's size set to 2 in one frame, and no longer so behind the next,
which is empty. -/
theorem settings_forgotten :
    ¬ ∀ (fb64 : Fb64) (http2Settings : Option Bytes) (s₀ s : Impl),
      Impl.construct fb64 http2Settings = .ok s₀ → Passes s₀ s →
        s.peerSettings_.Accumulate (sentPayloads fb64 http2Settings s) := by
  intro h
  have hfirst : Passes (Impl.new {}) (tookSettings (Impl.new {}) tableSizeFrame [0, 1, 0, 0, 0, 2]) :=
    passes_settings rfl rfl rfl rfl ⟨rfl, rfl⟩ rfl
  have hread : readFrameHeader (emptyFrame.writeTo ++ []) = .ok (emptyFrame, []) := rfl
  have hsecond := hfirst.trans (passes_settings rfl rfl hread rfl ⟨rfl, rfl⟩ rfl)
  have hsize := h fb64_tableSize none _ _ rfl hsecond Settings.HeaderTableSize (Nat.le_refl 1)
    (by decide)
  exact absurd hsize (by decide)

end ServerTransport

end Shitty.Http2
