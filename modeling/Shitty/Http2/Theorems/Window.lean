import Shitty.Http2.Theorems.Boundaries
import Shitty.Http2.Theorems.Settings

/-!
# The connection's window

`windowSize_` grows by what WINDOW_UPDATE frames say, and a SETTINGS frame in front of
the first of them puts its own initial window size there. Behind a WINDOW_UPDATE,
SETTINGS frames leave it alone. So the window is what the increments come to exactly in
the runs in which no setting has come before the first of them.
-/

namespace Shitty.Http2

/-! ## Increments -/

/-- The increment of a WINDOW_UPDATE, without the reserved bit. -/
def increment (payload : Bytes) : Nat := wireNumber payload % 2 ^ 31

theorem wireNumber_four (a b c d : Octet) : wireNumber [a, b, c, d] =
    256 * (256 * (256 * a.toNat + b.toNat) + c.toNat) + d.toNat := by
  simp [wireNumber]

/-- Four octets put together without their signs. -/
theorem or_toNat (a b c d : Octet) :
    ((a.setWidth 32 <<< 24) ||| (b.setWidth 32 <<< 16) ||| (c.setWidth 32 <<< 8) |||
      (d.setWidth 32 <<< 0)).toNat = wireNumber [a, b, c, d] := by
  generalize hv : (a.setWidth 32 <<< 24) ||| (b.setWidth 32 <<< 16) ||| (c.setWidth 32 <<< 8) |||
    (d.setWidth 32 <<< 0) = v
  have hbit : ∀ i < 32, v.getLsbD i =
      if i < 8 then d.getLsbD i
      else if i < 16 then c.getLsbD (i - 8)
      else if i < 24 then b.getLsbD (i - 16)
      else a.getLsbD (i - 24) := by
    intro i hi
    rw [← hv]
    simp only [BitVec.getLsbD_or, BitVec.getLsbD_shiftLeft, BitVec.getLsbD_setWidth, Nat.sub_zero]
    have hout : ∀ (o : Octet) (k : Nat), 8 ≤ k → o.getLsbD k = false := fun o k hk =>
      BitVec.getLsbD_of_ge o k hk
    by_cases h8 : i < 8
    · simp [h8, hi, show i < 16 by omega, show i < 24 by omega]
    · by_cases h16 : i < 16
      · simp [h8, h16, hi, show i < 24 by omega, show i - 8 < 32 by omega, hout d i (by omega)]
      · by_cases h24 : i < 24
        · simp [h8, h16, h24, hi, show i - 16 < 32 by omega, hout d i (by omega),
            hout c (i - 8) (by omega)]
        · simp [h8, h16, h24, hi, show i - 24 < 32 by omega, hout d i (by omega),
            hout c (i - 8) (by omega), hout b (i - 16) (by omega)]
  -- so the octets are the digits to the base 256
  have hbyte : ∀ (k : Nat) (o : Octet), (∀ i < 8, v.getLsbD (k + i) = o.getLsbD i) →
      v.toNat / 2 ^ k % 256 = o.toNat := by
    intro k o ho
    have := congrArg BitVec.toNat ((byte_eq_iff v k o).mpr ho)
    simpa [FrameHeader.byte, Nat.shiftRight_eq_div_pow] using this
  have hd := hbyte 0 d fun i hi => by
    rw [hbit _ (by omega), if_pos (by omega), Nat.zero_add]
  have hc := hbyte 8 c fun i hi => by
    rw [hbit _ (by omega), if_neg (by omega), if_pos (by omega), Nat.add_sub_cancel_left]
  have hb := hbyte 16 b fun i hi => by
    rw [hbit _ (by omega), if_neg (by omega), if_neg (by omega), if_pos (by omega),
      Nat.add_sub_cancel_left]
  have ha := hbyte 24 a fun i hi => by
    rw [hbit _ (by omega), if_neg (by omega), if_neg (by omega), if_neg (by omega),
      Nat.add_sub_cancel_left]
  have hlt := v.isLt
  rw [wireNumber_four]
  omega

/-- No octets are read as the window's initial size: with the top bit of the last
one, all bits above it are set. -/
theorem readOctets_ne_initial (a b c d : Octet) : readOctets [a, b, c, d] ≠ 65535#32 := by
  intro h
  have hread : readOctets [a, b, c, d] = streamOf a b c d := rfl
  rw [hread] at h
  have h7 := getLsbD_streamOf a b c d (show 7 < 32 by omega)
  have h16 := getLsbD_streamOf a b c d (show 16 < 32 by omega)
  rw [h] at h7 h16
  simp only [if_pos (show 7 < 8 by omega)] at h7
  have hmsb : d.msb = true := by
    rw [BitVec.msb_eq_getLsbD_last]
    exact h7.symm
  simp [hmsb] at h16

namespace ServerTransport

/-- `readWindowSize` reads the increment of a payload of four octets, whatever its reserved bit
is. -/
theorem readWindowSize_eq {payload : Bytes} (h : payload.length = 4) :
    readWindowSize payload = (increment payload : Int) := by
  obtain ⟨a, b, c, d, rfl⟩ : ∃ a b c d, payload = [a, b, c, d] := by
    rcases payload with _ | ⟨a, _ | ⟨b, _ | ⟨c, _ | ⟨d, _ | ⟨e, rest⟩⟩⟩⟩⟩
    case cons.cons.cons.cons.nil => exact ⟨a, b, c, d, rfl⟩
    all_goals simp at h
  have hand : (((a.setWidth 32 <<< 24) ||| (b.setWidth 32 <<< 16) ||| (c.setWidth 32 <<< 8) |||
      (d.setWidth 32 <<< 0)) &&& 0x7fffffff#32).toNat = increment [a, b, c, d] := by
    rw [BitVec.toNat_and, or_toNat, increment]
    exact Nat.and_two_pow_sub_one_eq_mod _ 31
  show BitVec.toInt _ = _
  rw [BitVec.toInt_eq_toNat_of_lt]
  · exact congrArg Nat.cast hand
  · have hlt : increment [a, b, c, d] < 2 ^ 31 := Nat.mod_lt _ (Nat.two_pow_pos 31)
    refine (congrArg (2 * ·) hand).trans_lt ?_
    omega

instance (header : FrameHeader) : Decidable (Widens header) := inferInstanceAs (Decidable (_ ∧ _))

/-- The sum of the increments for the connection among the frames handled. -/
def increments (handled : List (FrameHeader × Bytes)) : Nat :=
  ((handled.filter fun f => Widens f.1).map fun f => increment f.2).sum

theorem increments_append (handled : List (FrameHeader × Bytes)) (header : FrameHeader)
    (payload : Bytes) : increments (handled ++ [(header, payload)]) =
      increments handled + if Widens header then increment payload else 0 := by
  rw [increments, List.filter_append, List.map_append, List.sum_append]
  by_cases h : Widens header <;> simp [increments, h]

/-- The largest window that RFC 7540 section 6.9.1 allows for. -/
def maxWindow : Nat := 2 ^ 31 - 1

/-- The window is what the peer has made it, and stays so where a WINDOW_UPDATE is
not to be accepted. -/
structure WindowRight (s : Impl) : Prop where
  window : s.windowSize_.toNat = 65535 + increments s.handled
  range : s.windowSize_.toNat ≤ maxWindow
  rejects : ∀ header, s.currentFrameHeader_ = some header → Widens header → header.length = 4 →
    4 ≤ s.buf.length →
    (increment (s.buf.take 4) = 0 ∨
      maxWindow < s.windowSize_.toNat + increment (s.buf.take 4)) →
    ∃ e t, processFrameBody s = .error e t ∧ t.windowSize_ = s.windowSize_ ∧
      t.windowUpdateReceived_ = s.windowUpdateReceived_

/-- No SETTINGS frame in front of the first WINDOW_UPDATE for the connection has an
initial window size. -/
def NoWindowSetting (handled : List (FrameHeader × Bytes)) : Prop :=
  ∀ before header payload, before ++ [(header, payload)] <+: handled → Sets header →
    (∀ f ∈ before, ¬ Widens f.1) → lastOctets Settings.InitialWindowSize (entries payload) = none

/-! ## Adding to the window -/

theorem toInt_of_range {window : BitVec 32} (h : window.toNat ≤ maxWindow) :
    window.toInt = window.toNat := by
  rw [maxWindow] at h
  exact BitVec.toInt_eq_toNat_of_lt (by omega)

/-- An increment that is accepted fits. -/
theorem addWindowSize_ok {window : BitVec 32} (h : window.toNat ≤ maxWindow) {n : Nat} {w : Int}
    (hadd : addWindowSize window.toInt n = .ok w) :
    w = window.toNat + n ∧ window.toNat + n ≤ maxWindow := by
  rw [toInt_of_range h] at hadd
  rw [maxWindow] at h ⊢
  unfold addWindowSize wouldAddOverflow INT32_MAX at hadd
  split at hadd
  · cases hadd
  · split at hadd
    · omega
    · split at hadd
      · cases hadd
      · rename_i hfits
        cases hadd
        simp only [decide_eq_true_eq, not_lt] at hfits
        exact ⟨rfl, by omega⟩

/-- An increment of nothing is refused, and so is one that takes the window over its bound. -/
theorem addWindowSize_error {window : BitVec 32} (h : window.toNat ≤ maxWindow) {n : Nat}
    (hn : n = 0 ∨ maxWindow < window.toNat + n) :
    ∃ e, addWindowSize window.toInt n = .error e := by
  rw [toInt_of_range h]
  rw [maxWindow] at h hn
  unfold addWindowSize wouldAddOverflow INT32_MAX
  by_cases hsmall : (n : Int) < 1
  · exact ⟨_, if_pos hsmall⟩
  · have hover : (2 ^ 31 - 1 - (window.toNat : Int) < n) := by omega
    rw [if_neg hsmall, if_neg (by omega), if_pos (decide_eq_true hover)]
    exact ⟨_, rfl⟩

/-- The rejection, for a window in range. -/
theorem rejects_of_range {s : Impl} (hrange : s.windowSize_.toNat ≤ maxWindow)
    {header : FrameHeader} (hcurrent : s.currentFrameHeader_ = some header)
    (hwidens : Widens header) (hlength : header.length = 4) (hbuf : 4 ≤ s.buf.length)
    (hbad : increment (s.buf.take 4) = 0 ∨
      maxWindow < s.windowSize_.toNat + increment (s.buf.take 4)) :
    ∃ e t, processFrameBody s = .error e t ∧ t.windowSize_ = s.windowSize_ ∧
      t.windowUpdateReceived_ = s.windowUpdateReceived_ := by
  have h4 : header.length.toNat = 4 := by
    rw [hlength]
    rfl
  have htake : (s.buf.take 4).length = 4 := by
    rw [List.length_take]
    omega
  obtain ⟨e, he⟩ := addWindowSize_error hrange hbad
  rw [← readWindowSize_eq htake] at he
  have hhandler : handler header (recorded header s) =
      .error (rethrow "connection error: " e) (recorded header s) := by
    have hupdate : handler header (recorded header s) =
        receiveWindowUpdate header (recorded header s) := by
      unfold handler
      rw [hwidens.1]
      rfl
    have hlen : header.length.toNat ≤ (recorded header s).buf.length := by
      rw [h4]
      exact hbuf
    rw [hupdate, receiveWindowUpdate_eq hlength hlen, if_pos hwidens.2, h4]
    exact addConnectionWindowSize_error he
  refine ⟨rethrow "connection error: " e, recorded header s, ?_, rfl, rfl⟩
  rw [processFrameBody_eq hcurrent (by omega), Steady.bind_apply, hhandler]

/-! ## Runs -/

/-- The flag is up once there has been a WINDOW_UPDATE for the connection. -/
theorem updated_iff {settings : Settings} {s : Impl} (h : Passes (Impl.new settings) s) :
    s.windowUpdateReceived_ = true ↔ ∃ f ∈ s.handled, Widens f.1 := by
  induction h with
  | refl =>
      refine iff_of_false Bool.false_ne_true ?_
      rintro ⟨f, hf, -⟩
      cases hf
  | tail _ hstep ih =>
      rcases hstep.cases with hsame | ⟨header, payload, haccepts⟩
      · rw [hsame.updated, hsame.handled, ih]
      · rw [haccepts.handled]
        simp only [List.mem_append, List.mem_singleton, or_and_right, exists_or, exists_eq_left]
        cases haccepts.effect with
        | sets frame settings read settings_eq window updated =>
            have hno : ¬ Widens header := by
              rintro ⟨htype, -⟩
              rw [frame.1] at htype
              cases htype
            rw [updated, ih, or_iff_left hno]
        | widens frame size windowSize added settings_eq window updated =>
            exact iff_of_true updated (.inr frame)
        | other no_settings no_update settings_eq window updated =>
            rw [updated, ih, or_iff_left no_update]

theorem not_widens_of_sets {header : FrameHeader} (h : Sets header) : ¬ Widens header := by
  rintro ⟨htype, -⟩
  rw [h.1] at htype
  cases htype

theorem increments_eq_zero {handled : List (FrameHeader × Bytes)}
    (h : ∀ f ∈ handled, ¬ Widens f.1) : increments handled = 0 := by
  have hnone : (handled.filter fun f => Widens f.1) = [] := by
    rw [List.filter_eq_nil_iff]
    intro f hf
    simpa using h f hf
  rw [increments, hnone]
  rfl

theorem NoWindowSetting.front {p handled : List (FrameHeader × Bytes)} (hp : p <+: handled)
    (h : NoWindowSetting handled) : NoWindowSetting p :=
  fun before header payload hbefore => h before header payload (hbefore.trans hp)

/-- The window and its bound, as long as no SETTINGS frame interferes. -/
theorem window_of_noSetting {settings : Settings} {s : Impl} (h : Passes (Impl.new settings) s)
    (hno : NoWindowSetting s.handled) :
    s.windowSize_.toNat = 65535 + increments s.handled ∧ s.windowSize_.toNat ≤ maxWindow := by
  induction h with
  | refl =>
      have hinitial : (65535#32).toNat ≤ maxWindow := by decide
      exact ⟨rfl, hinitial⟩
  | @tail s t hbefore hstep ih =>
      rcases hstep.cases with hsame | ⟨header, payload, haccepts⟩
      · rw [hsame.handled] at hno ⊢
        rw [hsame.window]
        exact ih hno
      · have hfront : s.handled <+: t.handled := by
          rw [haccepts.handled]
          exact List.prefix_append _ _
        obtain ⟨hwindow, hrange⟩ := ih (hno.front hfront)
        rw [haccepts.handled, increments_append]
        cases haccepts.effect with
        | sets frame settings' read settings_eq window updated =>
            rw [if_neg (not_widens_of_sets frame), window]
            by_cases hflag : s.windowUpdateReceived_ = true
            · rw [if_pos hflag]
              exact ⟨hwindow, hrange⟩
            · -- nothing has come before, and the frame says nothing
              have hnone : ∀ f ∈ s.handled, ¬ Widens f.1 := fun f hf hw =>
                hflag ((updated_iff hbefore).mpr ⟨f, hf, hw⟩)
              have hentry := hno s.handled header payload (by rw [haccepts.handled]) frame hnone
              rw [if_neg hflag, createFromBuffer_ok read,
                createFromBuffer_loop_value (by decide) (by decide), hentry,
                increments_eq_zero hnone]
              exact ⟨rfl, by decide⟩
        | widens frame size w added settings_eq window updated =>
            have hpayload : payload.length = 4 := by
              rw [haccepts.payload_eq, List.length_take, Nat.min_eq_left haccepts.length, size]
              rfl
            rw [readWindowSize_eq hpayload] at added
            obtain ⟨rfl, hle⟩ := addWindowSize_ok hrange added
            have hnat : (BitVec.ofInt 32 ((s.windowSize_.toNat : Int) + increment payload)).toNat =
                s.windowSize_.toNat + increment payload := by
              rw [← Int.natCast_add, BitVec.ofInt_natCast, BitVec.toNat_ofNat]
              rw [maxWindow] at hle
              omega
            rw [if_pos frame, window, hnat]
            exact ⟨by omega, hle⟩
        | other no_settings no_update settings_eq window updated =>
            rw [if_neg no_update, window]
            exact ⟨hwindow, hrange⟩

/-- Behind a SETTINGS frame in front of the first WINDOW_UPDATE the window is what
was read for the initial window size. -/
theorem window_of_setting {settings : Settings} {s : Impl} (h : Passes (Impl.new settings) s)
    {before : List (FrameHeader × Bytes)} {header : FrameHeader} {payload : Bytes}
    (hhandled : s.handled = before ++ [(header, payload)]) (hsets : Sets header)
    (hnone : ∀ f ∈ before, ¬ Widens f.1) :
    s.windowSize_ =
      (Settings.createFromBuffer_loop payload {}).value Settings.InitialWindowSize := by
  induction h with
  | refl =>
      have := congrArg List.length hhandled
      simp [Impl.new] at this
  | @tail s t hbefore hstep ih =>
      rcases hstep.cases with hsame | ⟨header', payload', haccepts⟩
      · rw [hsame.window]
        exact ih (hsame.handled ▸ hhandled)
      · rw [haccepts.handled] at hhandled
        obtain ⟨rfl, hlast⟩ := List.append_inj' hhandled rfl
        cases hlast
        have hflag : ¬ s.windowUpdateReceived_ = true := by
          rw [updated_iff hbefore]
          rintro ⟨f, hf, hw⟩
          exact hnone f hf hw
        cases haccepts.effect with
        | sets frame settings' read settings_eq window updated =>
            rw [window, if_neg hflag, createFromBuffer_ok read]
        | widens frame size w added settings_eq window updated =>
            exact absurd frame (not_widens_of_sets hsets)
        | other no_settings no_update settings_eq window updated => exact absurd hsets no_settings

/-- In every state up to `s` the window is 65535 and the increments so far, within
its bounds, no SETTINGS frame has changed it and bad increments are rejected,
exactly when no SETTINGS frame in front of the first WINDOW_UPDATE has an initial
window size. -/
theorem connection_window_iff {settings : Settings} {s : Impl} (h : Passes (Impl.new settings) s) :
    ((∀ s', Passes (Impl.new settings) s' → Passes s' s → WindowRight s') ∧
      ∀ s' t header payload, Passes (Impl.new settings) s' → Leads s' t → Passes t s →
        Accepts s' t header payload → header.type = FrameType.SETTINGS →
        t.windowSize_ = s'.windowSize_) ↔
      NoWindowSetting s.handled := by
  constructor
  · rintro ⟨hall, -⟩ before header payload hpre hsets hnone
    by_contra hsome
    obtain ⟨octets, hoctets⟩ := Option.ne_none_iff_exists'.mp hsome
    obtain ⟨a, b, c, d, rfl⟩ := lastOctets_four hoctets
    obtain ⟨u, hu, hus, hhandled⟩ := passes_handled h (List.nil_prefix (l := _)) hpre
    have hwindow := window_of_setting hu hhandled hsets hnone
    rw [createFromBuffer_loop_value (by decide) (by decide), hoctets] at hwindow
    have hright := (hall u hu hus).window
    rw [hhandled, increments_append, if_neg (not_widens_of_sets hsets),
      increments_eq_zero hnone, hwindow] at hright
    exact readOctets_ne_initial a b c d (BitVec.eq_of_toNat_eq hright)
  · intro hno
    have hright : ∀ s', Passes (Impl.new settings) s' → Passes s' s → WindowRight s' := by
      intro s' hs' hs
      obtain ⟨hwindow, hrange⟩ := window_of_noSetting hs' (hno.front (handled_grows hs))
      exact ⟨hwindow, hrange, fun header hcurrent hwidens hlength hbuf hbad =>
        rejects_of_range hrange hcurrent hwidens hlength hbuf hbad⟩
    refine ⟨hright, ?_⟩
    intro s' t header payload hs' hstep ht haccepts htype
    have hs := (hright s' hs' (.head hstep ht)).window
    have htr := (hright t (hs'.tail hstep) ht).window
    have hwidens : ¬ Widens header := by
      rintro ⟨hw, -⟩
      rw [htype] at hw
      cases hw
    rw [haccepts.handled, increments_append, if_neg hwidens, Nat.add_zero] at htr
    exact BitVec.eq_of_toNat_eq (htr.trans hs.symm)

/-- A frame in front of others. -/
theorem NoWindowSetting.cons {f : FrameHeader × Bytes} {handled : List (FrameHeader × Bytes)}
    (hf : Sets f.1 → lastOctets Settings.InitialWindowSize (entries f.2) = none)
    (hrest : ¬ Widens f.1 → NoWindowSetting handled) : NoWindowSetting (f :: handled) := by
  intro before header payload hpart hsets hnone
  rcases before with _ | ⟨first, before⟩
  · obtain ⟨rfl, -⟩ := List.cons_prefix_cons.mp hpart
    exact hf hsets
  · obtain ⟨rfl, htail⟩ := List.cons_prefix_cons.mp hpart
    rw [List.forall_mem_cons] at hnone
    exact hrest hnone.1 before header payload htail hsets hnone.2

/-- SETTINGS for the header table, a WINDOW_UPDATE, SETTINGS for the window of streams, which
come too late to do anything to the window of the connection, and another WINDOW_UPDATE. -/
def updateFrames : List (FrameHeader × Bytes) :=
  [(tableSizeFrame, [0, 1, 0, 0, 0, 2]), windowUpdate, (tableSizeFrame, [0, 4, 0, 0, 0, 0]),
    windowUpdate]

/-- A transport that has read them. -/
def updated : Impl := (run [CLIENT_PREFACE ++ encode updateFrames] (Impl.new {})).1

theorem connection_window_updates : WindowRight updated ∧ updated.windowSize_ = 65537 := by
  have hpasses : Passes (Impl.new {}) updated := passes_run (by decide +kernel)
  have hhandled : updated.handled = updateFrames := by decide +kernel
  refine ⟨((connection_window_iff hpasses).mpr ?_).1 _ hpasses .refl, by decide +kernel⟩
  rw [hhandled]
  exact .cons (fun _ => by decide) fun _ => .cons (fun hsets => absurd hsets.1 (by decide))
    fun hnot => absurd ⟨rfl, rfl⟩ hnot

/-- A SETTINGS frame for the initial window size of streams closes the window of
the connection. -/
theorem connection_window_zero :
    ¬ ∀ (settings : Settings) (s : Impl), Passes (Impl.new settings) s → WindowRight s := by
  intro h
  have hpasses : Passes (Impl.new {}) (tookSettings (Impl.new {}) tableSizeFrame [0, 4, 0, 0, 0, 0]) :=
    passes_settings rfl rfl rfl rfl ⟨rfl, rfl⟩ rfl
  exact absurd (h {} _ hpasses).window (by decide)

end ServerTransport

end Shitty.Http2
