import Shitty.Net.Theorems.Wire
import Shitty.Server.Logic.Dispatch

/-!
# What is done for one connection

The reads of a connection, as far as the transports take what is read, and the commands
that come of them, raise no error and touch no other connection. Commands are for the
connection that is read from, and so all that they change is there. The other
connections keep their descriptors and stay registered.
-/

namespace Shitty.Net

/-! ## Sending raises no error -/

/-- No more is taken off the queue than there is. -/
theorem onPollOut_loop_returns {kernel : Nat → Reply} (turns : Nat) :
    ∀ c : Connection, ∃ r, onPollOut_loop kernel turns c = .ok r := by
  induction turns with
  | zero => exact fun c => ⟨_, rfl⟩
  | succ turns ih =>
      intro c
      have hspec := sys_send_spec kernel c (memOf c.outgoing_.contents)
        { offset := 0, count := c.outgoing_.size, size := c.outgoing_.size }
      rw [onPollOut_loop]
      generalize sys_send kernel c (memOf c.outgoing_.contents)
        { offset := 0, count := c.outgoing_.size, size := c.outgoing_.size } = r at hspec ⊢
      obtain ⟨s₁, c₁⟩ := r
      have hout : c₁.outgoing_ = c.outgoing_ := hspec.outgoing
      rcases s₁ with n | _ | _
      · have hcount : n ≤ c₁.outgoing_.size := hout ▸ hspec.count
        obtain ⟨outgoing_, hadvance, -⟩ := StreamBuf.advance_ok hcount
        simp only [hadvance]
        by_cases hn : 0 < n
        · rw [if_pos hn]
          by_cases hempty : outgoing_.empty = true
          · exact ⟨_, if_pos hempty⟩
          · obtain ⟨r, hr⟩ := ih { c₁ with outgoing_ := outgoing_ }
            exact ⟨r, (if_neg hempty).trans hr⟩
        · exact ⟨_, if_neg hn⟩
      · exact ⟨_, rfl⟩
      · exact ⟨_, rfl⟩

/-- `epoll_ctl` is called for a connection that is open. -/
theorem updateSubscription_returns {c : Connection} (h : c.isOpen = true) :
    ∃ c', updateSubscription c = .ok c' := ⟨_, if_pos h⟩

/-- On a connection that has been closed, the first call fails, where there is one. -/
theorem onPollOut_loop_closed {kernel : Nat → Reply} {c : Connection} (h : c.isOpen = false)
    (hout : c.outgoing_.empty = false) :
    onPollOut_loop kernel c.outgoing_.size c = .ok (.failed, c) := by
  have hsize : c.outgoing_.size ≠ 0 := by
    rw [StreamBuf.empty, beq_eq_false_iff_ne] at hout
    exact hout
  obtain ⟨turns, hturns⟩ := Nat.exists_eq_succ_of_ne_zero hsize
  rw [hturns, onPollOut_loop]
  unfold sys_send
  rw [h]
  rfl

theorem onPollOut_returns {kernel : Nat → Reply} {c : Connection}
    (h : c.isOpen = true ∨ c.outgoing_.empty = false) : ∃ c', onPollOut kernel c = .ok c' := by
  unfold onPollOut
  cases hopen : c.isOpen with
  | false =>
      have hout : c.outgoing_.empty = false := h.resolve_left (by rw [hopen]; exact nofun)
      rw [hout, onPollOut_loop_closed hopen hout]
      exact ⟨close c, rfl⟩
  | true =>
      by_cases hempty : c.outgoing_.empty = true
      · rw [if_pos hempty]
        exact updateSubscription_returns hopen
      rw [if_neg hempty]
      obtain ⟨⟨sent, c₁⟩, hloop⟩ := @onPollOut_loop_returns kernel c.outgoing_.size c
      have hstill : c₁.isOpen = true := (onPollOut_loop_untouched _ hloop).isOpen ▸ hopen
      rw [hloop]
      by_cases hfailed : sent = .failed
      · exact ⟨_, if_pos hfailed⟩
      by_cases hsent : c₁.outgoing_.empty = true
      · obtain ⟨c', hc'⟩ := updateSubscription_returns hstill
        exact ⟨c', (if_neg hfailed).trans ((if_pos hsent).trans hc')⟩
      · exact ⟨_, (if_neg hfailed).trans (if_neg hsent)⟩

theorem send_returns (kernel : Nat → Reply) (data : Mem) (len : Nat) (c : Connection) :
    ∃ c', send kernel data len c = .ok c' := by
  unfold send
  by_cases hempty : c.outgoing_.empty = true
  · exact ⟨_, if_pos hempty⟩
  · rw [if_neg hempty]
    refine onPollOut_returns (.inr ?_)
    rw [Bool.eq_false_iff, ne_eq, StreamBuf.empty_iff, StreamBuf.contents_write]
    rw [StreamBuf.empty_iff] at hempty
    exact fun h => hempty (List.append_eq_nil_iff.mp h).1

end Shitty.Net

namespace Shitty.Server

open Lib

/-- The connection a command is for, one that is there. -/
def Command.IsFor (a : Addr) : Command → Prop
  | .send b _ => b = a
  | .close b => b = a
  | .connect _ => False

/-- Transports that do something to the connection they are called for only, and raise no
error where they take the input. -/
structure Transports.Serves {σ : Type} (t : Transports σ) (Takes : Addr → Bytes → σ → Prop) :
    Prop where
  own : ∀ a piece next world result, t.onInput a piece next world = .ok result →
    ∀ command ∈ result.1, command.IsFor a
  takes : ∀ a piece next world,
    (∃ result, t.onInput a piece next world = .ok result) ↔ Takes a piece world

namespace Impl

variable {σ : Type} {t : Transports σ} {kernel : Addr → Nat → Net.Reply}

/-! ## The other connections -/

/-- The connection is open, and its descriptor in the interest list. -/
def InService (s : Impl σ) (b : Addr) : Prop :=
  ∃ v, s.view b = some v ∧ v.isOpen = true ∧ (v.fd, .connection b) ∈ s.registered

theorem isOpen_iff {s : Impl σ} {b : Addr} :
    s.isOpen b = true ↔ ∃ v, s.view b = some v ∧ v.isOpen = true := by
  unfold isOpen view
  cases s.connections b with
  | none => simp
  | some c => simp [Connection.view]

/-- Only one connection is touched, and it is not opened again. What is open and has been
in service still is. -/
structure Spares (a : Addr) (s s' : Impl σ) : Prop where
  others : ∀ b, b ≠ a → s'.view b = s.view b
  closed : s'.isOpen a = true → s.isOpen a = true
  inService : ∀ b, s'.isOpen b = true → s.InService b → s'.InService b

namespace Spares

variable {a : Addr} {s s' s'' : Impl σ}

theorem refl : Spares a s s := ⟨fun _ _ => rfl, id, fun _ _ h => h⟩

theorem wasOpen (h : Spares a s s') {b : Addr} (hb : s'.isOpen b = true) : s.isOpen b = true := by
  by_cases hsame : b = a
  · subst hsame
    exact h.closed hb
  · rw [isOpen_iff, h.others b hsame, ← isOpen_iff] at hb
    exact hb

theorem trans (h : Spares a s s') (h' : Spares a s' s'') : Spares a s s'' where
  others b hb := (h'.others b hb).trans (h.others b hb)
  closed hopen := h.closed (h'.closed hopen)
  inService b hopen hb := h'.inService b hopen (h.inService b (h'.wasOpen hopen) hb)

/-- Nothing is done to any connection. -/
theorem quiet (hview : s'.view = s.view) (hregistered : s'.registered = s.registered) :
    Spares a s s' := by
  refine ⟨fun b _ => congrFun hview b, ?_, ?_⟩
  · rw [isOpen_iff, isOpen_iff, hview]
    exact id
  · rintro b - ⟨v, hv, hrest⟩
    exact ⟨v, hview ▸ hv, hregistered ▸ hrest⟩

end Spares

/-! ## Commands -/

theorem release_keeps {c : Connection} {s : Impl σ} {entry : Fd × Receiver}
    (hmem : entry ∈ s.registered) (hne : entry.1 ≠ c.fd) : entry ∈ (s.release c).registered := by
  unfold release
  simp only
  split
  · simpa [removeConnection] using ⟨hmem, hne⟩
  · simpa [sys_close] using ⟨hmem, hne⟩

/-- When a connection is closed, no other one has its descriptor. -/
theorem call_spares {a : Addr} {f : Net.Connection → Except Exn Net.Connection}
    (hf : ∀ c c', f c = .ok c' → c'.isOpen = true → c.isOpen = true) {s s' : Impl σ} (h : Inv s)
    (hcall : s.call a f = .ok s') : Spares a s s' := by
  obtain ⟨c, net, hc, hnet, hends⟩ := call_cases hcall
  have hv : s.view a = some c.view := by rw [view, hc, Option.map_some]
  have hself : (s.assigned a c net).view a = some { c.view with isOpen := net.isOpen } := by
    rw [assigned_view, Function.update_self]
  have hother : ∀ b, b ≠ a → (s.assigned a c net).view b = s.view b := fun b hb => by
    rw [assigned_view, Function.update_of_ne hb]
  rcases hends with ⟨hopen, hclosed, rfl⟩ | ⟨-, rfl⟩
  · refine ⟨fun b hb => ?_, fun _ => isOpen_iff.mpr ⟨c.view, hv, hopen⟩, ?_⟩
    · rw [release_view]
      exact hother b hb
    · rintro b hb ⟨w, hw, hwopen, hmem⟩
      have hne : b ≠ a := by
        rintro rfl
        rw [isOpen_iff, release_view] at hb
        obtain ⟨w', hw', hwopen'⟩ := hb
        rw [hself] at hw'
        cases hw'
        rw [hclosed] at hwopen'
        cases hwopen'
      have hfd : w.fd ≠ c.fd := h.other hv hw (.inr hopen) (.inr hwopen) hne
      refine ⟨w, ?_, hwopen, release_keeps hmem hfd⟩
      rw [release_view, hother b hne, hw]
  · refine ⟨hother, ?_, ?_⟩
    · rw [isOpen_iff, hself]
      rintro ⟨w, hw, hwopen⟩
      cases hw
      exact isOpen_iff.mpr ⟨c.view, hv, hf _ _ hnet hwopen⟩
    · rintro b hb ⟨w, hw, hwopen, hmem⟩
      by_cases hsame : b = a
      · subst hsame
        rw [hv] at hw
        cases hw
        obtain ⟨w', hw', hwopen'⟩ := isOpen_iff.mp hb
        rw [hself] at hw'
        cases hw'
        exact ⟨_, hself, hwopen', hmem⟩
      · exact ⟨w, (hother b hsame).trans hw, hwopen, hmem⟩

theorem call_returns {a : Addr} {f : Net.Connection → Except Exn Net.Connection} {s : Impl σ}
    (ha : s.view a ≠ none) (hf : ∀ c, s.connections a = some c → ∃ c', f c.toConnection = .ok c') :
    ∃ s', s.call a f = .ok s' := by
  obtain ⟨v, hv⟩ := Option.ne_none_iff_exists'.mp ha
  obtain ⟨c, hc, -⟩ := Option.map_eq_some_iff.mp hv
  obtain ⟨net, hnet⟩ := hf c hc
  unfold call
  rw [hc]
  simp only [hnet]
  exact ⟨_, rfl⟩

theorem perform_spares {a : Addr} {s s' : Impl σ} {command : Command} (hfor : command.IsFor a)
    (h : Inv s) (hperform : perform kernel s command = .ok s') : Spares a s s' := by
  cases command with
  | send b payload =>
      cases hfor
      exact call_spares (fun c c' => Net.send_isOpen) h hperform
  | close b =>
      cases hfor
      have hclose : ∀ c c' : Net.Connection, (.ok (Net.close c) : Except Exn Net.Connection) = .ok c' →
          c'.isOpen = true → c.isOpen = true := by
        intro c c' hclose hopen
        cases hclose
        cases hopen
      exact call_spares hclose h hperform
  | connect descriptor => cases hfor

theorem perform_returns {a : Addr} {s : Impl σ} {command : Command} (hfor : command.IsFor a)
    (ha : s.view a ≠ none) : ∃ s', perform kernel s command = .ok s' := by
  cases command with
  | send b payload =>
      cases hfor
      exact call_returns ha fun c _ => Net.send_returns _ _ _ _
  | close b =>
      cases hfor
      have hclose : ∃ s', s.call a (fun net => .ok (Net.close net)) = .ok s' :=
        call_returns ha fun c _ => ⟨_, rfl⟩
      exact hclose
  | connect descriptor => cases hfor

/-- Commands for one connection, carried out one after the other, return and spare all others. -/
theorem performs_return {a : Addr} (commands : List Command)
    (hfor : ∀ command ∈ commands, command.IsFor a) : ∀ {s : Impl σ}, Inv s → s.view a ≠ none →
      ∃ s', Run.run (perform kernel) s commands = .ok s' ∧ Spares a s s' := by
  induction commands with
  | nil => exact fun _ _ => ⟨_, rfl, .refl⟩
  | cons command commands ih =>
      intro s h ha
      rw [List.forall_mem_cons] at hfor
      obtain ⟨s₁, hperform⟩ := @perform_returns _ kernel _ _ _ hfor.1 ha
      have hchange := perform_change hperform
      obtain ⟨s', hrun, hspares⟩ := ih hfor.2 (h.change hchange) (hchange.stays.1 a ha)
      refine ⟨s', ?_, (perform_spares hfor.1 h hperform).trans hspares⟩
      rw [Run.run_cons, hperform]
      exact hrun

/-! ## Reads -/

section

variable {Takes : Addr → Bytes → σ → Prop} (hserves : t.Serves Takes) {a : Addr}

include hserves

theorem onInput_spares {piece : Bytes} {s : Impl σ} (h : Inv s) (ha : s.view a ≠ none) :
    ((∃ s', onInput t kernel a piece s = .ok s') ↔ Takes a piece s.world) ∧
      ∀ s', onInput t kernel a piece s = .ok s' → Spares a s s' := by
  rw [← hserves.takes a piece s.next s.world]
  unfold onInput
  cases hinput : t.onInput a piece s.next s.world with
  | error e => exact ⟨iff_of_false nofun nofun, nofun⟩
  | ok result =>
      obtain ⟨commands, world⟩ := result
      have hquiet : Change s { s with world := world } := .quiet rfl rfl rfl rfl rfl rfl rfl
      have hown := hserves.own a piece s.next s.world _ hinput
      obtain ⟨s', hrun, hspares⟩ :=
        @performs_return _ kernel _ commands hown _ (h.change hquiet) ha
      simp only
      rw [hrun]
      have hsame : Spares a s { s with world := world } := .quiet rfl rfl
      refine ⟨iff_of_true ⟨s', rfl⟩ ⟨_, rfl⟩, fun s'' hs'' => ?_⟩
      cases hs''
      exact hsame.trans hspares

end

/-- Whatever is read is taken. Nothing is read from a connection that has been closed. -/
def TakesReads (t : Transports σ) (kernel : Addr → Nat → Net.Reply)
    (Takes : Addr → Bytes → σ → Prop) (a : Addr) : List Bytes → Impl σ → Prop
  | [], _ => True
  | piece :: pieces, s => s.isOpen a = true →
      Takes a piece s.world ∧
        ∀ s', onInput t kernel a piece s = .ok s' → TakesReads t kernel Takes a pieces s'

section

variable {Takes : Addr → Bytes → σ → Prop} (hserves : t.Serves Takes) {a : Addr}

include hserves

theorem onPollIn_spares {last : ReadEnd} (pieces : List Bytes) : ∀ {s : Impl σ}, Inv s →
    s.view a ≠ none →
      ((∃ s', onPollIn t kernel a last pieces s = .ok s') ↔
        TakesReads t kernel Takes a pieces s) ∧
      ∀ s', onPollIn t kernel a last pieces s = .ok s' → Spares a s s' := by
  have hclose : ∀ {s : Impl σ}, Inv s → s.view a ≠ none →
      (∃ s', perform kernel s (.close a) = .ok s') ∧
        ∀ s', perform kernel s (.close a) = .ok s' → Spares a s s' := by
    intro s h ha
    have hfor : Command.IsFor a (.close a) := rfl
    exact ⟨perform_returns hfor ha, fun s' hperform => perform_spares hfor h hperform⟩
  induction pieces with
  | nil =>
      intro s h ha
      unfold onPollIn TakesReads
      split
      · refine ⟨iff_of_true ⟨s, rfl⟩ trivial, fun s' hs' => ?_⟩
        cases hs'
        exact .refl
      · exact ⟨iff_of_true (hclose h ha).1 trivial, (hclose h ha).2⟩
  | cons piece pieces ih =>
      intro s h ha
      unfold onPollIn TakesReads
      by_cases hopen : s.isOpen a = true
      swap
      · rw [if_neg hopen]
        exact ⟨iff_of_true (hclose h ha).1 fun hopen' => absurd hopen' hopen, (hclose h ha).2⟩
      rw [if_pos hopen, forall_prop_of_true hopen]
      -- one read, and then those behind it
      obtain ⟨htakes, hspares⟩ := @onInput_spares _ _ kernel _ hserves _ piece _ h ha
      cases hinput : onInput t kernel a piece s with
      | error stop =>
          rw [hinput] at htakes
          refine ⟨iff_of_false ?_ fun htaken => ?_, ?_⟩
          · rintro ⟨s', hs'⟩
            cases hs'
          · obtain ⟨s', hs'⟩ := htakes.mpr htaken.1
            cases hs'
          · intro s' hs'
            cases hs'
      | ok s₁ =>
          have hchanges := onInput_changes hinput
          have hfirst := hspares s₁ hinput
          obtain ⟨hreads, hrest⟩ := ih (h.changes hchanges) (hchanges.stays.1 a ha)
          rw [hinput] at htakes
          rw [and_iff_right (htakes.mp ⟨s₁, rfl⟩)]
          simp only [Except.ok.injEq, forall_eq']
          -- a connection that is closed is not read from again
          by_cases hstill : s₁.isOpen a = true
          · have hnext : (Except.ok s₁ >>= fun s => if s.isOpen a = true then
                onPollIn t kernel a last pieces s else pure s : Except Stop (Impl σ)) =
                onPollIn t kernel a last pieces s₁ := if_pos hstill
            rw [hnext]
            exact ⟨hreads, fun s' hs' => hfirst.trans (hrest s' hs')⟩
          · have hnext : (Except.ok s₁ >>= fun s => if s.isOpen a = true then
                onPollIn t kernel a last pieces s else pure s : Except Stop (Impl σ)) =
                .ok s₁ := if_neg hstill
            rw [hnext]
            refine ⟨iff_of_true ⟨s₁, rfl⟩ ?_, fun s' hs' => by cases hs'; exact hfirst⟩
            cases pieces with
            | nil => exact trivial
            | cons piece' pieces => exact fun hopen' => absurd hopen' hstill

end

end Impl

end Shitty.Server
