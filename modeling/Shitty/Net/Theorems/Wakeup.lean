import Shitty.Net.Theorems.Wire

/-!
# Wake-ups for queued output

`send_immediate` queues what the kernel has not taken, and leaves the epoll registration
as it was. The one function that changes the registration is only called with an empty
queue, so `EPOLLOUT` is never asked for. Output that waits is woken up in all states of
a run exactly when each payload that is sent while nothing waits is accepted to its end,
or an error comes before it.
-/

namespace Shitty.Net

open Lib

/-- Output that waits on an open connection has a wake-up. -/
def WokenUp (c : Connection) : Prop :=
  c.isOpen = true → c.outgoing_.empty = false → c.pollOut = true

/-- The octets the kernel is ready to accept in one call. -/
def Reply.octets : Reply → Nat
  | .accepts more => more + 1
  | .again => 0
  | .failed => 0

/-- The octets it is ready to accept in `n` calls, from some call on. -/
def accepted (kernel : Nat → Reply) (call : Nat) : (n : Nat) → Nat
  | 0 => 0
  | n + 1 => (kernel call).octets + accepted kernel (call + 1) n

/-- The kernel does not answer `EAGAIN` behind some calls (or none) it has accepted
octets in, before all of `len` octets have been accepted. -/
def AcceptsAll (kernel : Nat → Reply) (call len : Nat) : Prop :=
  ∀ n, (∀ i < n, 0 < (kernel (call + i)).octets) → accepted kernel call n < len →
    kernel (call + n) ≠ .again

/-- When a call is right: a payload sent while nothing waits is accepted to its
end, or an error comes before. -/
def CallDrains (kernel : Nat → Reply) (c : Connection) : Event → Prop
  | .send _ len => c.isOpen = true → c.outgoing_.empty = true → AcceptsAll kernel c.calls len
  | .pollOut => True

/-! ## The registration -/

/-- Neither the registration nor the descriptor is touched. -/
structure Untouched (c c' : Connection) : Prop where
  isOpen : c'.isOpen = c.isOpen
  pollOut : c'.pollOut = c.pollOut

theorem Untouched.trans {c c₁ c₂ : Connection} (h : Untouched c c₁) (h' : Untouched c₁ c₂) :
    Untouched c c₂ := ⟨h'.isOpen.trans h.isOpen, h'.pollOut.trans h.pollOut⟩

theorem sys_send_untouched (kernel : Nat → Reply) (c : Connection) (data : Mem) (o : Offer) :
    Untouched c (sys_send kernel c data o).2 := by
  unfold sys_send
  split
  · simp only [Nat.add_sub_cancel]
    cases kernel c.calls <;> exact ⟨rfl, rfl⟩
  · exact ⟨rfl, rfl⟩

theorem send_immediate_loop_untouched {kernel : Nat → Reply} {data : Mem} {len : Nat}
    (turns : Nat) : ∀ {total_sent : Nat} {c : Connection},
      Untouched c (send_immediate_loop kernel data len turns total_sent c).2.2 := by
  induction turns with
  | zero => exact fun {_ _} => ⟨rfl, rfl⟩
  | succ turns ih =>
      intro total_sent c
      have hsys := sys_send_untouched kernel c data
        { offset := total_sent, count := len + total_sent, size := len }
      rw [send_immediate_loop]
      generalize sys_send kernel c data
        { offset := total_sent, count := len + total_sent, size := len } = r at hsys ⊢
      obtain ⟨s₁, c₁⟩ := r
      rcases s₁ with n | _ | _
      · simp only
        split
        · exact hsys.trans ih
        · exact hsys
      · exact hsys
      · exact hsys

theorem onPollOut_loop_untouched {kernel : Nat → Reply} (turns : Nat) :
    ∀ {c c' : Connection} {s : Sent}, onPollOut_loop kernel turns c = .ok (s, c') →
      Untouched c c' := by
  induction turns with
  | zero =>
      intro c c' s h
      cases h
      exact ⟨rfl, rfl⟩
  | succ turns ih =>
      intro c c' s h
      have hsys := sys_send_untouched kernel c (memOf c.outgoing_.contents)
        { offset := 0, count := c.outgoing_.size, size := c.outgoing_.size }
      rw [onPollOut_loop] at h
      generalize sys_send kernel c (memOf c.outgoing_.contents)
        { offset := 0, count := c.outgoing_.size, size := c.outgoing_.size } = r at hsys h
      obtain ⟨s₁, c₁⟩ := r
      rcases s₁ with n | _ | _
      · simp only at h
        split at h
        · obtain ⟨outgoing_, -, h⟩ := bind_eq_ok.mp h
          have hadvanced : Untouched c { c₁ with outgoing_ := outgoing_ } :=
            ⟨hsys.isOpen, hsys.pollOut⟩
          split at h
          · cases h
            exact hadvanced
          · exact hadvanced.trans (ih h)
        · cases h
          exact hsys
      · cases h
        exact hsys
      · cases h
        exact hsys

/-- `EPOLLOUT` is never asked for, and a closed connection stays closed. -/
structure Deaf (c c' : Connection) : Prop where
  pollOut : c'.pollOut = false
  isOpen : c'.isOpen = true → c.isOpen = true

theorem updateSubscription_deaf {c c' : Connection} (hempty : c.outgoing_.empty = true)
    (h : updateSubscription c = .ok c') : Deaf c c' := by
  unfold updateSubscription at h
  split at h
  · rename_i hopen
    cases h
    refine ⟨?_, fun _ => hopen⟩
    rw [hempty]
    rfl
  · cases h

theorem onPollOut_deaf {kernel : Nat → Reply} {c c' : Connection} (h : c.pollOut = false)
    (hstep : onPollOut kernel c = .ok c') : Deaf c c' := by
  unfold onPollOut at hstep
  split at hstep
  · rename_i hempty
    exact updateSubscription_deaf hempty hstep
  · obtain ⟨⟨s, c₁⟩, hloop, hstep⟩ := bind_eq_ok.mp hstep
    have hkept := onPollOut_loop_untouched _ hloop
    simp only at hstep
    split at hstep
    · cases hstep
      exact ⟨rfl, fun hopen => by cases hopen⟩
    · split at hstep
      · rename_i hempty
        have hdeaf := updateSubscription_deaf hempty hstep
        exact ⟨hdeaf.pollOut, fun hopen => hkept.isOpen ▸ hdeaf.isOpen hopen⟩
      · cases hstep
        exact ⟨hkept.pollOut.trans h, fun hopen => hkept.isOpen ▸ hopen⟩

theorem step_deaf {kernel : Nat → Reply} {c c' : Connection} {e : Event}
    (h : c.pollOut = false) (hstep : step kernel c e = .ok c') : Deaf c c' := by
  cases e with
  | pollOut => exact onPollOut_deaf h hstep
  | send data len =>
      simp only [step, send] at hstep
      split at hstep
      · cases hstep
        have hkept := @send_immediate_loop_untouched kernel data len (len + 1) 0 c
        unfold send_immediate
        generalize send_immediate_loop kernel data len (len + 1) 0 c = r at hkept ⊢
        obtain ⟨s, total_sent, c₁⟩ := r
        simp only
        split
        · exact ⟨rfl, fun hopen => by cases hopen⟩
        · split <;> exact ⟨hkept.pollOut.trans h, fun hopen => hkept.isOpen ▸ hopen⟩
      · have hdeaf := onPollOut_deaf
          (c := { c with outgoing_ := c.outgoing_.write (data.read 0 len) }) h hstep
        exact ⟨hdeaf.pollOut, hdeaf.isOpen⟩

/-! ## Sending at once -/

theorem sys_send_calls (kernel : Nat → Reply) {c : Connection} (h : c.isOpen = true)
    (data : Mem) (o : Offer) : (sys_send kernel c data o).2.calls = c.calls + 1 := by
  unfold sys_send
  rw [if_pos h]
  simp only [Nat.add_sub_cancel]
  cases kernel c.calls <;> rfl

/-- The first call answered, and the others. -/
theorem acceptsAll_step {kernel : Nat → Reply} {call len : Nat} (hlen : 0 < len) :
    AcceptsAll kernel call len ↔ kernel call ≠ .again ∧
      ∀ more, kernel call = .accepts more → more + 1 < len →
        AcceptsAll kernel (call + 1) (len - (more + 1)) := by
  constructor
  · intro h
    refine ⟨h 0 (fun i hi => absurd hi (Nat.not_lt_zero i)) hlen, ?_⟩
    intro more hmore hpart n hn hsum
    rw [Nat.add_right_comm]
    refine h (n + 1) ?_ ?_
    · rintro (_ | i) hi
      · rw [Nat.add_zero, hmore]
        exact Nat.succ_pos more
      · rw [← Nat.add_assoc, Nat.add_right_comm]
        exact hn i (by omega)
    · rw [accepted, hmore, Reply.octets]
      omega
  · rintro ⟨hfirst, hothers⟩ n hn hsum
    rcases n with _ | n
    · exact hfirst
    · have hpos := hn 0 (Nat.succ_pos n)
      rw [Nat.add_zero] at hpos
      rcases hk : kernel call with more | _ | _
      · rw [accepted, hk, Reply.octets] at hsum
        rw [← Nat.add_assoc, Nat.add_right_comm]
        refine hothers more hk (by omega) n ?_ (by omega)
        intro i hi
        have := hn (i + 1) (by omega)
        rwa [← Nat.add_assoc, Nat.add_right_comm] at this
      · rw [hk] at hpos
        cases hpos
      · rw [hk] at hpos
        cases hpos

/-- What the loop of `send_immediate` comes to: `EAGAIN` with octets left exactly
when the kernel answers so before it has accepted all of them. -/
theorem send_immediate_loop_again_iff {kernel : Nat → Reply} {data : Mem} {len : Nat}
    (turns : Nat) : ∀ {total_sent : Nat} {c : Connection}, c.isOpen = true →
      total_sent < len → len - total_sent < turns →
      (((send_immediate_loop kernel data len turns total_sent c).1 = .again ∧
        (send_immediate_loop kernel data len turns total_sent c).2.1 < len) ↔
          ¬ AcceptsAll kernel c.calls (len - total_sent)) := by
  induction turns with
  | zero =>
      intro total_sent c _ _ hturns
      omega
  | succ turns ih =>
      intro total_sent c hopen hleft hturns
      have hresult := sys_send_result kernel hopen data
        { offset := total_sent, count := len + total_sent, size := len }
      have hcalls := sys_send_calls kernel hopen data
        { offset := total_sent, count := len + total_sent, size := len }
      have hkept := sys_send_untouched kernel c data
        { offset := total_sent, count := len + total_sent, size := len }
      rw [acceptsAll_step (by omega), send_immediate_loop]
      generalize sys_send kernel c data
        { offset := total_sent, count := len + total_sent, size := len } = r at hresult hcalls hkept ⊢
      obtain ⟨s₁, c₁⟩ := r
      simp only at hresult hcalls
      rcases hk : kernel c.calls with more | _ | _
      · rw [hk] at hresult
        subst hresult
        simp only
        by_cases hpart : total_sent + min (len + total_sent) (more + 1) < len
        · -- there is more to send
          have hmin : min (len + total_sent) (more + 1) = more + 1 := by omega
          rw [hmin] at hpart ⊢
          rw [if_pos ⟨Nat.succ_pos more, hpart⟩,
            ih (hkept.isOpen.trans hopen) hpart (by omega), hcalls]
          have hrest : len - (total_sent + (more + 1)) = len - total_sent - (more + 1) := by omega
          simp [hrest, show more + 1 < len - total_sent by omega]
        · rw [if_neg fun h => hpart h.2]
          -- all has been sent
          simp only [reduceCtorEq, false_and, ne_eq, not_false_eq_true, true_and, false_iff,
            not_not]
          intro more' hmore' hlt
          cases hmore'
          omega
      · rw [hk] at hresult
        subst hresult
        simp [hleft]
      · rw [hk] at hresult
        subst hresult
        simp

/-- The loop leaves the queue alone, and does not stop behind an acceptance with
octets left. -/
theorem send_immediate_loop_stops {kernel : Nat → Reply} {data : Mem} {len : Nat} (turns : Nat) :
    ∀ {total_sent : Nat} {c : Connection} {s : Sent} {total_sent' : Nat} {c' : Connection},
      send_immediate_loop kernel data len turns total_sent c = (s, total_sent', c') →
      c'.outgoing_ = c.outgoing_ ∧
        (s = .count 0 ∨ s = .failed ∨ s = .again ∨ len ≤ total_sent') := by
  induction turns with
  | zero =>
      intro total_sent c s total_sent' c' h
      cases h
      exact ⟨rfl, .inl rfl⟩
  | succ turns ih =>
      intro total_sent c s total_sent' c' h
      have hsys := (sys_send_spec kernel c data
        { offset := total_sent, count := len + total_sent, size := len }).outgoing
      rw [send_immediate_loop] at h
      generalize sys_send kernel c data
        { offset := total_sent, count := len + total_sent, size := len } = r at hsys h
      obtain ⟨s₁, c₁⟩ := r
      rcases s₁ with n | _ | _
      · simp only at h
        by_cases hmore : 0 < n ∧ total_sent + n < len
        · rw [if_pos hmore] at h
          obtain ⟨hout, hstop⟩ := ih h
          exact ⟨hout.trans hsys, hstop⟩
        · rw [if_neg hmore] at h
          cases h
          refine ⟨hsys, ?_⟩
          rcases Nat.eq_zero_or_pos n with rfl | hpos
          · exact .inl rfl
          · exact .inr (.inr (.inr (by omega)))
      · cases h
        exact ⟨hsys, .inr (.inr (.inl rfl))⟩
      · cases h
        exact ⟨hsys, .inr (.inl rfl)⟩

theorem write_not_empty {b : StreamBuf} {bs : Bytes} (h : bs ≠ []) : (b.write bs).empty = false := by
  rw [← Bool.not_eq_true, StreamBuf.empty_iff, StreamBuf.contents_write]
  simp [h]

/-- A payload sent while nothing waits: something waits afterwards exactly when the
kernel has answered `EAGAIN` too early. -/
theorem send_immediate_drains_iff {kernel : Nat → Reply} {data : Mem} {len : Nat} {c : Connection}
    (hopen : c.isOpen = true) (hempty : c.outgoing_.empty = true) :
    ((send_immediate kernel data len c).isOpen = true →
      (send_immediate kernel data len c).outgoing_.empty = true) ↔
        AcceptsAll kernel c.calls len := by
  have hagain : 0 < len →
      (((send_immediate_loop kernel data len (len + 1) 0 c).1 = .again ∧
        (send_immediate_loop kernel data len (len + 1) 0 c).2.1 < len) ↔
          ¬ AcceptsAll kernel c.calls len) := fun hlen =>
    send_immediate_loop_again_iff (len + 1) hopen hlen (by omega)
  have hnothing : len = 0 → AcceptsAll kernel c.calls len := by
    rintro rfl n _ hsum
    exact absurd hsum (Nat.not_lt_zero _)
  have hkept := @send_immediate_loop_untouched kernel data len (len + 1) 0 c
  unfold send_immediate
  rcases hloop : send_immediate_loop kernel data len (len + 1) 0 c with ⟨s, total_sent, c₁⟩
  obtain ⟨hout, hstop⟩ := send_immediate_loop_stops _ hloop
  rw [hloop] at hagain hkept
  simp only at hagain ⊢
  -- octets are left behind `EAGAIN` only
  by_cases hqueued : s = .again ∧ total_sent < len
  · obtain ⟨rfl, hpart⟩ := hqueued
    have hdata : data.read total_sent (len - total_sent) ≠ [] := by
      intro hnil
      have := congrArg List.length hnil
      rw [Mem.length_read] at this
      simp at this
      omega
    rw [if_neg (by simp), if_pos hpart]
    refine iff_of_false ?_ ((hagain (by omega)).mp ⟨rfl, hpart⟩)
    intro h
    have := h (hkept.isOpen.trans hopen)
    rw [write_not_empty hdata] at this
    cases this
  · have hall : AcceptsAll kernel c.calls len := by
      rcases Nat.eq_zero_or_pos len with hzero | hlen
      · exact hnothing hzero
      · exact not_not.mp fun h => hqueued ((hagain hlen).mpr h)
    refine iff_of_true ?_ hall
    by_cases hclosed : s = .count 0 ∨ s = .failed
    · rw [if_pos hclosed]
      intro h
      cases h
    · rw [if_neg hclosed, if_neg ?_]
      · intro _
        exact hout ▸ hempty
      · intro hpart
        rcases hstop with h | h | h | h
        · exact hclosed (.inl h)
        · exact hclosed (.inr h)
        · exact hqueued ⟨h, hpart⟩
        · omega

/-! ## Any run -/

/-- A connection with something to send is woken up in the state that any history leads to. -/
def AlwaysWokenUp (kernel : Nat → Reply) (events : List Event) : Prop :=
  ∀ c, runConnection kernel events = .ok c → WokenUp c

theorem run_pollOut {kernel : Nat → Reply} (events : List Event) {c : Connection}
    (h : runConnection kernel events = .ok c) : c.pollOut = false :=
  Run.invariant (P := fun c => c.pollOut = false) rfl
    (fun _ _ _ hc hstep => (step_deaf hc hstep).pollOut) events c h

/-- Without a wake-up nothing may wait. -/
theorem wokenUp_iff {c : Connection} (h : c.pollOut = false) :
    WokenUp c ↔ (c.isOpen = true → c.outgoing_.empty = true) := by
  unfold WokenUp
  rw [h]
  simp

theorem onPollOut_nothing {kernel : Nat → Reply} {c c' : Connection}
    (hempty : c.outgoing_.empty = true) (h : onPollOut kernel c = .ok c') :
    c'.outgoing_.empty = true := by
  rw [onPollOut, if_pos hempty] at h
  unfold updateSubscription at h
  split at h
  · cases h
    exact hempty
  · cases h

/-- In every state of a run output that waits on an open connection has a wake-up,
exactly when no payload sent while nothing waits meets an `EAGAIN` before it has
been accepted to its end. -/
theorem output_wokenUp_iff (kernel : Nat → Reply) (events : List Event) :
    (∀ p, p <+: events → AlwaysWokenUp kernel p) ↔
      ∀ p e, p ++ [e] <+: events → ∀ c, runConnection kernel p = .ok c →
        CallDrains kernel c e := by
  refine Run.always_iff ?_ ?_
  · intro c hc
    cases hc
    exact fun _ h => by cases h
  · intro p e _ hbefore
    have hp := hbefore p List.prefix_rfl
    constructor
    · intro hafter c hc
      rcases e with ⟨data, len⟩ | _
      · intro hopen hempty
        have hrun : runConnection kernel (p ++ [.send data len]) =
            .ok (send_immediate kernel data len c) := by
          rw [runConnection, Run.run_snoc, ← runConnection, hc]
          show Net.send kernel data len c = _
          rw [Net.send, if_pos hempty]
        have hdrains : _ ↔ AcceptsAll kernel c.calls len :=
          @send_immediate_drains_iff kernel data len c hopen hempty
        exact hdrains.mp ((wokenUp_iff (run_pollOut _ hrun)).mp (hafter _ hrun))
      · trivial
    · intro hright c' hc'
      obtain ⟨c, hc, hstep⟩ := Run.run_snoc_ok hc'
      have hquiet := (wokenUp_iff (run_pollOut p hc)).mp (hp c hc)
      have hdeaf := step_deaf (run_pollOut p hc) hstep
      rw [wokenUp_iff hdeaf.pollOut]
      intro hopen'
      -- what is open now was open before, with nothing waiting
      have hopen := hdeaf.isOpen hopen'
      have hempty := hquiet hopen
      rcases e with ⟨data, len⟩ | _
      · simp only [step, send, if_pos hempty] at hstep
        cases hstep
        exact (send_immediate_drains_iff hopen hempty).mpr (hright c hc hopen hempty) hopen'
      · exact onPollOut_nothing hempty hstep

/-- One octet for a kernel that takes none now. -/
theorem output_not_wokenUp :
    ¬ ∀ (kernel : Nat → Reply) (events : List Event), AlwaysWokenUp kernel events := by
  intro h
  have hpollOut := h (fun _ => .again) [.send (memOf [0x61#8]) 1] _ rfl rfl (by decide)
  cases hpollOut

end Shitty.Net
