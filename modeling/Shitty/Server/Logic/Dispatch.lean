import Shitty.Server.Logic.Descriptors

/-!
# What the loop does to the holders

The dispatch of an event, from the commands of a transport up, and the removal of dead
clients at the end of a batch. What ends the loop is told apart by where it comes from:
the kernel's descriptors, a receiver that is gone, or something behind a connection.
-/

namespace Shitty.Net

/-! ## A closed connection stays closed -/

theorem onPollOut_isOpen {kernel : Nat → Reply} {c c' : Connection}
    (h : onPollOut kernel c = .ok c') (hopen : c'.isOpen = true) : c.isOpen = true := by
  have hupdate : ∀ {c c' : Connection}, updateSubscription c = .ok c' → c.isOpen = true := by
    intro c c' h
    unfold updateSubscription at h
    split at h
    · assumption
    · cases h
  unfold onPollOut at h
  split at h
  · exact hupdate h
  · obtain ⟨⟨sent, c₁⟩, hloop, h⟩ := bind_eq_ok.mp h
    have hkept := onPollOut_loop_untouched _ hloop
    simp only at h
    split at h
    · cases h
      cases hopen
    · split at h
      · exact hkept.isOpen ▸ hupdate h
      · cases h
        exact hkept.isOpen ▸ hopen

theorem send_isOpen {kernel : Nat → Reply} {data : Mem} {len : Nat} {c c' : Connection}
    (h : send kernel data len c = .ok c') (hopen : c'.isOpen = true) : c.isOpen = true := by
  unfold send at h
  split at h
  · have hkept := @send_immediate_loop_untouched kernel data len (len + 1) 0 c
    cases h
    unfold send_immediate at hopen
    generalize send_immediate_loop kernel data len (len + 1) 0 c = r at hkept hopen
    obtain ⟨sent, total_sent, c₁⟩ := r
    simp only at hopen
    split at hopen
    · cases hopen
    · split at hopen <;> exact hkept.isOpen ▸ hopen
  · have := onPollOut_isOpen h hopen
    exact this

end Shitty.Net

namespace Shitty.Server.Impl

open Lib

variable {σ : Type} {t : Transports σ} {kernel : Addr → Nat → Net.Reply}

/-! ## Commands -/

theorem view_update (s : Impl σ) (a : Addr) (c : Option Connection) :
    ({ s with connections := Function.update s.connections a c } : Impl σ).view =
      Function.update s.view a (c.map Connection.view) := by
  funext b
  unfold view
  by_cases hb : b = a
  · subst hb
    simp only [Function.update_self]
  · simp only [Function.update_of_ne hb]

theorem release_view (c : Connection) (s : Impl σ) : (s.release c).view = s.view := by
  unfold release
  simp only
  split <;> rfl

theorem release_registered (c : Connection) (s : Impl σ) :
    ∀ entry ∈ (s.release c).registered, entry ∈ s.registered ∧ entry.1 ≠ c.fd := by
  intro entry hmem
  unfold release at hmem
  simp only at hmem
  split at hmem
  · simpa [removeConnection] using hmem
  · simpa [sys_close] using hmem

/-- What a member function leaves of a connection. -/
def assigned (s : Impl σ) (a : Addr) (c : Connection) (net : Net.Connection) : Impl σ :=
  { s with connections := Function.update s.connections a (some { c with toConnection := net }) }

theorem assigned_view (s : Impl σ) (a : Addr) (c : Connection) (net : Net.Connection) :
    (s.assigned a c net).view =
      Function.update s.view a (some { c.view with isOpen := net.isOpen }) :=
  s.view_update a _

/-- A member function is called on a connection that is there; it closes it or does not. -/
theorem call_cases {a : Addr} {f : Net.Connection → Except Exn Net.Connection} {s s' : Impl σ}
    (h : s.call a f = .ok s') :
    ∃ c net, s.connections a = some c ∧ f c.toConnection = .ok net ∧
      ((c.isOpen = true ∧ net.isOpen = false ∧ s' = (s.assigned a c net).release c) ∨
        ((c.isOpen = true → net.isOpen = true) ∧ s' = s.assigned a c net)) := by
  unfold call at h
  cases hc : s.connections a with
  | none =>
      rw [hc] at h
      cases h
  | some c =>
      rw [hc] at h
      simp only at h
      cases hnet : f c.toConnection with
      | error e =>
          rw [hnet] at h
          cases h
      | ok net =>
          rw [hnet] at h
          simp only [Except.ok.injEq] at h
          refine ⟨c, net, rfl, hnet, ?_⟩
          by_cases hcloses : (c.isOpen && !net.isOpen) = true
          · rw [if_pos hcloses] at h
            obtain ⟨hopen, hclosed⟩ := Bool.and_eq_true_iff.mp hcloses
            exact .inl ⟨hopen, (Bool.not_eq_true' _).mp hclosed, h.symm⟩
          · rw [if_neg hcloses] at h
            refine .inr ⟨fun hopen => ?_, h.symm⟩
            by_contra hclosed
            exact hcloses (by rw [hopen, (Bool.not_eq_true _).mp hclosed]; rfl)

/-- A member function of a connection closes it or does nothing of interest. -/
theorem call_change {a : Addr} {f : Net.Connection → Except Exn Net.Connection}
    (hf : ∀ c c', f c = .ok c' → c'.isOpen = true → c.isOpen = true) {s s' : Impl σ}
    (h : s.call a f = .ok s') : Change s s' := by
  obtain ⟨c, net, hc, hnet, hends⟩ := call_cases h
  have hv : s.view a = some c.view := by rw [view, hc, Option.map_some]
  rcases hends with ⟨hopen, hclosed, rfl⟩ | ⟨hstays, rfl⟩
  · refine .closes a c.view hv hopen ?_ ?_ ?_ ?_ ?_
    · rw [release_view, assigned_view, hclosed]
      rfl
    · unfold release
      simp only
      split <;> rfl
    · unfold release
      simp only
      split <;> rfl
    · exact release_registered _ _
    · show if c.manager_ = true then _ else _
      unfold release
      simp only
      split <;> exact ⟨rfl, rfl, rfl⟩
  · have hsame : net.isOpen = c.isOpen := Bool.eq_iff_iff.mpr ⟨hf _ _ hnet, hstays⟩
    refine .quiet ?_ rfl rfl rfl rfl rfl rfl
    rw [assigned_view, hsame, Function.update_eq_self_iff, hv]
    rfl

theorem perform_change {s s' : Impl σ} {command : Command} (h : perform kernel s command = .ok s') :
    Change s s' := by
  cases command with
  | send a payload => exact call_change (fun c c' => Net.send_isOpen) h
  | close a =>
      have hclose : ∀ c c' : Net.Connection, (.ok (Net.close c) : Except Exn Net.Connection) = .ok c' →
          c'.isOpen = true → c.isOpen = true := by
        intro c c' hclose hopen
        cases hclose
        cases hopen
      exact call_change hclose h
  | connect descriptor =>
      cases h
      refine .constructs { fd := descriptor.fd s.opens, manager_ := false, isOpen := true } rfl
        (descriptor.fresh _) ?_ rfl rfl rfl rfl rfl rfl
      exact s.view_update s.next _

theorem onInput_changes {a : Addr} {piece : Bytes} {s s' : Impl σ}
    (h : onInput t kernel a piece s = .ok s') : Changes s s' := by
  unfold onInput at h
  cases hinput : t.onInput a piece s.next s.world with
  | error e =>
      rw [hinput] at h
      cases h
  | ok result =>
      rw [hinput] at h
      have hquiet : Change s { s with world := result.2 } := .quiet rfl rfl rfl rfl rfl rfl rfl
      exact Run.invariant (.single hquiet) (fun _ _ _ hreached hstep =>
        hreached.tail (perform_change hstep)) result.1 s' h

theorem onPollIn_changes {a : Addr} {last : ReadEnd} {pieces : List Bytes} :
    ∀ {s s' : Impl σ}, onPollIn t kernel a last pieces s = .ok s' → Changes s s' := by
  induction pieces with
  | nil =>
      intro s s' h
      unfold onPollIn at h
      split at h
      · cases h
        exact .refl
      · exact .single (perform_change h)
  | cons piece pieces ih =>
      intro s s' h
      unfold onPollIn at h
      split at h
      · obtain ⟨s₁, hinput, h⟩ := bind_eq_ok.mp h
        have hchanges := onInput_changes hinput
        split at h
        · exact hchanges.trans (ih h)
        · cases h
          exact hchanges
      · exact .single (perform_change h)

/-! ## Events -/

/-- `accept` up to the first read. -/
def accepted (t : Transports σ) (s : Impl σ) (client : Accept) : Impl σ :=
  let client_fd := client.descriptor.fd s.opens
  let s' := s.construct client_fd true (.accept client_fd)
  { s' with
    world := t.setTransport s.next s'.world
    clients_ := s'.clients_ ++ [(client_fd, s.next)] }

/-- A descriptor in use by a client is open, so `accept4` does not return it. -/
theorem accept_eq {s : Impl σ} (h : Inv s) (client : Accept) :
    accept t kernel s client =
      onPollIn t kernel s.next client.input.last client.input.pieces (accepted t s client) := by
  have hnone : (s.clients_.any fun entry => entry.1 = client.descriptor.fd s.opens) = false := by
    rw [List.any_eq_false]
    rintro ⟨fd, b⟩ hmem hfd
    obtain ⟨v, hv, hvfd, hmanager⟩ := (h.clients_iff fd b).mp hmem
    have hopen := h.held_open b v hv (.inl hmanager)
    have hsame : fd = client.descriptor.fd s.opens := of_decide_eq_true hfd
    rw [hvfd, hsame] at hopen
    exact client.descriptor.fresh _ hopen
  show (if (s.clients_.any fun entry => entry.1 = client.descriptor.fd s.opens) = true then _
    else _) = _
  rw [if_neg (by rw [hnone]; exact Bool.false_ne_true)]
  rfl

theorem accepted_change (s : Impl σ) (client : Accept) : Change s (accepted t s client) := by
  refine .constructs { fd := client.descriptor.fd s.opens, manager_ := true, isOpen := true } rfl
    (client.descriptor.fresh _) ?_ rfl rfl rfl rfl rfl rfl
  exact s.view_update s.next _

theorem accept_changes {s s' : Impl σ} (h : Inv s) {client : Accept}
    (haccept : accept t kernel s client = .ok s') : Changes s s' := by
  rw [accept_eq h] at haccept
  exact .head (accepted_change s client) (onPollIn_changes haccept)

theorem dispatch_changes {s s' : Impl σ} (h : Inv s) {event : Event}
    (hdispatch : dispatch t kernel s event = .ok s') : Changes s s' := by
  rcases event with _ | accepts | ⟨a, out, input⟩
  · cases hdispatch
    exact .single (.quiet rfl rfl rfl rfl rfl rfl rfl)
  · have hrun : Run.run (accept t kernel) s accepts = .ok s' := hdispatch
    refine (Run.invariant (P := fun s' => Changes s s' ∧ Inv s') ⟨.refl, h⟩ ?_ accepts s' hrun).1
    intro s₁ client s₂ hreached haccept
    have hchanges := accept_changes hreached.2 haccept
    exact ⟨hreached.1.trans hchanges, hreached.2.changes hchanges⟩
  · simp only [dispatch] at hdispatch
    split at hdispatch
    · cases hdispatch
    · obtain ⟨s₁, hout, hin⟩ := bind_eq_ok.mp hdispatch
      have hfirst : Changes s s₁ := by
        unfold dispatch_out at hout
        split at hout
        · exact .single (call_change (fun c c' => Net.onPollOut_isOpen) hout)
        · cases hout
          exact .refl
      cases input with
      | none =>
          cases hin
          exact hfirst
      | some input => exact hfirst.trans (onPollIn_changes hin)

theorem batch_changes {s s' : Impl σ} (h : Inv s) {batch : List Event}
    (hrun : Run.run (dispatch t kernel) s batch = .ok s') : Changes s s' := by
  refine (Run.invariant (P := fun s' => Changes s s' ∧ Inv s') ⟨.refl, h⟩ ?_ batch s' hrun).1
  intro s₁ event s₂ hreached hdispatch
  have hchanges := dispatch_changes hreached.2 hdispatch
  exact ⟨hreached.1.trans hchanges, hreached.2.changes hchanges⟩

/-! ## What ends the loop -/

/-- What ends the loop comes from behind a connection: an exception, or a connection used when
it is gone. -/
def Foreign (stop : Stop) : Prop := stop ≠ .existingFd ∧ stop ≠ .destroyedReceiver

theorem call_foreign {a : Addr} {f : Net.Connection → Except Exn Net.Connection} {s : Impl σ}
    {stop : Stop} (h : s.call a f = .error stop) : Foreign stop := by
  unfold call at h
  split at h
  · cases h
    exact ⟨by simp, by simp⟩
  · split at h
    · cases h
      exact ⟨by simp, by simp⟩
    · cases h

theorem perform_foreign {s : Impl σ} {command : Command} {stop : Stop}
    (h : perform kernel s command = .error stop) : Foreign stop := by
  cases command with
  | send a payload => exact call_foreign h
  | close a =>
      have hcall : s.call a (fun net => .ok (Net.close net)) = .error stop := h
      exact call_foreign hcall
  | connect descriptor => cases h

theorem onInput_foreign {a : Addr} {piece : Bytes} {s : Impl σ} {stop : Stop}
    (h : onInput t kernel a piece s = .error stop) : Foreign stop := by
  unfold onInput at h
  split at h
  · cases h
    exact ⟨by simp, by simp⟩
  · obtain ⟨_, _, _, _, _, _, hperform⟩ := Run.run_error h
    exact perform_foreign hperform

theorem onPollIn_foreign {a : Addr} {last : ReadEnd} {pieces : List Bytes} :
    ∀ {s : Impl σ} {stop : Stop}, onPollIn t kernel a last pieces s = .error stop →
      Foreign stop := by
  induction pieces with
  | nil =>
      intro s stop h
      unfold onPollIn at h
      split at h
      · cases h
      · exact perform_foreign h
  | cons piece pieces ih =>
      intro s stop h
      unfold onPollIn at h
      split at h
      · rcases bind_eq_error.mp h with hinput | ⟨s₁, -, h⟩
        · exact onInput_foreign hinput
        · split at h
          · exact ih h
          · cases h
      · exact perform_foreign h

/-- The loop itself does not fail while the receiver of the event has not been
destroyed. -/
theorem dispatch_foreign {s : Impl σ} (h : Inv s) {event : Event}
    (hreceiver : ∀ a, event.receiver = .connection a → s.view a ≠ none) {stop : Stop}
    (hdispatch : dispatch t kernel s event = .error stop) : Foreign stop := by
  rcases event with _ | accepts | ⟨a, out, input⟩
  · cases hdispatch
  · have hrun : Run.run (accept t kernel) s accepts = .error stop := hdispatch
    obtain ⟨front, client, rest, s₁, rfl, hfront, haccept⟩ := Run.run_error hrun
    have hbefore : dispatch t kernel s (.listener front) = .ok s₁ := hfront
    have hinv : Inv s₁ := h.changes (dispatch_changes h hbefore)
    rw [accept_eq hinv] at haccept
    exact onPollIn_foreign haccept
  · have hview := hreceiver a rfl
    simp only [dispatch] at hdispatch
    split at hdispatch
    · rename_i hnone
      refine absurd ?_ hview
      rw [view, Option.isNone_iff_eq_none.mp hnone, Option.map_none]
    · rcases bind_eq_error.mp hdispatch with hout | ⟨s₁, -, hin⟩
      · unfold dispatch_out at hout
        split at hout
        · exact call_foreign hout
        · cases hout
      · cases input with
        | none => cases hin
        | some input => exact onPollIn_foreign hin

/-! ## What stays during a batch -/

/-- Connections are not destroyed, and clients stay. -/
theorem Change.stays {s s' : Impl σ} (h : Change s s') :
    (∀ a, s.view a ≠ none → s'.view a ≠ none) ∧ ∀ client ∈ s.clients_, client ∈ s'.clients_ := by
  have hupdate : ∀ {a : Addr} {v : View}, s'.view = Function.update s.view a (some v) →
      ∀ b, s.view b ≠ none → s'.view b ≠ none := by
    intro a v hview b hb
    rw [hview]
    by_cases hsame : b = a
    · subst hsame
      rw [Function.update_self]
      simp
    · rw [Function.update_of_ne hsame]
      exact hb
  cases h with
  | quiet hview hclients => exact ⟨fun a ha => hview ▸ ha, fun client hc => hclients ▸ hc⟩
  | closes a v _ _ hview hclients => exact ⟨hupdate hview, fun client hc => hclients ▸ hc⟩
  | constructs v _ _ hview hclients =>
      refine ⟨hupdate hview, fun client hc => ?_⟩
      rw [hclients]
      split
      · exact List.mem_append_left _ hc
      · exact hc

theorem Changes.stays {s s' : Impl σ} (h : Changes s s') :
    (∀ a, s.view a ≠ none → s'.view a ≠ none) ∧ ∀ client ∈ s.clients_, client ∈ s'.clients_ := by
  induction h with
  | refl => exact ⟨fun _ ha => ha, fun _ hc => hc⟩
  | tail _ hchange ih =>
      obtain ⟨hview, hclients⟩ := hchange.stays
      exact ⟨fun a ha => hview a (ih.1 a ha), fun client hc => hclients client (ih.2 client hc)⟩

end Shitty.Server.Impl
