import Shitty.Server.Logic.Dispatch

/-!
# The life of a client connection

Between batches the clients are the connections that have been accepted and not closed.
A connection that is closed during a batch stays until the batch is over, and its
descriptor is closed then, once. These are the clauses of one property, which holds in
front of every batch that can be reached, and for any events of registered receivers
within it.
-/

namespace Shitty.Server.Impl

open Lib

variable {σ : Type} {t : Transports σ} {kernel : Addr → Nat → Net.Reply}

/-! ## The end of a batch -/

theorem lookup_client {s : Impl σ} (h : Inv s) {a : Addr} {v : View} (hv : s.view a = some v)
    (hmanager : v.manager_ = true) : s.clients_.lookup v.fd = some a := by
  have hmem : (v.fd, a) ∈ s.clients_ := (h.clients_iff v.fd a).mpr ⟨v, hv, rfl, hmanager⟩
  cases hlookup : s.clients_.lookup v.fd with
  | none =>
      have hnone := List.lookup_eq_none_iff.mp hlookup _ hmem
      simp at hnone
  | some b =>
      obtain ⟨front, back, hsplit, -⟩ := List.lookup_eq_some_iff.mp hlookup
      have hmem' : (v.fd, b) ∈ s.clients_ := by
        rw [hsplit]
        exact List.mem_append_right _ List.mem_cons_self
      obtain ⟨w, hw, hfd, hmanager'⟩ := (h.clients_iff v.fd b).mp hmem'
      rw [h.held_once b a w v hw hv (.inl hmanager') (.inl hmanager) hfd]

/-- What the turn for a descriptor comes to. -/
structure Removes (s s' : Impl σ) (a : Addr) (v : View) : Prop where
  view : s'.view = Function.update s.view a none
  clients : s'.clients_ = s.clients_.filter fun entry => entry.1 ≠ v.fd
  queue : s'.remove_clients_ = s.remove_clients_.tail
  next : s'.next = s.next
  opens : s'.opens = s.opens.filter fun fd => fd ≠ v.fd
  registered : s'.registered = s.registered.filter fun entry => entry.1 ≠ v.fd
  calls : s'.calls = s.calls ++ [.close v.fd]

/-- The descriptor at the front is that of a client that is closed, which is destroyed. -/
theorem remove_dead_client_removes {s : Impl σ} (h : Inv s) {fd : Fd} {rest : List Fd}
    (hqueue : s.remove_clients_ = fd :: rest) :
    ∃ a v, s.view a = some v ∧ v.fd = fd ∧ v.manager_ = true ∧ v.isOpen = false ∧
      Removes s (s.remove_dead_client t fd) a v := by
  obtain ⟨a, v, hv, rfl, hmanager, hclosed⟩ :=
    h.queue_held fd (by rw [hqueue]; exact List.mem_cons_self)
  refine ⟨a, v, hv, rfl, hmanager, hclosed, ?_⟩
  have hlookup := lookup_client h hv hmanager
  obtain ⟨c, hc, rfl⟩ := Option.map_eq_some_iff.mp hv
  have hlookup' : (s.sys_close c.view.fd).clients_.lookup c.view.fd = some a := hlookup
  have hc' : (({ s.sys_close c.view.fd with
      clients_ := (s.sys_close c.view.fd).clients_.filter fun entry => entry.1 ≠ c.view.fd } :
        Impl σ)).connections a = some c := hc
  have hnot : ¬ c.isOpen = true := by
    rw [Bool.not_eq_true]
    exact hclosed
  unfold remove_dead_client erase
  rw [hlookup']
  simp only
  unfold destroy
  rw [hc']
  simp only
  rw [if_neg hnot]
  exact ⟨s.view_update a none, rfl, rfl, rfl, rfl, rfl, rfl⟩

theorem Ordered.removes {s s' : Impl σ} (h : Inv s) {a : Addr} {v : View} {rest : List Fd}
    (hv : s.view a = some v) (hmanager : v.manager_ = true) (hclosed : v.isOpen = false)
    (hqueue : s.remove_clients_ = v.fd :: rest) (hremoves : Removes s s' a v) : Ordered s' := by
  have hheld : v.Held := .inl hmanager
  have hlast : lastCall v.fd s.calls = some (.remove v.fd) := by
    rw [h.stages a v hv hheld, View.stage, if_pos hmanager, hclosed]
    rfl
  have hnodup := h.queue_nodup
  rw [hqueue, List.nodup_cons] at hnodup
  have hview : ∀ b w, s'.view b = some w → b ≠ a ∧ s.view b = some w := by
    intro b w hw
    rw [hremoves.view] at hw
    rcases update_eq_some hw with ⟨-, heq⟩ | hw
    · cases heq
    · exact hw
  exact
    { orderly := by
        rw [hremoves.calls]
        exact h.orderly.snoc (.inl hlast)
      held_once := by
        intro b d w x hw hx
        exact h.held_once b d w x (hview b w hw).2 (hview d x hx).2
      stages := by
        intro b w hw hheld'
        obtain ⟨hb, hw⟩ := hview b w hw
        have hne : (Call.close v.fd).fd ≠ w.fd := (h.other hv hw hheld hheld' hb).symm
        rw [hremoves.calls, lastCall_snoc_other hne]
        exact h.stages b w hw hheld'
      queue_nodup := by
        rw [hremoves.queue, hqueue]
        exact hnodup.2
      queue_last := by
        intro fd hfd
        rw [hremoves.queue, hqueue] at hfd
        have hne : (Call.close v.fd).fd ≠ fd := by
          rintro rfl
          exact hnodup.1 hfd
        rw [hremoves.calls, lastCall_snoc_other hne]
        exact h.queue_last fd (by rw [hqueue]; exact List.mem_cons_of_mem _ hfd) }

theorem Inv.removes {s s' : Impl σ} (h : Inv s) {a : Addr} {v : View} {rest : List Fd}
    (hv : s.view a = some v) (hmanager : v.manager_ = true) (hclosed : v.isOpen = false)
    (hqueue : s.remove_clients_ = v.fd :: rest) (hremoves : Removes s s' a v) : Inv s' := by
  have hheld : v.Held := .inl hmanager
  have hview : ∀ b w, s'.view b = some w ↔ b ≠ a ∧ s.view b = some w := by
    intro b w
    rw [hremoves.view]
    by_cases hb : b = a
    · subst hb
      simp
    · simp [hb]
  -- whoever is left has another descriptor
  have hne : ∀ b w, s'.view b = some w → w.Held → w.fd ≠ v.fd := by
    intro b w hw hheld'
    obtain ⟨hb, hw⟩ := (hview b w).mp hw
    exact h.other hv hw hheld hheld' hb
  have hnodup := h.queue_nodup
  rw [hqueue, List.nodup_cons] at hnodup
  exact
    { Ordered.removes h hv hmanager hclosed hqueue hremoves with
      clients_iff := by
        intro fd b
        rw [hremoves.clients, List.mem_filter, h.clients_iff]
        constructor
        · rintro ⟨⟨w, hw, rfl, hmanager'⟩, hfd⟩
          refine ⟨w, (hview b w).mpr ⟨?_, hw⟩, rfl, hmanager'⟩
          rintro rfl
          rw [hv] at hw
          cases hw
          simp at hfd
        · rintro ⟨w, hw, rfl, hmanager'⟩
          exact ⟨⟨w, ((hview b w).mp hw).2, rfl, hmanager'⟩,
            by simpa using hne b w hw (.inl hmanager')⟩
      keys_nodup := by
        rw [hremoves.clients]
        exact h.keys_nodup.sublist (List.filter_sublist.map Prod.fst)
      queued := by
        intro b w hw hmanager' hclosed'
        have hfd := hne b w hw (.inl hmanager')
        have hmem := h.queued b w ((hview b w).mp hw).2 hmanager' hclosed'
        rw [hqueue, List.mem_cons] at hmem
        rw [hremoves.queue, hqueue]
        exact hmem.resolve_left hfd
      queue_held := by
        intro fd hfd
        rw [hremoves.queue, hqueue] at hfd
        obtain ⟨b, w, hw, rfl, hrest⟩ :=
          h.queue_held fd (by rw [hqueue]; exact List.mem_cons_of_mem _ hfd)
        refine ⟨b, w, (hview b w).mpr ⟨?_, hw⟩, rfl, hrest⟩
        rintro rfl
        rw [hv] at hw
        cases hw
        exact hnodup.1 hfd
      fresh := by
        intro b hb
        rw [hremoves.next] at hb
        cases hw : s'.view b with
        | none => rfl
        | some w =>
            have hnone := h.fresh b hb
            rw [((hview b w).mp hw).2] at hnone
            cases hnone
      held_open := by
        intro b w hw hheld'
        rw [hremoves.opens]
        exact List.mem_filter.mpr
          ⟨h.held_open b w ((hview b w).mp hw).2 hheld', by simpa using hne b w hw hheld'⟩
      free := by
        intro fd hfree
        rw [hremoves.calls]
        by_cases hsame : v.fd = fd
        · subst hsame
          exact .inr (lastCall_snoc_self s.calls (.close v.fd))
        · have hother : (Call.close v.fd).fd ≠ fd := hsame
          rw [lastCall_snoc_other hother]
          refine h.free fd fun b w hw hheld' => ?_
          by_cases hb : b = a
          · subst hb
            rw [hv] at hw
            cases hw
            exact hsame
          · exact hfree b w ((hview b w).mpr ⟨hb, hw⟩) hheld'
      registered := by
        intro fd b hmem
        rw [hremoves.registered, List.mem_filter] at hmem
        obtain ⟨w, hw, hwfd, hopen⟩ := h.registered fd b hmem.1
        refine ⟨w, (hview b w).mpr ⟨?_, hw⟩, hwfd, hopen⟩
        rintro rfl
        rw [hv] at hw
        cases hw
        rw [hclosed] at hopen
        cases hopen }

/-- With a turn for each descriptor in it, the queue is worked off and the invariant is kept. -/
theorem remove_dead_clients_loop_inv (turns : Nat) : ∀ {s : Impl σ}, Inv s →
    s.remove_clients_.length ≤ turns →
      Inv (remove_dead_clients_loop t turns s) ∧
        (remove_dead_clients_loop t turns s).remove_clients_ = [] := by
  induction turns with
  | zero =>
      intro s h hlength
      exact ⟨h, List.length_eq_zero_iff.mp (Nat.le_zero.mp hlength)⟩
  | succ turns ih =>
      intro s h hlength
      unfold remove_dead_clients_loop
      cases hqueue : s.remove_clients_ with
      | nil => exact ⟨h, hqueue⟩
      | cons fd rest =>
          obtain ⟨a, v, hv, rfl, hmanager, hclosed, hremoves⟩ :=
            remove_dead_client_removes (t := t) h hqueue
          refine ih (h.removes hv hmanager hclosed hqueue hremoves) ?_
          rw [hremoves.queue, List.length_tail]
          omega

theorem remove_dead_clients_inv {s : Impl σ} (h : Inv s) :
    Inv (s.remove_dead_clients t) ∧ (s.remove_dead_clients t).remove_clients_ = [] :=
  remove_dead_clients_loop_inv _ h (Nat.le_add_right _ _)

/-! ## Behind the loop -/

/-- Whatever connections are no more, and whatever else has changed. -/
theorem Ordered.forgets {s s' : Impl σ} (h : Ordered s)
    (hview : ∀ b w, s'.view b = some w → s.view b = some w)
    (hqueue : s'.remove_clients_ = s.remove_clients_) (hcalls : s'.calls = s.calls) :
    Ordered s' where
  orderly := by rw [hcalls]; exact h.orderly
  held_once b d w x hw hx := h.held_once b d w x (hview b w hw) (hview d x hx)
  stages b w hw hheld := by rw [hcalls]; exact h.stages b w (hview b w hw) hheld
  queue_nodup := by rw [hqueue]; exact h.queue_nodup
  queue_last := by rw [hqueue, hcalls]; exact h.queue_last

theorem Ordered.destroy {s : Impl σ} (h : Ordered s) (a : Addr) : Ordered (s.destroy t a) := by
  unfold Impl.destroy
  cases hc : s.connections a with
  | none => exact h
  | some c =>
      have hv : s.view a = some c.view := by rw [view, hc, Option.map_some]
      have hforget : ∀ s₁ : Impl σ, s₁.view = s.view →
          ∀ b w, Function.update s₁.view a none b = some w → b ≠ a ∧ s.view b = some w := by
        intro s₁ hsame b w hw
        rw [hsame] at hw
        rcases update_eq_some hw with ⟨-, heq⟩ | hw
        · cases heq
        · exact hw
      simp only
      by_cases hopen : c.isOpen = true
      · rw [if_pos hopen]
        -- the connection is closed, and is no more
        have hclosed : Ordered ({ s.release c with
            connections := Function.update (s.release c).connections a
              (some { c with toConnection := Net.close c.toConnection }) } : Impl σ) := by
          refine h.closes hv hopen ?_ ?_
          · rw [view_update, release_view]
            rfl
          · show if c.manager_ = true then _ else _
            unfold release
            simp only
            split <;> exact ⟨rfl, rfl, rfl⟩
        refine hclosed.forgets ?_ rfl rfl
        intro b w hw
        have hw' : Function.update (s.release c).view a none b = some w :=
          ((s.release c).view_update a none ▸ hw : _)
        obtain ⟨hb, hw'⟩ := hforget _ (release_view c s) b w hw'
        rw [view_update, Function.update_of_ne hb, release_view]
        exact hw'
      · rw [if_neg hopen]
        refine h.forgets ?_ rfl rfl
        intro b w hw
        have hw' : Function.update s.view a none b = some w := (s.view_update a none ▸ hw : _)
        exact (hforget s rfl b w hw').2

theorem Ordered.cleanup {s : Impl σ} (h : Ordered s) : Ordered (s.cleanup t) := by
  have hall : ∀ (clients : List (Fd × Addr)) (s : Impl σ), Ordered s →
      Ordered (clients.foldl (fun s client => s.destroy t client.2) s) := by
    intro clients
    induction clients with
    | nil => exact fun s h => h
    | cons client clients ih => exact fun s h => ih _ (h.destroy client.2)
  have hlisten : Ordered ({ s with
      opens := s.opens.filter fun fd => fd ≠ s.listenfd_
      registered := s.registered.filter fun entry => entry.1 ≠ s.listenfd_ } : Impl σ) :=
    h.forgets (fun _ _ hw => hw) rfl rfl
  exact (hall _ _ hlisten).forgets (fun _ _ hw => hw) rfl rfl

/-! ## Runs of the loop -/

/-- `epoll_wait` reports events for registered receivers only. -/
def Reported (s : Impl σ) (batch : List Event) : Prop :=
  ∀ event ∈ batch, ∃ fd, (fd, event.receiver) ∈ s.registered

/-- The states of a run in front of `epoll_wait`. -/
inductive Reachable (t : Transports σ) (kernel : Addr → Nat → Net.Reply) : Impl σ → Prop
  | setup (signalfd listenfd_ : Fd) (opens : List Fd) (world : σ) :
      Reachable t kernel (new signalfd listenfd_ opens world)
  | turn {s s' : Impl σ} {batch : List Event} : Reachable t kernel s → s.keep_running_ = true →
      Reported s batch → turn t kernel s batch = .ok s' → Reachable t kernel s'

/-- `accept4` has returned the descriptor, and it has not been closed since. -/
def Accepted (calls : List Call) (fd : Fd) : Prop :=
  ∃ front back, calls = front ++ .accept fd :: back ∧ .close fd ∉ back

/-- No descriptor is queued or closed but once for each time it is accepted, and none is
in the queue twice. -/
def Once (s : Impl σ) : Prop := Orderly s.calls ∧ s.remove_clients_.Nodup

structure LifeCycle (t : Transports σ) (kernel : Addr → Nat → Net.Reply) (s : Impl σ) : Prop where
  /-- The keys of `clients_` are the descriptors that have been accepted and not removed. -/
  keys : ∀ fd, fd ∈ s.clients_.map Prod.fst ↔ Accepted s.calls fd
  /-- During a batch, what is a client stays one and is not destroyed. -/
  stays : ∀ batch, Reported s batch → ∀ front back, front ++ back <+: batch → ∀ s₁ s₂,
    Run.run (dispatch t kernel) s front = .ok s₁ → Run.run (dispatch t kernel) s₁ back = .ok s₂ →
      ∀ client ∈ s₁.clients_, client ∈ s₂.clients_ ∧ s₂.connections client.2 ≠ none
  /-- The receiver of an event has not been destroyed by the events before it. -/
  receiver : ∀ batch, Reported s batch → ∀ front event, front ++ [event] <+: batch → ∀ s₁,
    Run.run (dispatch t kernel) s front = .ok s₁ →
      ∀ a, event.receiver = .connection a → s₁.connections a ≠ none
  /-- At any time during a batch, between batches and behind the loop. -/
  once : ∀ batch, Reported s batch → ∀ front, front <+: batch → ∀ s₁,
    Run.run (dispatch t kernel) s front = .ok s₁ → Once s₁ ∧ Once (s₁.remove_dead_clients t) ∧
      Once ((s₁.remove_dead_clients t).cleanup t)
  /-- No client has the descriptor of a connection that is accepted. -/
  accepts : ∀ batch, Reported s batch → turn t kernel s batch ≠ .error .existingFd

theorem Reachable.inv {s : Impl σ} (h : Reachable t kernel s) :
    Inv s ∧ s.remove_clients_ = [] := by
  induction h with
  | setup signalfd listenfd_ opens world => exact ⟨inv_new signalfd listenfd_ opens world, rfl⟩
  | turn _ _ _ hturn ih =>
      obtain ⟨s₁, hrun, hremove⟩ := bind_eq_ok.mp hturn
      cases hremove
      exact remove_dead_clients_inv (ih.1.changes (batch_changes ih.1 hrun))

theorem lastCall_cases (calls : List Call) (call : Call) (fd : Fd) :
    (call.fd = fd ∧ lastCall fd (calls ++ [call]) = some call) ∨
      (call.fd ≠ fd ∧ lastCall fd (calls ++ [call]) = lastCall fd calls) := by
  by_cases hfd : call.fd = fd
  · subst hfd
    exact .inl ⟨rfl, lastCall_snoc_self calls call⟩
  · exact .inr ⟨hfd, lastCall_snoc_other hfd calls⟩

/-- The last call for a descriptor that is accepted and not closed. -/
theorem accepted_iff {calls : List Call} (h : Orderly calls) (fd : Fd) :
    Accepted calls fd ↔
      lastCall fd calls = some (.accept fd) ∨ lastCall fd calls = some (.remove fd) := by
  constructor
  · rintro ⟨front, back, rfl, hclose⟩
    induction back using List.reverseRecOn with
    | nil => exact .inl (lastCall_snoc_self front (.accept fd))
    | append_singleton back call ih =>
        rw [List.mem_append, List.mem_singleton, not_or] at hclose
        have hsplit : front ++ .accept fd :: (back ++ [call]) =
            (front ++ .accept fd :: back) ++ [call] := by simp
        rw [hsplit] at h ⊢
        have hbefore := ih hclose.1 h.front
        rcases lastCall_cases (front ++ .accept fd :: back) call fd with
          ⟨hfd, hlast⟩ | ⟨-, hlast⟩
        · have hfollows := h _ _ List.prefix_rfl
          rw [hfd] at hfollows
          rw [hlast]
          -- neither returned by the kernel again nor closed
          rcases call with fd' | fd' | fd' | fd'
          · cases hfd
            rcases hfollows with hnone | hnone <;> rcases hbefore with heq | heq <;>
              rw [hnone] at heq <;> cases heq
          · cases hfd
            rcases hfollows with hnone | hnone <;> rcases hbefore with heq | heq <;>
              rw [hnone] at heq <;> cases heq
          · cases hfd
            exact .inr rfl
          · cases hfd
            exact absurd rfl hclose.2
        · rw [hlast]
          exact hbefore
  · induction calls using List.reverseRecOn with
    | nil =>
        intro hlast
        rcases hlast with hlast | hlast <;> cases hlast
    | append_singleton calls call ih =>
        intro hlast
        have hbefore := ih h.front
        have hgoes : Accepted calls fd → call ≠ .close fd → Accepted (calls ++ [call]) fd := by
          rintro ⟨front, back, rfl, hclose⟩ hne
          refine ⟨front, back ++ [call], by simp, ?_⟩
          rw [List.mem_append, List.mem_singleton, not_or]
          exact ⟨hclose, hne.symm⟩
        rcases lastCall_cases calls call fd with
          ⟨hfd, heq⟩ | ⟨hfd, heq⟩
        · rw [heq, Option.some.injEq, Option.some.injEq] at hlast
          rcases hlast with rfl | rfl
          · exact ⟨calls, [], rfl, List.not_mem_nil⟩
          · have hfollows : lastCall fd calls = some (.accept fd) := h _ _ List.prefix_rfl
            exact hgoes (hbefore (.inl hfollows)) (by simp)
        · rw [heq] at hlast
          refine hgoes (hbefore hlast) ?_
          rintro rfl
          exact hfd rfl

/-- The keys are the descriptors of clients that have been accepted and not closed. -/
theorem Inv.keys_iff {s : Impl σ} (h : Inv s) (fd : Fd) :
    fd ∈ s.clients_.map Prod.fst ↔ Accepted s.calls fd := by
  rw [accepted_iff h.orderly, List.mem_map]
  constructor
  · rintro ⟨⟨fd', a⟩, hmem, rfl⟩
    obtain ⟨v, hv, rfl, hmanager⟩ := (h.clients_iff fd' a).mp hmem
    rw [h.stages a v hv (.inl hmanager), View.stage, if_pos hmanager]
    split
    · exact .inl rfl
    · exact .inr rfl
  · intro hlast
    -- the descriptor is held, by a client
    by_contra hnone
    have hnobody : ∀ a v, s.view a = some v → v.Held → v.fd ≠ fd := by
      rintro a v hv hheld rfl
      by_cases hmanager : v.manager_ = true
      · exact hnone ⟨(v.fd, a), (h.clients_iff v.fd a).mpr ⟨v, hv, rfl, hmanager⟩, rfl⟩
      · rw [h.stages a v hv hheld, View.stage, if_neg hmanager] at hlast
        rcases hlast with hlast | hlast <;> cases hlast
    rcases h.free fd hnobody with hfree | hfree
    · rw [hfree] at hlast
      rcases hlast with hlast | hlast <;> cases hlast
    · rw [hfree] at hlast
      rcases hlast with hlast | hlast <;> cases hlast

theorem connections_ne_none {s : Impl σ} {a : Addr} : s.connections a ≠ none ↔ s.view a ≠ none := by
  rw [view, ne_eq, ne_eq, Option.map_eq_none_iff]

/-- The life cycle of client connections, in every state a run of the loop reaches. -/
theorem client_life_cycle {s : Impl σ} (h : Reachable t kernel s) : LifeCycle t kernel s := by
  obtain ⟨hinv, -⟩ := h.inv
  -- registered connections are there, and stay
  have hreceiver : ∀ batch, Reported s batch → ∀ front event, front ++ [event] <+: batch →
      ∀ s₁, Run.run (dispatch t kernel) s front = .ok s₁ →
        ∀ a, event.receiver = .connection a → s₁.view a ≠ none := by
    intro batch hreported front event hpre s₁ hrun a ha
    obtain ⟨fd, hmem⟩ := hreported event
      (hpre.subset (List.mem_append_right _ (List.mem_singleton.mpr rfl)))
    rw [ha] at hmem
    obtain ⟨v, hv, -, -⟩ := hinv.registered fd a hmem
    refine (batch_changes hinv hrun).stays.1 a ?_
    rw [hv]
    simp
  exact
    { keys := hinv.keys_iff
      stays := by
        intro batch hreported front back hpre s₁ s₂ hfront hback client hclient
        have hinv₁ := hinv.changes (batch_changes hinv hfront)
        have hchanges := batch_changes hinv₁ hback
        have hstays := hchanges.stays.2 client hclient
        obtain ⟨v, hv, -, -⟩ := ((hinv₁.changes hchanges).clients_iff client.1 client.2).mp hstays
        refine ⟨hstays, connections_ne_none.mpr ?_⟩
        rw [hv]
        simp
      receiver := by
        intro batch hreported front event hpre s₁ hrun a ha
        exact connections_ne_none.mpr (hreceiver batch hreported front event hpre s₁ hrun a ha)
      once := by
        intro batch hreported front hpre s₁ hrun
        have hinv₁ := hinv.changes (batch_changes hinv hrun)
        obtain ⟨hremoved, -⟩ := remove_dead_clients_inv (t := t) hinv₁
        have hcleaned := hremoved.toOrdered.cleanup (t := t)
        exact ⟨⟨hinv₁.orderly, hinv₁.queue_nodup⟩, ⟨hremoved.orderly, hremoved.queue_nodup⟩,
          hcleaned.orderly, hcleaned.queue_nodup⟩
      accepts := by
        intro batch hreported hturn
        rcases bind_eq_error.mp hturn with hrun | ⟨s₁, -, hremove⟩
        · obtain ⟨front, event, rest, s₁, rfl, hfront, hdispatch⟩ := Run.run_error hrun
          have hpre : front ++ [event] <+: front ++ event :: rest := ⟨rest, by simp⟩
          have hforeign := dispatch_foreign (hinv.changes (batch_changes hinv hfront))
            (hreceiver _ hreported front event hpre s₁ hfront) hdispatch
          exact hforeign.1 rfl
        · cases hremove }

/-! ## A connection that ends at once -/

/-- Nothing is done with any input. -/
def idle : Transports Unit where
  setTransport _ world := world
  onInput _ _ _ world := .ok ([], world)
  destroy _ world := world

theorem le_foldr_max {opens : List Fd} {fd : Fd} (h : fd ∈ opens) : fd ≤ opens.foldr max 0 := by
  induction opens with
  | nil => cases h
  | cons other opens ih =>
      rw [List.foldr_cons]
      rcases List.mem_cons.mp h with rfl | h
      · exact Nat.le_max_left _ _
      · exact Nat.le_trans (ih h) (Nat.le_max_right _ _)

/-- A descriptor behind all that are open. -/
def nextDescriptor : Descriptor where
  fd opens := opens.foldr max 0 + 1
  fresh _ hmem := Nat.not_succ_le_self _ (le_foldr_max hmem)

/-- A server that has accepted a connection, which its peer has closed at once, and has
closed its descriptor. -/
theorem client_life_cycle_eof :
    ∃ s : Impl Unit, s.calls = [.accept 5, .remove 5, .close 5] ∧
      LifeCycle idle (fun _ _ => .failed) s := by
  have hsetup : Reachable idle (fun _ _ => .failed) (new 3 4 [] ()) := .setup 3 4 [] ()
  have hreported : Reported (new 3 4 [] ()) [.listener [⟨nextDescriptor, ⟨[], .eof⟩⟩]] := by
    intro event hevent
    rw [List.mem_singleton.mp hevent]
    exact ⟨4, by simp [new, Event.receiver]⟩
  exact ⟨_, rfl, client_life_cycle (hsetup.turn rfl hreported rfl)⟩

end Shitty.Server.Impl
