import Mathlib.Data.List.Nodup
import Mathlib.Logic.Relation
import Shitty.Net.Theorems.Wakeup
import Shitty.Server.Loop

/-!
# Who holds a descriptor

A client connection holds its descriptor until `remove_dead_clients` has closed it,
any other connection until it is closed. No two hold the same one, and what has
happened to a descriptor last can be read off its holder. One lemma says what the
dispatch of an event can do to all this.
-/

namespace Shitty.Server

open Lib

/-! ## The calls for one descriptor -/

/-- The last call for the descriptor. -/
def lastCall (fd : Fd) (calls : List Call) : Option Call :=
  (calls.filter fun call => call.fd = fd).getLast?

@[simp] theorem lastCall_snoc_self (calls : List Call) (call : Call) :
    lastCall call.fd (calls ++ [call]) = some call := by
  simp [lastCall]

theorem lastCall_snoc_other {fd : Fd} {call : Call} (h : call.fd ≠ fd) (calls : List Call) :
    lastCall fd (calls ++ [call]) = lastCall fd calls := by
  simp [lastCall, h]

/-- What comes before a call for the same descriptor: a descriptor is returned by the
kernel when it has not been used or has been closed, and it is closed once, on a client
behind `removeConnection`, which is called once as well. -/
def Call.Follows : Call → Option Call → Prop
  | .accept fd, before => before = none ∨ before = some (.close fd)
  | .socket fd, before => before = none ∨ before = some (.close fd)
  | .remove fd, before => before = some (.accept fd)
  | .close fd, before => before = some (.remove fd) ∨ before = some (.socket fd)

/-- Each call comes where it should. -/
def Orderly (calls : List Call) : Prop :=
  ∀ front call, front ++ [call] <+: calls → call.Follows (lastCall call.fd front)

theorem Orderly.nil : Orderly [] := by
  intro front call h
  exact absurd (List.prefix_nil.mp h) (by simp)

theorem Orderly.snoc {calls : List Call} {call : Call} (h : Orderly calls)
    (hfollows : call.Follows (lastCall call.fd calls)) : Orderly (calls ++ [call]) := by
  intro front call' hpre
  rcases List.prefix_concat_iff.mp hpre with heq | hpre
  · obtain ⟨hfront, hcall⟩ := List.append_inj' heq rfl
    cases hcall
    rw [hfront]
    exact hfollows
  · exact h front call' hpre

theorem Orderly.front {calls more : List Call} (h : Orderly (calls ++ more)) : Orderly calls :=
  fun front call hpre => h front call (hpre.trans (List.prefix_append calls more))

/-! ## The invariant -/

/-- What matters here of a connection. -/
structure View where
  fd : Fd
  manager_ : Bool
  isOpen : Bool

def Connection.view (c : Connection) : View :=
  { fd := c.fd, manager_ := c.manager_, isOpen := c.isOpen }

namespace View

/-- The descriptor is still the connection's: it is managed by the server, or has not been
closed. -/
def Held (v : View) : Prop := v.manager_ = true ∨ v.isOpen = true

/-- The last call for the descriptor of a connection that holds it. -/
def stage (v : View) : Call :=
  if v.manager_ then if v.isOpen then .accept v.fd else .remove v.fd else .socket v.fd

def closed (v : View) : View := { v with isOpen := false }

end View

namespace Impl

variable {σ : Type}

def view (s : Impl σ) (a : Addr) : Option View := (s.connections a).map Connection.view

/-- The calls are orderly, and known from the holders. -/
structure Ordered (s : Impl σ) : Prop where
  orderly : Orderly s.calls
  held_once : ∀ a b v w, s.view a = some v → s.view b = some w → v.Held → w.Held → v.fd = w.fd →
    a = b
  stages : ∀ a v, s.view a = some v → v.Held → lastCall v.fd s.calls = some v.stage
  queue_nodup : s.remove_clients_.Nodup
  queue_last : ∀ fd ∈ s.remove_clients_, lastCall fd s.calls = some (.remove fd)

structure Inv (s : Impl σ) : Prop extends Ordered s where
  clients_iff : ∀ fd a, (fd, a) ∈ s.clients_ ↔
    ∃ v, s.view a = some v ∧ v.fd = fd ∧ v.manager_ = true
  keys_nodup : (s.clients_.map Prod.fst).Nodup
  queued : ∀ a v, s.view a = some v → v.manager_ = true → v.isOpen = false →
    v.fd ∈ s.remove_clients_
  queue_held : ∀ fd ∈ s.remove_clients_, ∃ a v, s.view a = some v ∧ v.fd = fd ∧
    v.manager_ = true ∧ v.isOpen = false
  fresh : ∀ a, s.next ≤ a → s.view a = none
  held_open : ∀ a v, s.view a = some v → v.Held → v.fd ∈ s.opens
  free : ∀ fd, (∀ a v, s.view a = some v → v.Held → v.fd ≠ fd) →
    lastCall fd s.calls = none ∨ lastCall fd s.calls = some (.close fd)
  registered : ∀ fd a, (fd, .connection a) ∈ s.registered →
    ∃ v, s.view a = some v ∧ v.fd = fd ∧ v.isOpen = true

theorem inv_new (signalfd listenfd_ : Fd) (opens : List Fd) (world : σ) :
    Inv (Impl.new signalfd listenfd_ opens world) where
  orderly := .nil
  held_once a b v w h := by cases h
  stages a v h := by cases h
  queue_nodup := .nil
  queue_last fd h := by cases h
  clients_iff fd a := by simp [new, view]
  keys_nodup := .nil
  queued a v h := by cases h
  queue_held fd h := by cases h
  fresh a _ := rfl
  held_open a v h := by cases h
  free fd _ := .inl rfl
  registered fd a h := by simp [new] at h

/-! ## What can happen -/

/-- What a single call from behind a connection, or the acceptance of one, does: nothing
of interest, a connection is closed, or there is a new one. -/
inductive Change (s s' : Impl σ) : Prop
  | quiet (hview : s'.view = s.view) (hclients : s'.clients_ = s.clients_)
      (hqueue : s'.remove_clients_ = s.remove_clients_) (hnext : s'.next = s.next)
      (hopens : s'.opens = s.opens) (hregistered : s'.registered = s.registered)
      (hcalls : s'.calls = s.calls)
  | closes (a : Addr) (v : View) (hv : s.view a = some v) (hopen : v.isOpen = true)
      (hview : s'.view = Function.update s.view a (some v.closed))
      (hclients : s'.clients_ = s.clients_) (hnext : s'.next = s.next)
      (hregistered : ∀ entry ∈ s'.registered, entry ∈ s.registered ∧ entry.1 ≠ v.fd)
      (hrest : if v.manager_ = true
        then s'.remove_clients_ = s.remove_clients_ ++ [v.fd] ∧ s'.opens = s.opens ∧
          s'.calls = s.calls ++ [.remove v.fd]
        else s'.remove_clients_ = s.remove_clients_ ∧
          s'.opens = s.opens.filter (fun other => other ≠ v.fd) ∧
          s'.calls = s.calls ++ [.close v.fd])
  | constructs (v : View) (hopen : v.isOpen = true) (hfresh : v.fd ∉ s.opens)
      (hview : s'.view = Function.update s.view s.next (some v))
      (hclients : s'.clients_ =
        if v.manager_ = true then s.clients_ ++ [(v.fd, s.next)] else s.clients_)
      (hqueue : s'.remove_clients_ = s.remove_clients_) (hnext : s'.next = s.next + 1)
      (hopens : s'.opens = v.fd :: s.opens)
      (hregistered : s'.registered = s.registered ++ [(v.fd, .connection s.next)])
      (hcalls : s'.calls = s.calls ++ [v.stage])

/-- Changes one after the other, in any number. -/
abbrev Changes : Impl σ → Impl σ → Prop := Relation.ReflTransGen Change

theorem update_eq_some {f : Addr → Option View} {a b : Addr} {o : Option View} {w : View}
    (h : Function.update f a o b = some w) : (b = a ∧ o = some w) ∨ (b ≠ a ∧ f b = some w) := by
  by_cases hb : b = a
  · subst hb
    rw [Function.update_self] at h
    exact .inl ⟨rfl, h⟩
  · rw [Function.update_of_ne hb] at h
    exact .inr ⟨hb, h⟩

/-- The holder of a descriptor is found from its last call. -/
theorem Ordered.other {s : Impl σ} (h : Ordered s) {a b : Addr} {v w : View}
    (hv : s.view a = some v) (hw : s.view b = some w) (hheld : v.Held) (hheld' : w.Held)
    (hb : b ≠ a) : w.fd ≠ v.fd := fun hfd =>
  hb (h.held_once b a w v hw hv hheld' hheld hfd)

/-- The calls for the descriptors of others are not looked at. -/
theorem Ordered.snoc {s s' : Impl σ} (h : Ordered s) {a : Addr} {v : View} {call : Call}
    (hv : s.view a = some v) (hheld : v.Held) (hfd : call.fd = v.fd)
    (hcalls : s'.calls = s.calls ++ [call]) {b : Addr} {w : View} (hb : b ≠ a)
    (hw : s.view b = some w) (hheld' : w.Held) : lastCall w.fd s'.calls = some w.stage := by
  have hne := h.other hv hw hheld hheld' hb
  rw [hcalls, lastCall_snoc_other (fun heq => hne (heq.symm.trans hfd))]
  exact h.stages b w hw hheld'

theorem View.stage_fd {v : View} (hopen : v.isOpen = true) : v.stage.fd = v.fd := by
  rw [View.stage, if_pos hopen]
  split <;> rfl

/-- A connection is constructed for a descriptor that nobody has held. -/
theorem Ordered.constructs {s s' : Impl σ} (h : Ordered s) {a : Addr} {v : View}
    (hopen : v.isOpen = true)
    (hfree : ∀ b w, s.view b = some w → w.Held → w.fd ≠ v.fd)
    (hlast : lastCall v.fd s.calls = none ∨ lastCall v.fd s.calls = some (.close v.fd))
    (hqueue_free : ∀ fd ∈ s.remove_clients_, fd ≠ v.fd)
    (hview : s'.view = Function.update s.view a (some v))
    (hqueue : s'.remove_clients_ = s.remove_clients_)
    (hcalls : s'.calls = s.calls ++ [v.stage]) : Ordered s' := by
  have hstage := View.stage_fd hopen
  have hfollows : v.stage.Follows (lastCall v.stage.fd s.calls) := by
    rw [hstage]
    unfold View.stage
    rw [if_pos hopen]
    split <;> exact hlast
  exact
    { orderly := by
        rw [hcalls]
        exact h.orderly.snoc hfollows
      held_once := by
        intro b d w x hw hx hheldw hheldx hfd
        rw [hview] at hw hx
        rcases update_eq_some hw with ⟨rfl, heq⟩ | ⟨-, hw₀⟩
        · cases heq
          rcases update_eq_some hx with ⟨rfl, -⟩ | ⟨-, hx₀⟩
          · rfl
          · exact absurd hfd.symm (hfree d x hx₀ hheldx)
        · rcases update_eq_some hx with ⟨rfl, heq⟩ | ⟨-, hx₀⟩
          · cases heq
            exact absurd hfd (hfree b w hw₀ hheldw)
          · exact h.held_once b d w x hw₀ hx₀ hheldw hheldx hfd
      stages := by
        intro b w hw hheldw
        rw [hview] at hw
        rcases update_eq_some hw with ⟨rfl, heq⟩ | ⟨hb, hw⟩
        · cases heq
          have hself := lastCall_snoc_self s.calls v.stage
          rwa [hstage, ← hcalls] at hself
        · have hne : v.stage.fd ≠ w.fd := hstage ▸ (hfree b w hw hheldw).symm
          rw [hcalls, lastCall_snoc_other hne]
          exact h.stages b w hw hheldw
      queue_nodup := by
        rw [hqueue]
        exact h.queue_nodup
      queue_last := by
        intro fd hfd
        rw [hqueue] at hfd
        have hne : v.stage.fd ≠ fd := hstage ▸ (hqueue_free fd hfd).symm
        rw [hcalls, lastCall_snoc_other hne]
        exact h.queue_last fd hfd }

/-- What comes of a descriptor when its holder closes: the manager is told of a client, and
any other is closed. -/
def Releases (s s' : Impl σ) (v : View) : Prop :=
  if v.manager_ = true
  then s'.remove_clients_ = s.remove_clients_ ++ [v.fd] ∧ s'.opens = s.opens ∧
    s'.calls = s.calls ++ [.remove v.fd]
  else s'.remove_clients_ = s.remove_clients_ ∧
    s'.opens = s.opens.filter (fun other => other ≠ v.fd) ∧
    s'.calls = s.calls ++ [.close v.fd]

namespace Releases

variable {s s' : Impl σ} {v : View}

theorem mem_queue (h : Releases s s' v) (fd : Fd) :
    fd ∈ s'.remove_clients_ ↔ fd ∈ s.remove_clients_ ∨ (v.manager_ = true ∧ fd = v.fd) := by
  unfold Releases at h
  split at h
  · rename_i hmanager
    simp [h.1, hmanager]
  · rename_i hmanager
    simp [h.1, hmanager]

theorem mem_opens (h : Releases s s' v) {fd : Fd} (hfd : fd ∈ s.opens)
    (hkept : v.manager_ = true ∨ fd ≠ v.fd) : fd ∈ s'.opens := by
  unfold Releases at h
  split at h
  · rw [h.2.1]
    exact hfd
  · rename_i hmanager
    rw [h.2.1]
    exact List.mem_filter.mpr ⟨hfd, by simpa using hkept.resolve_left hmanager⟩

theorem lastCall_self (h : Releases s s' v) (hmanager : v.manager_ ≠ true) :
    lastCall v.fd s'.calls = some (.close v.fd) := by
  rw [Releases, if_neg hmanager] at h
  rw [h.2.2]
  exact lastCall_snoc_self s.calls (.close v.fd)

theorem lastCall_other (h : Releases s s' v) {fd : Fd} (hne : v.fd ≠ fd) :
    lastCall fd s'.calls = lastCall fd s.calls := by
  unfold Releases at h
  split at h
  · have hcall : (Call.remove v.fd).fd ≠ fd := hne
    rw [h.2.2, lastCall_snoc_other hcall]
  · have hcall : (Call.close v.fd).fd ≠ fd := hne
    rw [h.2.2, lastCall_snoc_other hcall]

end Releases

/-- When a connection is closed, its descriptor goes the way that its kind of connection has. -/
theorem Ordered.closes {s s' : Impl σ} (h : Ordered s) {a : Addr} {v : View}
    (hv : s.view a = some v) (hopen : v.isOpen = true)
    (hview : s'.view = Function.update s.view a (some v.closed))
    (hrest : Releases s s' v) : Ordered s' := by
  have hheld : v.Held := .inr hopen
  have hstage := h.stages a v hv hheld
  have honce : ∀ b d w x, s'.view b = some w → s'.view d = some x → w.Held → x.Held →
      w.fd = x.fd → b = d := by
    -- the descriptors are the same, and whoever holds one has held it before
    have hbefore : ∀ b w, s'.view b = some w → w.Held →
        ∃ w₀, s.view b = some w₀ ∧ w₀.Held ∧ w₀.fd = w.fd := by
      intro b w hw hheld'
      rw [hview] at hw
      rcases update_eq_some hw with ⟨rfl, heq⟩ | ⟨-, hw⟩
      · cases heq
        exact ⟨v, hv, hheld, rfl⟩
      · exact ⟨w, hw, hheld', rfl⟩
    intro b d w x hw hx hheldw hheldx hfd
    obtain ⟨w₀, hw₀, hheldw₀, hfdw⟩ := hbefore b w hw hheldw
    obtain ⟨x₀, hx₀, hheldx₀, hfdx⟩ := hbefore d x hx hheldx
    exact h.held_once b d w₀ x₀ hw₀ hx₀ hheldw₀ hheldx₀ (by rw [hfdw, hfdx, hfd])
  by_cases hmanager : v.manager_ = true
  · rw [Releases, if_pos hmanager] at hrest
    obtain ⟨hqueue, -, hcalls⟩ := hrest
    have hlast : lastCall v.fd s.calls = some (.accept v.fd) := by
      rw [hstage, View.stage, if_pos hmanager, if_pos hopen]
    exact
      { orderly := by
          rw [hcalls]
          exact h.orderly.snoc hlast
        held_once := honce
        stages := by
          intro b w hw hheldw
          rw [hview] at hw
          rcases update_eq_some hw with ⟨rfl, heq⟩ | ⟨hb, hw⟩
          · cases heq
            have hself := lastCall_snoc_self s.calls (.remove v.fd)
            rw [hcalls, View.closed, View.stage, if_pos hmanager]
            exact hself
          · exact h.snoc hv hheld rfl hcalls hb hw hheldw
        queue_nodup := by
          -- what is queued already has not been accepted last
          rw [hqueue]
          refine List.Nodup.append h.queue_nodup (List.nodup_singleton _) ?_
          rw [List.disjoint_singleton]
          intro hmem
          have := h.queue_last _ hmem
          rw [hlast] at this
          cases this
        queue_last := by
          intro fd hfd
          rw [hqueue, List.mem_append, List.mem_singleton] at hfd
          rw [hcalls]
          by_cases hsame : v.fd = fd
          · subst hsame
            exact lastCall_snoc_self s.calls (.remove v.fd)
          · have hne : (Call.remove v.fd).fd ≠ fd := hsame
            rw [lastCall_snoc_other hne]
            exact h.queue_last fd (hfd.resolve_right fun heq => hsame heq.symm) }
  · rw [Releases, if_neg hmanager] at hrest
    obtain ⟨hqueue, -, hcalls⟩ := hrest
    have hlast : lastCall v.fd s.calls = some (.socket v.fd) := by
      rw [hstage, View.stage, if_neg hmanager]
    exact
      { orderly := by
          rw [hcalls]
          exact h.orderly.snoc (.inr hlast)
        held_once := honce
        stages := by
          intro b w hw hheldw
          rw [hview] at hw
          rcases update_eq_some hw with ⟨rfl, heq⟩ | ⟨hb, hw⟩
          · cases heq
            rcases hheldw with hheldw | hheldw
            · exact absurd hheldw hmanager
            · cases hheldw
          · exact h.snoc hv hheld rfl hcalls hb hw hheldw
        queue_nodup := by
          rw [hqueue]
          exact h.queue_nodup
        queue_last := by
          intro fd hfd
          rw [hqueue] at hfd
          have hqueued := h.queue_last fd hfd
          have hne : (Call.close v.fd).fd ≠ fd := by
            intro heq
            rw [← heq] at hqueued
            exact absurd (hlast.symm.trans hqueued) (by simp)
          rw [hcalls, lastCall_snoc_other hne]
          exact hqueued }

theorem Inv.quiet {s s' : Impl σ} (h : Inv s) (hview : s'.view = s.view)
    (hclients : s'.clients_ = s.clients_) (hqueue : s'.remove_clients_ = s.remove_clients_)
    (hnext : s'.next = s.next) (hopens : s'.opens = s.opens)
    (hregistered : s'.registered = s.registered) (hcalls : s'.calls = s.calls) : Inv s' where
  orderly := by rw [hcalls]; exact h.orderly
  held_once := by rw [hview]; exact h.held_once
  stages := by rw [hview, hcalls]; exact h.stages
  queue_nodup := by rw [hqueue]; exact h.queue_nodup
  queue_last := by rw [hqueue, hcalls]; exact h.queue_last
  clients_iff := by rw [hclients, hview]; exact h.clients_iff
  keys_nodup := by rw [hclients]; exact h.keys_nodup
  queued := by rw [hview, hqueue]; exact h.queued
  queue_held := by rw [hview, hqueue]; exact h.queue_held
  fresh := by rw [hnext, hview]; exact h.fresh
  held_open := by rw [hview, hopens]; exact h.held_open
  free := by rw [hview, hcalls]; exact h.free
  registered := by rw [hregistered, hview]; exact h.registered

theorem Inv.closes {s s' : Impl σ} (h : Inv s) {a : Addr} {v : View} (hv : s.view a = some v)
    (hopen : v.isOpen = true) (hview : s'.view = Function.update s.view a (some v.closed))
    (hclients : s'.clients_ = s.clients_) (hnext : s'.next = s.next)
    (hregistered : ∀ entry ∈ s'.registered, entry ∈ s.registered ∧ entry.1 ≠ v.fd)
    (hrest : Releases s s' v) : Inv s' := by
  have hheld : v.Held := .inr hopen
  have hself : s'.view a = some v.closed := by rw [hview, Function.update_self]
  have hother : ∀ b, b ≠ a → s'.view b = s.view b := fun b hb => by
    rw [hview, Function.update_of_ne hb]
  -- whoever has closed before is another one
  have hne : ∀ {b w}, s.view b = some w → w.isOpen = false → b ≠ a := by
    rintro b w hw hclosed rfl
    rw [hv] at hw
    cases hw
    rw [hopen] at hclosed
    cases hclosed
  exact
    { h.toOrdered.closes hv hopen hview hrest with
      clients_iff := by
        intro fd b
        rw [hclients, h.clients_iff]
        by_cases hb : b = a
        · subst hb
          rw [hv, hself]
          simp [View.closed]
        · rw [hother b hb]
      keys_nodup := by
        rw [hclients]
        exact h.keys_nodup
      queued := by
        intro b w hw hmanager hclosed
        rw [hrest.mem_queue]
        by_cases hb : b = a
        · subst hb
          rw [hself] at hw
          cases hw
          exact .inr ⟨hmanager, rfl⟩
        · rw [hother b hb] at hw
          exact .inl (h.queued b w hw hmanager hclosed)
      queue_held := by
        intro fd hfd
        rcases (hrest.mem_queue fd).mp hfd with hfd | ⟨hmanager, rfl⟩
        · obtain ⟨b, w, hw, hwfd, hmanager, hclosed⟩ := h.queue_held fd hfd
          exact ⟨b, w, (hother b (hne hw hclosed)).trans hw, hwfd, hmanager, hclosed⟩
        · exact ⟨a, v.closed, hself, rfl, hmanager, rfl⟩
      fresh := by
        intro b hb
        rw [hnext] at hb
        have hnone := h.fresh b hb
        rw [hother b (by rintro rfl; rw [hv] at hnone; cases hnone)]
        exact hnone
      held_open := by
        intro b w hw hheld'
        by_cases hb : b = a
        · subst hb
          rw [hself] at hw
          cases hw
          have hmanager : v.manager_ = true := hheld'.resolve_right (by simp [View.closed])
          exact hrest.mem_opens (h.held_open b v hv hheld) (.inl hmanager)
        · rw [hother b hb] at hw
          exact hrest.mem_opens (h.held_open b w hw hheld') (.inr (h.other hv hw hheld hheld' hb))
      free := by
        intro fd hfree
        by_cases hsame : v.fd = fd
        · subst hsame
          by_cases hmanager : v.manager_ = true
          · exact absurd rfl (hfree a v.closed hself (.inl hmanager))
          · exact .inr (hrest.lastCall_self hmanager)
        · have hbefore : ∀ b w, s.view b = some w → w.Held → w.fd ≠ fd := by
            intro b w hw hheld'
            by_cases hb : b = a
            · subst hb
              rw [hv] at hw
              cases hw
              exact hsame
            · exact hfree b w ((hother b hb).trans hw) hheld'
          rw [hrest.lastCall_other hsame]
          exact h.free fd hbefore
      registered := by
        intro fd b hmem
        obtain ⟨hmem, hfd⟩ := hregistered _ hmem
        obtain ⟨w, hw, hwfd, hwopen⟩ := h.registered fd b hmem
        have hb : b ≠ a := by
          rintro rfl
          rw [hv] at hw
          cases hw
          exact hfd hwfd.symm
        exact ⟨w, (hother b hb).trans hw, hwfd, hwopen⟩ }

theorem Inv.constructs {s s' : Impl σ} (h : Inv s) {v : View} (hopen : v.isOpen = true)
    (hfresh : v.fd ∉ s.opens) (hview : s'.view = Function.update s.view s.next (some v))
    (hclients : s'.clients_ =
      if v.manager_ = true then s.clients_ ++ [(v.fd, s.next)] else s.clients_)
    (hqueue : s'.remove_clients_ = s.remove_clients_) (hnext : s'.next = s.next + 1)
    (hopens : s'.opens = v.fd :: s.opens)
    (hregistered : s'.registered = s.registered ++ [(v.fd, .connection s.next)])
    (hcalls : s'.calls = s.calls ++ [v.stage]) : Inv s' := by
  have hheld : v.Held := .inr hopen
  have hself : s'.view s.next = some v := by rw [hview, Function.update_self]
  have hother : ∀ b, b ≠ s.next → s'.view b = s.view b := fun b hb => by
    rw [hview, Function.update_of_ne hb]
  have hnone : s.view s.next = none := h.fresh _ (Nat.le_refl _)
  have hbefore : ∀ b w, s.view b = some w → b ≠ s.next := by
    rintro b w hw rfl
    rw [hnone] at hw
    cases hw
  -- nobody else holds the descriptor
  have hheld_other : ∀ b w, s.view b = some w → w.Held → w.fd ≠ v.fd := fun b w hw hheld' heq =>
    hfresh (heq ▸ h.held_open b w hw hheld')
  have hqueue_free : ∀ fd ∈ s.remove_clients_, fd ≠ v.fd := by
    intro fd hfd
    obtain ⟨b, w, hw, rfl, hmanager, -⟩ := h.queue_held fd hfd
    exact hheld_other b w hw (.inl hmanager)
  exact
    { h.toOrdered.constructs hopen hheld_other (h.free v.fd hheld_other) hqueue_free hview hqueue
        hcalls with
      clients_iff := by
        intro fd b
        have hsplit : (fd, b) ∈ s'.clients_ ↔
            (fd, b) ∈ s.clients_ ∨ (v.manager_ = true ∧ v.fd = fd ∧ b = s.next) := by
          rw [hclients]
          by_cases hmanager : v.manager_ = true
          · rw [if_pos hmanager]
            simp [hmanager, eq_comm]
          · rw [if_neg hmanager]
            simp [hmanager]
        rw [hsplit, h.clients_iff]
        by_cases hb : b = s.next
        · subst hb
          rw [hnone, hself]
          simp [and_comm]
        · rw [hother b hb]
          simp [hb]
      keys_nodup := by
        rw [hclients]
        split
        · rename_i hmanager
          rw [List.map_append]
          refine h.keys_nodup.append (List.nodup_singleton _) ?_
          rw [List.map_singleton, List.disjoint_singleton, List.mem_map]
          rintro ⟨⟨fd, b⟩, hmem, hfd⟩
          obtain ⟨w, hw, hwfd, hwmanager⟩ := (h.clients_iff fd b).mp hmem
          exact hheld_other b w hw (.inl hwmanager) (hwfd.trans hfd)
        · exact h.keys_nodup
      queued := by
        intro b w hw hmanager hclosed
        rw [hqueue]
        rw [hview] at hw
        rcases update_eq_some hw with ⟨rfl, heq⟩ | ⟨-, hw⟩
        · cases heq
          rw [hopen] at hclosed
          cases hclosed
        · exact h.queued b w hw hmanager hclosed
      queue_held := by
        intro fd hfd
        rw [hqueue] at hfd
        obtain ⟨b, w, hw, hrest⟩ := h.queue_held fd hfd
        exact ⟨b, w, (hother b (hbefore b w hw)).trans hw, hrest⟩
      fresh := by
        intro b hb
        rw [hnext] at hb
        have hlt : s.next < b := hb
        rw [hother b (Nat.ne_of_gt hlt)]
        exact h.fresh b (Nat.le_of_lt hlt)
      held_open := by
        intro b w hw hheldw
        rw [hopens]
        rw [hview] at hw
        rcases update_eq_some hw with ⟨rfl, heq⟩ | ⟨-, hw⟩
        · cases heq
          exact List.mem_cons_self
        · exact List.mem_cons_of_mem _ (h.held_open b w hw hheldw)
      free := by
        intro fd hfree
        have hne : v.stage.fd ≠ fd := View.stage_fd hopen ▸ hfree s.next v hself hheld
        rw [hcalls, lastCall_snoc_other hne]
        exact h.free fd fun b w hw hheldw =>
          hfree b w ((hother b (hbefore b w hw)).trans hw) hheldw
      registered := by
        intro fd b hmem
        rw [hregistered, List.mem_append, List.mem_singleton] at hmem
        rcases hmem with hmem | heq
        · obtain ⟨w, hw, hrest⟩ := h.registered fd b hmem
          exact ⟨w, (hother b (hbefore b w hw)).trans hw, hrest⟩
        · simp only [Prod.mk.injEq, Receiver.connection.injEq] at heq
          obtain ⟨rfl, rfl⟩ := heq
          exact ⟨v, hself, rfl, hopen⟩ }

theorem Inv.change {s s' : Impl σ} (h : Inv s) (hchange : Change s s') : Inv s' := by
  cases hchange with
  | quiet hview hclients hqueue hnext hopens hregistered hcalls =>
      exact h.quiet hview hclients hqueue hnext hopens hregistered hcalls
  | closes a v hv hopen hview hclients hnext hregistered hrest =>
      exact h.closes hv hopen hview hclients hnext hregistered hrest
  | constructs v hopen hfresh hview hclients hqueue hnext hopens hregistered hcalls =>
      exact h.constructs hopen hfresh hview hclients hqueue hnext hopens hregistered hcalls

theorem Inv.changes {s s' : Impl σ} (h : Inv s) (hchanges : Changes s s') : Inv s' := by
  induction hchanges with
  | refl => exact h
  | tail _ hchange ih => exact ih.change hchange

end Impl

end Shitty.Server
