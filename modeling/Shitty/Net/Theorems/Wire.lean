import Shitty.Lib.Run
import Shitty.Net.Connection

/-!
# Bytes on the wire

Calls of `send` and `onPollOut` in any order, with a kernel that accepts what it likes:
what has been accepted and what waits in `outgoing_` against the payloads given to
`send`. One lemma follows a single call of `::send`, the next ones the two loops around
it. What goes wrong is the offset into a message of which a part has been accepted, and
it is the one thing that can.
-/

namespace Shitty.Net

open Lib

/-! ## Runs -/

inductive Event where
  | send (data : Mem) (len : Nat)
  | pollOut

def step (kernel : Nat → Reply) (c : Connection) : Event → Except Exn Connection
  | .send data len => send kernel data len c
  | .pollOut => onPollOut kernel c

/-- A run of calls from the construction of the connection on. -/
def runConnection (kernel : Nat → Reply) (events : List Event) : Except Exn Connection :=
  Run.run (step kernel) {} events

def Event.payload : Event → Bytes
  | .send data len => data.read 0 len
  | .pollOut => []

/-- All payloads given to `send`, in the order of the calls. -/
def payloads (events : List Event) : Bytes := events.flatMap Event.payload

theorem payloads_snoc (p : List Event) (e : Event) : payloads (p ++ [e]) = payloads p ++ e.payload := by
  simp [payloads]

/-- What has been accepted and what waits are the payloads, as long as the
connection is open; and nothing outside a payload was ever offered. -/
structure InOrder (sent : Bytes) (c : Connection) : Prop where
  stream : c.isOpen = true → c.wire ++ c.outgoing_.contents = sent
  inside : ∀ o ∈ c.offers, o.Inside

/-- What has been sent is in order in the state that any history leads to. -/
def SentInOrder (kernel : Nat → Reply) (events : List Event) : Prop :=
  ∀ c, runConnection kernel events = .ok c → InOrder (payloads events) c

/-- When a call is right: a payload sent while nothing waits is not accepted in
part by the first `::send`. -/
def CallOk (kernel : Nat → Reply) (c : Connection) : Event → Prop
  | .send _ len =>
      c.isOpen = true → c.outgoing_.empty = true →
        ∀ more, kernel c.calls = .accepts more → len ≤ more + 1
  | .pollOut => True

/-! ## `::send` -/

/-- How many octets of an offer were accepted: none when the call did not succeed. -/
def Sent.octets : Sent → Nat
  | .count n => n
  | .again => 0
  | .failed => 0

/-- What one call of `::send` does: some octets of the offer are accepted, and nothing else
changes. -/
structure SysSend (c : Connection) (data : Mem) (o : Offer) (r : Sent × Connection) : Prop where
  isOpen : r.2.isOpen = c.isOpen
  outgoing : r.2.outgoing_ = c.outgoing_
  wire : r.2.wire = c.wire ++ data.read o.offset r.1.octets
  count : r.1.octets ≤ o.count
  offers : ∀ o' ∈ r.2.offers, o' ∈ c.offers ∨ o' = o
  mono : ∀ o' ∈ c.offers, o' ∈ r.2.offers

theorem sys_send_spec (kernel : Nat → Reply) (c : Connection) (data : Mem) (o : Offer) :
    SysSend c data o (sys_send kernel c data o) := by
  have hnil : c.wire = c.wire ++ data.read o.offset 0 := by simp [Mem.read]
  have hmem : ∀ o' ∈ c.offers ++ [o], o' ∈ c.offers ∨ o' = o := by simp
  have hmono : ∀ o' ∈ c.offers, o' ∈ c.offers ++ [o] := fun o' h => List.mem_append_left [o] h
  unfold sys_send
  split
  · rename_i hopen
    simp only [Nat.add_sub_cancel]
    cases kernel c.calls with
    | accepts more => exact ⟨rfl, rfl, rfl, Nat.min_le_left _ _, hmem, hmono⟩
    | again => exact ⟨rfl, rfl, hnil, Nat.zero_le _, hmem, hmono⟩
    | failed => exact ⟨rfl, rfl, hnil, Nat.zero_le _, hmem, hmono⟩
  · exact ⟨rfl, rfl, hnil, Nat.zero_le _, fun o' h => Or.inl h, fun o' h => h⟩

theorem sys_send_open (kernel : Nat → Reply) {c : Connection} (h : c.isOpen = true)
    (data : Mem) (o : Offer) : o ∈ (sys_send kernel c data o).2.offers := by
  unfold sys_send
  rw [if_pos h]
  simp only [Nat.add_sub_cancel]
  cases kernel c.calls with
  | accepts more => exact List.mem_append_right _ (List.mem_singleton.mpr rfl)
  | again => exact List.mem_append_right _ (List.mem_singleton.mpr rfl)
  | failed => exact List.mem_append_right _ (List.mem_singleton.mpr rfl)

theorem sys_send_result (kernel : Nat → Reply) {c : Connection} (h : c.isOpen = true)
    (data : Mem) (o : Offer) :
    (sys_send kernel c data o).1 =
      match kernel c.calls with
      | .accepts more => .count (min o.count (more + 1))
      | .again => .again
      | .failed => .failed := by
  unfold sys_send
  rw [if_pos h]
  simp only [Nat.add_sub_cancel]
  cases kernel c.calls <;> rfl

theorem SysSend.inside {c : Connection} {data : Mem} {o : Offer} {r : Sent × Connection}
    (h : SysSend c data o r) (hc : ∀ o ∈ c.offers, o.Inside) (ho : o.Inside) :
    ∀ o ∈ r.2.offers, o.Inside := by
  intro o' ho'
  rcases h.offers o' ho' with h' | rfl
  · exact hc o' h'
  · exact ho

theorem read_memOf (bs : Bytes) {n : Nat} (h : n ≤ bs.length) :
    (memOf bs).read 0 n = bs.take n := by
  apply List.ext_getElem
  · simp [h]
  · intro i h1 h2
    simp only [Mem.length_read] at h1
    rw [Mem.getElem_read, Nat.zero_add, List.getElem_take, memOf, List.getD,
      List.getElem?_eq_getElem (by omega), Option.getD_some]

/-! ## Draining the queue -/

/-- The loop of `onPollOut` moves octets from the front of the queue to the wire. -/
theorem onPollOut_loop_inOrder {kernel : Nat → Reply} {sent : Bytes} (turns : Nat) :
    ∀ {c : Connection}, InOrder sent c → ∀ {s : Sent} {c' : Connection},
      onPollOut_loop kernel turns c = .ok (s, c') → InOrder sent c' := by
  induction turns with
  | zero =>
      intro c h s c' hloop
      cases hloop
      exact h
  | succ turns ih =>
      intro c h s c' hloop
      have hspec := sys_send_spec kernel c (memOf c.outgoing_.contents)
        { offset := 0, count := c.outgoing_.size, size := c.outgoing_.size }
      have hinside := hspec.inside h.inside (show 0 + c.outgoing_.size ≤ c.outgoing_.size by omega)
      rw [onPollOut_loop] at hloop
      generalize sys_send kernel c (memOf c.outgoing_.contents)
        { offset := 0, count := c.outgoing_.size, size := c.outgoing_.size } = r
        at hloop hspec hinside
      obtain ⟨s₁, c₁⟩ := r
      have hwire := hspec.wire
      have hcount := hspec.count
      have hopen := hspec.isOpen
      have hout := hspec.outgoing
      simp only at hwire hcount hopen hout hinside hloop
      rw [read_memOf _ (by rw [StreamBuf.length_contents]; exact hcount)] at hwire
      have hkept : s₁.octets = 0 → InOrder sent c₁ := by
        intro h0
        refine ⟨?_, hinside⟩
        intro ho
        rw [hwire, h0, hout, List.take_zero, List.append_nil]
        exact h.stream (by rw [← hopen]; exact ho)
      cases s₁ with
      | again =>
          cases hloop
          exact hkept rfl
      | failed =>
          cases hloop
          exact hkept rfl
      | count n =>
          simp only at hloop
          split at hloop
          · obtain ⟨outgoing_, hadv, hloop⟩ := bind_eq_ok.mp hloop
            obtain ⟨b', hb', hcontents⟩ := StreamBuf.advance_ok
              (show n ≤ c₁.outgoing_.size by rw [hout]; exact hcount)
            rw [hb'] at hadv
            cases hadv
            -- what was accepted has left the queue
            have hmoved : InOrder sent { c₁ with outgoing_ := outgoing_ } := by
              refine ⟨?_, hinside⟩
              intro ho
              show c₁.wire ++ outgoing_.contents = sent
              rw [hcontents, hwire, hout, List.append_assoc, Sent.octets, List.take_append_drop]
              exact h.stream (by rw [← hopen]; exact ho)
            split at hloop
            · cases hloop
              exact hmoved
            · exact ih hmoved hloop
          · cases hloop
            exact hkept (by rw [Sent.octets]; omega)

theorem InOrder.close {sent : Bytes} {c : Connection} (h : InOrder sent c) (sent' : Bytes) :
    InOrder sent' (Net.close c) :=
  ⟨fun ho => (by cases ho), h.inside⟩

theorem InOrder.updateSubscription {sent : Bytes} {c c' : Connection} (h : InOrder sent c)
    (hup : Net.updateSubscription c = .ok c') : InOrder sent c' := by
  unfold Net.updateSubscription at hup
  split at hup
  · cases hup
    exact ⟨h.stream, h.inside⟩
  · cases hup

theorem InOrder.onPollOut {kernel : Nat → Reply} {sent : Bytes} {c c' : Connection}
    (h : InOrder sent c) (hstep : Net.onPollOut kernel c = .ok c') : InOrder sent c' := by
  unfold Net.onPollOut at hstep
  split at hstep
  · exact h.updateSubscription hstep
  · obtain ⟨⟨s, c₁⟩, hloop, hstep⟩ := bind_eq_ok.mp hstep
    have h₁ := onPollOut_loop_inOrder _ h hloop
    simp only at hstep
    split at hstep
    · cases hstep
      exact h₁.close sent
    · split at hstep
      · exact h₁.updateSubscription hstep
      · cases hstep
        exact h₁

/-- A payload that is queued behind others follows them in the order of the octets. -/
theorem InOrder.write {sent : Bytes} {c : Connection} (h : InOrder sent c) (bs : Bytes) :
    InOrder (sent ++ bs) { c with outgoing_ := c.outgoing_.write bs } := by
  refine ⟨?_, h.inside⟩
  intro ho
  show c.wire ++ (c.outgoing_.write bs).contents = _
  rw [StreamBuf.contents_write, ← List.append_assoc, h.stream ho]

/-! ## Sending at once -/

theorem send_immediate_loop_mono {kernel : Nat → Reply} {data : Mem} {len : Nat} (turns : Nat) :
    ∀ {total_sent : Nat} {c : Connection} (o : Offer), o ∈ c.offers →
      o ∈ (send_immediate_loop kernel data len turns total_sent c).2.2.offers := by
  induction turns with
  | zero =>
      intro total_sent c o ho
      exact ho
  | succ turns ih =>
      intro total_sent c o ho
      have hmono := (sys_send_spec kernel c data
        { offset := total_sent, count := len + total_sent, size := len }).mono o ho
      rw [send_immediate_loop]
      generalize sys_send kernel c data
        { offset := total_sent, count := len + total_sent, size := len } = r at hmono ⊢
      obtain ⟨s₁, c₁⟩ := r
      cases s₁ with
      | again => exact hmono
      | failed => exact hmono
      | count n =>
          simp only
          split
          · exact ih o hmono
          · exact hmono

theorem send_immediate_offers {kernel : Nat → Reply} {data : Mem} {len : Nat} {c : Connection}
    {o : Offer} (h : o ∈ (send_immediate_loop kernel data len (len + 1) 0 c).2.2.offers) :
    o ∈ (send_immediate kernel data len c).offers := by
  unfold send_immediate
  generalize send_immediate_loop kernel data len (len + 1) 0 c = r at h ⊢
  obtain ⟨s, total_sent, c'⟩ := r
  simp only
  split
  · exact h
  · split <;> exact h

/-- After a part of the payload has been accepted, more is offered than is left. -/
theorem send_immediate_outside {kernel : Nat → Reply} (data : Mem) {len more : Nat}
    {c : Connection} (hopen : c.isOpen = true) (hk : kernel c.calls = .accepts more)
    (hpart : more + 1 < len) :
    ∃ o ∈ (send_immediate kernel data len c).offers, ¬ o.Inside := by
  obtain ⟨turns, rfl⟩ : ∃ turns, len = turns + 1 := ⟨len - 1, by omega⟩
  refine ⟨{ offset := more + 1, count := turns + 1 + (more + 1), size := turns + 1 },
    send_immediate_offers ?_, ?_⟩
  · have hres := sys_send_result kernel hopen data
      { offset := 0, count := turns + 1 + 0, size := turns + 1 }
    have hopen₁ := (sys_send_spec kernel c data
      { offset := 0, count := turns + 1 + 0, size := turns + 1 }).isOpen
    rw [send_immediate_loop]
    generalize sys_send kernel c data
      { offset := 0, count := turns + 1 + 0, size := turns + 1 } = r at hres hopen₁ ⊢
    obtain ⟨s₁, c₁⟩ := r
    simp only [hk] at hres
    rw [Nat.min_eq_right (by omega)] at hres
    subst hres
    simp only [Nat.zero_add]
    rw [if_pos ⟨by omega, hpart⟩, send_immediate_loop]
    have hin := sys_send_open kernel (show c₁.isOpen = true by rw [hopen₁]; exact hopen)
      data { offset := more + 1, count := turns + 1 + (more + 1), size := turns + 1 }
    generalize sys_send kernel c₁ data
      { offset := more + 1, count := turns + 1 + (more + 1), size := turns + 1 } = r at hin ⊢
    obtain ⟨s₂, c₂⟩ := r
    cases s₂ with
    | again => exact hin
    | failed => exact hin
    | count n =>
        simp only
        split
        · exact send_immediate_loop_mono _ _ hin
        · exact hin
  · show ¬ more + 1 + (turns + 1 + (more + 1)) ≤ turns + 1
    omega

/-- All of the data is sent where the kernel accepts that much at once. -/
theorem sys_send_whole {kernel : Nat → Reply} {data : Mem} {len n : Nat} {c : Connection}
    (hwhole : c.isOpen = true → ∀ more, kernel c.calls = .accepts more → len ≤ more + 1)
    (h : (sys_send kernel c data { offset := 0, count := len + 0, size := len }).1 = .count n) :
    n = len := by
  cases hopen : c.isOpen with
  | false =>
      rw [sys_send, if_neg (by rw [hopen]; simp)] at h
      cases h
  | true =>
      rw [sys_send_result kernel hopen] at h
      cases hk : kernel c.calls with
      | again =>
          rw [hk] at h
          cases h
      | failed =>
          rw [hk] at h
          cases h
      | accepts more =>
          rw [hk] at h
          have hle := hwhole hopen more hk
          have heq : min (len + 0) (more + 1) = n := Sent.count.inj h
          omega

/-- With the payload accepted at once or not at all, its octets stay in order. -/
theorem InOrder.send_immediate {kernel : Nat → Reply} {sent : Bytes} {data : Mem} {len : Nat}
    {c : Connection} (h : InOrder sent c) (hempty : c.outgoing_.empty = true)
    (hwhole : c.isOpen = true → ∀ more, kernel c.calls = .accepts more → len ≤ more + 1) :
    InOrder (sent ++ data.read 0 len) (Net.send_immediate kernel data len c) := by
  have hspec := sys_send_spec kernel c data { offset := 0, count := len + 0, size := len }
  have hinside := hspec.inside h.inside (show 0 + (len + 0) ≤ len by omega)
  have hnil := (StreamBuf.empty_iff c.outgoing_).mp hempty
  have hcount : ∀ n, (sys_send kernel c data { offset := 0, count := len + 0, size := len }).1 =
      .count n → n = len := fun n => sys_send_whole hwhole
  unfold Net.send_immediate
  rw [send_immediate_loop]
  generalize sys_send kernel c data { offset := 0, count := len + 0, size := len } = r at hspec hinside hcount ⊢
  obtain ⟨s₁, c₁⟩ := r
  have hwire := hspec.wire
  have hopen := hspec.isOpen
  have hout := hspec.outgoing
  simp only at hwire hopen hout hinside hcount
  have hkept : s₁.octets = 0 → InOrder sent c₁ := by
    intro h0
    refine ⟨?_, hinside⟩
    intro ho
    rw [hwire, h0, hout]
    simpa [Mem.read] using h.stream (by rw [← hopen]; exact ho)
  cases s₁ with
  | failed => exact (hkept rfl).close _
  | again =>
      simp only
      rw [if_neg (by simp)]
      split
      · exact (hkept rfl).write _
      · rename_i h0
        have hlen : len = 0 := by omega
        subst hlen
        simpa [Mem.read] using hkept rfl
  | count n =>
      -- all at once, so nothing is left for a second turn
      have hn : n = len := hcount n rfl
      subst hn
      have hsent : InOrder (sent ++ data.read 0 n) c₁ := by
        refine ⟨?_, hinside⟩
        intro ho
        have hstream := h.stream (by rw [← hopen]; exact ho)
        rw [hnil, List.append_nil] at hstream
        rw [hwire, hout, hnil, List.append_nil, hstream]
        rfl
      simp only [Nat.zero_add, Nat.lt_irrefl, and_false, if_false]
      split
      · exact hsent.close _
      · exact hsent

/-! ## Any run -/

/-- One call that is right keeps all that has been sent in order. -/
theorem InOrder.step {kernel : Nat → Reply} {sent : Bytes} {c c' : Connection} {e : Event}
    (h : InOrder sent c) (hok : CallOk kernel c e) (hstep : Net.step kernel c e = .ok c') :
    InOrder (sent ++ e.payload) c' := by
  cases e with
  | pollOut =>
      rw [Event.payload, List.append_nil]
      exact h.onPollOut hstep
  | send data len =>
      simp only [Net.step, Net.send] at hstep
      split at hstep
      · rename_i hempty
        cases hstep
        exact h.send_immediate hempty fun ho more hk => hok ho hempty more hk
      · exact (h.write _).onPollOut hstep

/-- Bytes on the wire are the bytes sent, in order, in every state of a run
exactly when no payload sent while nothing waits is accepted in part by the
first `::send`. -/
theorem wire_inOrder_iff (kernel : Nat → Reply) (events : List Event) :
    (∀ p, p <+: events → SentInOrder kernel p) ↔
      ∀ p e, p ++ [e] <+: events → ∀ c, runConnection kernel p = .ok c → CallOk kernel c e := by
  refine Run.always_iff ?_ ?_
  · intro c hc
    cases hc
    exact ⟨fun _ => rfl, by simp⟩
  · intro p e _ hbefore
    have hp := hbefore p List.prefix_rfl
    constructor
    · -- a call that is not right leaves its mark in what was offered
      intro hsent c hc
      cases e with
      | pollOut => trivial
      | send data len =>
          intro hopen hempty more hk
          by_contra hpart
          obtain ⟨o, ho, hout⟩ :=
            send_immediate_outside data hopen hk (show more + 1 < len by omega)
          have hrun : runConnection kernel (p ++ [.send data len]) =
              .ok (send_immediate kernel data len c) := by
            rw [runConnection, Run.run_snoc, ← runConnection, hc]
            show Net.send kernel data len c = _
            rw [Net.send, if_pos hempty]
          exact hout ((hsent _ hrun).inside o ho)
    · intro hok c' hc'
      obtain ⟨c, hc, hstep⟩ := Run.run_snoc_ok hc'
      rw [payloads_snoc]
      exact (hp c hc).step (hok c hc) hstep

/-- Three octets of which the kernel takes one, then what it is offered. -/
theorem wire_accepted_in_part :
    ¬ ∀ (kernel : Nat → Reply) (events : List Event), SentInOrder kernel events := by
  intro h
  have hrun := h (fun i => if i = 0 then .accepts 0 else .accepts 3)
    [.send (memOf [0x61#8, 0x62#8, 0x63#8, 0x64#8, 0x65#8]) 3]
  have hwire := (hrun _ rfl).stream rfl
  exact absurd hwire (by decide)

end Shitty.Net
