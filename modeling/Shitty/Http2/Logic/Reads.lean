import Shitty.Http2.Logic.Receive

/-!
# A stream in several reads

However the stream is cut, the connection drains it as the consumer does for the offsets
behind which some read ends too early. The offsets of a stream are counted from its
first octet on. Between two reads the connection waits, and the next read takes it on
from there.
-/

namespace Shitty.Http2.ServerTransport

open Lib.Resumable

/-- `c` octets have been received when some read ends. -/
def ReadUpTo (pieces : List Bytes) (c : Nat) : Prop :=
  ∃ front, front <+: pieces ∧ front.flatten.length = c

/-- A read ends behind offset `p`, with less than eight octets from there on. -/
def EndsBehind (pieces : List Bytes) (p : Nat) : Prop :=
  ∃ c, ReadUpTo pieces c ∧ p ≤ c ∧ c < p + 8

/-- No read ends where nine octets of the preface are there, and not all. -/
def SparesPreface (pieces : List Bytes) : Prop :=
  ∀ c, ReadUpTo pieces c → c < FrameHeader.SIZE ∨ CLIENT_PREFACE.length ≤ c

theorem readUpTo_front {front : List Bytes} {pieces : List Bytes} (h : front <+: pieces) :
    ReadUpTo pieces front.flatten.length := ⟨front, h, rfl⟩

theorem flatten_le {front pieces : List Bytes} (h : front <+: pieces) :
    front.flatten.length ≤ pieces.flatten.length := by
  obtain ⟨rest, rfl⟩ := h
  rw [List.flatten_append, List.length_append]
  omega

/-- Reads end one behind the other. -/
theorem readUpTo_between {front todo : List Bytes} {piece : Bytes} {c : Nat}
    (h : ReadUpTo (front ++ piece :: todo) c) :
    c ≤ front.flatten.length ∨ (front ++ [piece]).flatten.length ≤ c := by
  obtain ⟨front', hfront, rfl⟩ := h
  have hpre : front ++ [piece] <+: front ++ piece :: todo := ⟨todo, by simp⟩
  rcases List.prefix_or_prefix_of_prefix hfront hpre with h | h
  · rcases List.prefix_concat_iff.mp h with rfl | h
    · exact .inr (Nat.le_refl _)
    · exact .inl (flatten_le h)
  · exact .inr (flatten_le h)

theorem fits_endsBehind (front todo : List Bytes) (piece : Bytes) :
    Fits (EndsBehind (front ++ piece :: todo)) front.flatten.length
      (front ++ [piece]).flatten.length := by
  intro p hbefore hp
  constructor
  · rintro ⟨c, hc, hpc, hlt⟩
    rcases readUpTo_between hc with h | h <;> omega
  · intro hlt
    exact ⟨_, readUpTo_front ⟨todo, by simp⟩, hp, hlt⟩

/-- A state between two reads: what has been received is waiting in vain, and
before the preface all of it is still there. -/
structure Between (s : Impl) (received : Nat) : Prop where
  idle : s.Idle
  inside : s.buf.length ≤ received
  waits : s.buf.length < need s
  untouched : s.prefaceReceived_ = false →
    s.currentFrameHeader_ = none ∧ s.buf.length = received

/-- The next read makes a connection ready for the loop that has waited for more. -/
theorem Between.ready {s : Impl} {received : Nat} (h : Between s received) (piece : Bytes) :
    Ready received (s.feed piece) (received + piece.length) := by
  have hinside := h.inside
  have hwaits := h.waits
  have hlen : (s.feed piece).buf.length = s.buf.length + piece.length := List.length_append
  have hneed : need (s.feed piece) = need s := rfl
  exact ⟨h.idle, by omega, by omega⟩

theorem run_feeds (pieces : List Bytes) : ∀ (todo front : List Bytes) (s : Impl),
    front ++ todo = pieces → Between s front.flatten.length →
    (s.prefaceReceived_ = false → SparesPreface pieces) →
    Feeds (frames (EndsBehind pieces)) (s, front.flatten.length) todo
      (((run todo s).1, pieces.flatten.length), (run todo s).2) := by
  intro todo
  induction todo with
  | nil =>
      intro front s hsplit _ _
      rw [List.append_nil] at hsplit
      rw [hsplit]
      exact .nil
  | cons piece todo ih =>
      intro front s hsplit hs hspares
      have hlen : (front ++ [piece]).flatten.length = front.flatten.length + piece.length := by
        simp
      have hsplit' : front ++ [piece] ++ todo = pieces := by
        rw [List.append_assoc]
        exact hsplit
      have hfits := fits_endsBehind front todo piece
      rw [hsplit, hlen] at hfits
      -- a piece that ends inside of the preface leaves only what is spared
      have huntouched : Untouched (s.feed piece) := by
        intro hpreface
        obtain ⟨hcurrent, hbuf⟩ := hs.untouched hpreface
        have hc := hspares hpreface _ (readUpTo_front ⟨todo, hsplit'⟩)
        rw [hlen, ← hbuf, ← List.length_append] at hc
        exact ⟨hcurrent, hc⟩
      obtain ⟨t, err, hdrains, heq⟩ := onInput_drains hfits (hs.ready piece) huntouched
      cases err with
      | some e =>
          -- an exception: what is still to come is not looked at
          have hrun : run (piece :: todo) s = (t.feed todo.flatten, some e) := by
            rw [run, heq]
          have htotal : pieces.flatten.length =
              front.flatten.length + piece.length + todo.flatten.length := by
            rw [← hsplit', List.flatten_append, List.length_append, hlen]
          rw [hrun, htotal]
          exact @Feeds.failed _ _ _ (frames _) (s, front.flatten.length)
            (t, front.flatten.length + piece.length) piece todo e hdrains
      | none =>
          have hrun : run (piece :: todo) s = run todo t := by
            rw [run, heq]
          obtain ⟨hready, -, hwait, hor⟩ := drained_ready hdrains rfl (hs.ready piece)
          -- without its preface the transport has only taken the piece in
          have hsame : t.prefaceReceived_ = false → t = s.feed piece := by
            intro hpreface
            rcases hor with hor | hor
            · rw [show t.prefaceReceived_ = true from hor] at hpreface
              cases hpreface
            · exact hor
          rw [hrun]
          refine @Feeds.drained _ _ _ (frames _) (s, front.flatten.length)
            (t, front.flatten.length + piece.length) piece todo _ hdrains ?_
          rw [← hlen] at hwait hready hfits ⊢
          refine ih (front ++ [piece]) t hsplit' ⟨hready.idle, hready.inside,
            lt_need_of_wait hready hfits hwait, ?_⟩ ?_
          · intro hpreface
            have ht := hsame hpreface
            rw [ht] at hpreface ⊢
            obtain ⟨hcurrent, hbuf⟩ := hs.untouched hpreface
            refine ⟨hcurrent, ?_⟩
            rw [hlen, ← hbuf]
            exact List.length_append
          · intro hpreface
            have ht := hsame hpreface
            rw [ht] at hpreface
            exact hspares hpreface

/-- Before anything has been received, nothing is there to be done. -/
theorem Between.waits_empty {s : Impl} (h : Between s 0) (short : Nat → Prop) :
    step short s 0 = .wait := by
  have hbuf : s.buf = [] := List.length_eq_zero_iff.mp (Nat.le_zero.mp h.inside)
  have hwaits := h.waits
  unfold need at hwaits
  unfold step
  split
  · rw [prefaceStep, hbuf]
    rfl
  · rename_i hpreface
    rw [if_neg hpreface] at hwaits
    cases hcurrent : s.currentFrameHeader_ with
    | none =>
        simp only [headerStep, hbuf]
        rfl
    | some header =>
        rw [hcurrent] at hwaits
        simp only [bodyStep]
        exact if_pos hwaits

/-- However it is cut, the stream is drained. -/
theorem run_drains {pieces : List Bytes} {s : Impl} (hs : Between s 0)
    (hspares : s.prefaceReceived_ = false → SparesPreface pieces) :
    Drains (frames (EndsBehind pieces)) (s.feed pieces.flatten, pieces.flatten.length)
      (((run pieces s).1, pieces.flatten.length), (run pieces s).2) := by
  have hfeeds := run_feeds pieces pieces [] s rfl hs hspares
  have hdrains := hfeeds.drains (frames_wait (hs.waits_empty _))
  change Drains _ (s.feed pieces.flatten, 0 + pieces.flatten.length) _ at hdrains
  rw [Nat.zero_add] at hdrains
  exact hdrains

end Shitty.Http2.ServerTransport
