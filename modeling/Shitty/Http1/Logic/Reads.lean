import Shitty.Http1.Logic.Framing

/-!
# A stream in several reads

`processInput` stops in front of a body in the first read that reaches it, and
takes all there is in the next one. However the stream is cut, the transport
drains it as the consumer does for which a body is due where the second read ends
that ends in or behind it.
-/

namespace Shitty.Http1.Transport

open Lib.Resumable

variable {ω : Type} {find : Find} {virtual : Virtual ω} {s : Transport ω}

/-- The end of the second of the reads that end at offset `start` or behind it. -/
def secondEnd (pieces : List Bytes) (start : Nat) : Option Nat :=
  ((ends 0 pieces).filter fun c => start ≤ c)[1]?

section

variable {front todo : List Bytes} {piece : Bytes}

/-- No read of the first ones ends at or behind the offset. -/
theorem filter_front {start : Nat} (h : front.flatten.length < start) :
    (ends 0 front).filter (fun c => start ≤ c) = [] := by
  rw [List.filter_eq_nil_iff]
  intro c hc
  have hle := le_of_mem_ends hc
  rw [Nat.zero_add] at hle
  simp only [decide_eq_true_eq]
  omega

theorem ends_split (front todo : List Bytes) (piece : Bytes) :
    ends 0 (front ++ piece :: todo) =
      ends 0 front ++ (front ++ [piece]).flatten.length ::
        ends (front ++ [piece]).flatten.length todo := by
  rw [ends_append, Nat.zero_add, ends]
  simp

/-- Offsets in the last read are due in the next. -/
theorem secondEnd_next {last : Bytes} {start : Nat} (hprev : front.flatten.length < start)
    (hstart : start ≤ (front ++ [last]).flatten.length) :
    secondEnd (front ++ [last] ++ piece :: todo) start =
      some (front ++ [last] ++ [piece]).flatten.length := by
  have hlen : (front ++ [last] ++ [piece]).flatten.length =
      (front ++ [last]).flatten.length + piece.length := by
    simp
    omega
  have hsplit : front ++ [last] ++ piece :: todo = front ++ last :: (piece :: todo) := by simp
  rw [secondEnd, hsplit, ends_split, List.filter_append, filter_front hprev, List.nil_append, ends,
    ← hlen, List.filter_cons_of_pos (by simpa using hstart),
    List.filter_cons_of_pos (by rw [hlen, decide_eq_true_eq]; omega)]
  rfl

/-- Offsets behind what had been received before a read are due behind that read. -/
theorem secondEnd_later {start stop : Nat} (hne : ∀ q ∈ todo, q ≠ [])
    (hstart : front.flatten.length < start)
    (h : secondEnd (front ++ piece :: todo) start = some stop) :
    (front ++ [piece]).flatten.length < stop := by
  rw [secondEnd, ends_split, List.filter_append, filter_front hstart, List.nil_append] at h
  have hmem : stop ∈ ends (front ++ [piece]).flatten.length todo := by
    by_cases hle : start ≤ (front ++ [piece]).flatten.length
    · rw [List.filter_cons_of_pos (by simpa using hle), List.getElem?_cons_succ] at h
      exact List.mem_of_mem_filter (List.mem_of_getElem? h)
    · rw [List.filter_cons_of_neg (by simpa using hle)] at h
      exact List.mem_of_mem_filter (List.mem_of_getElem? h)
  exact lt_of_mem_ends hne hmem

end

/-- A body is due behind the offset where it begins, in the stream. -/
theorem secondEnd_bounds {pieces : List Bytes} {start stop : Nat}
    (hne : ∀ piece ∈ pieces, piece ≠ []) (h : secondEnd pieces start = some stop) :
    start < stop ∧ stop ≤ pieces.flatten.length := by
  have hpairwise : ((ends 0 pieces).filter fun c => start ≤ c).Pairwise (· < ·) :=
    (ends_pairwise 0 hne).filter _
  have hmem := List.mem_of_mem_filter (List.mem_of_getElem? h)
  have hle := le_of_mem_ends hmem
  refine ⟨?_, by omega⟩
  rw [secondEnd] at h
  cases hends : (ends 0 pieces).filter fun c => start ≤ c with
  | nil => rw [hends] at h; cases h
  | cons first others =>
      rw [hends, List.getElem?_cons_succ] at h
      rw [hends] at hpairwise
      have hlt := List.rel_of_pairwise_cons hpairwise (List.mem_of_getElem? h)
      have hfirst : first ∈ (ends 0 pieces).filter fun c => start ≤ c := by
        rw [hends]
        exact List.mem_cons_self
      have hstart := (List.mem_filter.mp hfirst).2
      simp only [decide_eq_true_eq] at hstart
      omega

/-- A state between two reads: a body that is to be read next begins in the last one,
and no line is complete. -/
structure Between (front : List Bytes) (s : Transport ω) : Prop where
  inside : s.buf.length ≤ front.flatten.length
  body : parked s = true → ∃ front' last, front = front' ++ [last] ∧
    front'.flatten.length < front.flatten.length - s.buf.length
  line : parked s = false → LF ∉ s.buf

theorem Between.entered {front : List Bytes} (h : Between front s) (todo : List Bytes)
    (piece : Bytes) :
    Entered (secondEnd (front ++ piece :: todo)) front.flatten.length
      (front ++ [piece]).flatten.length (s.feed piece) := by
  have hinside := h.inside
  have hlen : (s.feed piece).buf.length = s.buf.length + piece.length := List.length_append
  have hreceived : (front ++ [piece]).flatten.length = front.flatten.length + piece.length := by
    simp
  refine ⟨by omega, ?_, ?_⟩
  · intro hparked
    obtain ⟨front', last, rfl, hprev⟩ := h.body hparked
    rw [show (front' ++ [last] ++ [piece]).flatten.length - (s.feed piece).buf.length =
      (front' ++ [last]).flatten.length - s.buf.length by omega]
    exact secondEnd_next hprev (Nat.sub_le _ _)
  · intro hparked before rest hsplit hbefore
    have hline := h.line hparked
    have hsplit' : s.buf ++ piece = before ++ LF :: rest := hsplit
    -- the line feed is not among the octets that were there before the read
    have hle : s.buf.length ≤ before.length := by
      by_contra hgt
      have hmem : LF ∈ (s.buf ++ piece).take s.buf.length := by
        rw [hsplit', List.take_append, List.mem_append]
        right
        rw [show s.buf.length - before.length = s.buf.length - before.length - 1 + 1 by omega]
        exact List.mem_cons_self
      rw [List.take_left] at hmem
      exact hline hmem
    have hsum := congrArg List.length hsplit'
    rw [List.length_append, List.length_append, List.length_cons] at hsum
    omega

theorem later_of_ne (front : List Bytes) {todo : List Bytes} (piece : Bytes)
    (hne : ∀ q ∈ todo, q ≠ []) :
    Later (secondEnd (front ++ piece :: todo)) front.flatten.length
      (front ++ [piece]).flatten.length :=
  fun _ _ hstart hstop => secondEnd_later hne hstart hstop

/-- When the transport waits for more, and not for a body, there is no whole line in the buffer. -/
theorem line_of_wait {due : Nat → Option Nat} {received : Nat} (hparked : parked s = false)
    (h : step find virtual due s received = .wait) : LF ∉ s.buf := by
  intro hline
  have hbuf : s.buf ≠ [] := List.ne_nil_of_mem hline
  cases hreplaced : virtual.replaced s.world with
  | true =>
      rw [step_replaced hbuf hparked hreplaced] at h
      cases h
  | false =>
      rw [step_line find due received hparked hreplaced hline] at h
      cases hresult : processInput find virtual s <;> rw [hresult] at h <;> cases h

theorem run_feeds (find : Find) (virtual : Virtual ω) {pieces : List Bytes}
    (hne : ∀ piece ∈ pieces, piece ≠ []) :
    ∀ (todo front : List Bytes) (s : Transport ω), front ++ todo = pieces → Between front s →
      Feeds (messages find virtual (secondEnd pieces)) (s, front.flatten.length) todo
        (((run find virtual todo s).1, pieces.flatten.length), (run find virtual todo s).2) := by
  intro todo
  induction todo with
  | nil =>
      intro front s hsplit _
      rw [List.append_nil] at hsplit
      rw [hsplit]
      exact .nil
  | cons piece todo ih =>
      intro front s hsplit hs
      have hlen : (front ++ [piece]).flatten.length = front.flatten.length + piece.length := by
        simp
      have hsplit' : front ++ [piece] ++ todo = pieces := by
        rw [List.append_assoc]
        exact hsplit
      have hpiece : piece ≠ [] := hne piece (by rw [← hsplit]; simp)
      have hne' : ∀ q ∈ todo, q ≠ [] := fun q hq => hne q (by rw [← hsplit]; simp [hq])
      have hlater := later_of_ne front piece hne'
      have hentered := hs.entered todo piece
      rw [hsplit] at hlater hentered
      have hpos := List.length_pos_iff.mpr hpiece
      obtain ⟨t, err, hdrains, heq, hbetween⟩ := onInput_drains find virtual hlater
        (by omega) (List.append_ne_nil_of_right_ne_nil s.buf hpiece) hentered
      rw [hlen] at hdrains
      cases err with
      | some e =>
          -- an exception: what is still to come is not looked at
          have hrun : run find virtual (piece :: todo) s = (t.feed todo.flatten, some e) := by
            rw [run, heq]
            rfl
          have htotal : pieces.flatten.length =
              front.flatten.length + piece.length + todo.flatten.length := by
            rw [← hsplit', List.flatten_append, List.length_append, hlen]
          rw [hrun, htotal]
          exact @Feeds.failed _ _ _ (messages find virtual _) (s, front.flatten.length)
            (t, front.flatten.length + piece.length) piece todo e hdrains
      | none =>
          have hrun : run find virtual (piece :: todo) s = run find virtual todo t := by
            rw [run, heq]
            rfl
          -- between two reads again
          obtain ⟨hinside, hbody⟩ := hbetween rfl
          have hwait := Counting.wait_iff.mp (hdrains.waits rfl)
          rw [hrun]
          refine @Feeds.drained _ _ _ (messages find virtual _) (s, front.flatten.length)
            (t, front.flatten.length + piece.length) piece todo _ hdrains ?_
          rw [← hlen]
          exact ih (front ++ [piece]) t hsplit'
            ⟨hinside, fun hparked => ⟨front, piece, rfl, hbody hparked⟩,
              fun hparked => line_of_wait hparked hwait⟩

/-- However it is cut, the stream is drained. -/
theorem run_drains (find : Find) (virtual : Virtual ω) {pieces : List Bytes}
    (hne : ∀ piece ∈ pieces, piece ≠ []) (hbuf : s.buf = []) (hparked : parked s = false) :
    Drains (messages find virtual (secondEnd pieces))
      (s.feed pieces.flatten, pieces.flatten.length)
      (((run find virtual pieces s).1, pieces.flatten.length), (run find virtual pieces s).2) := by
  have hbetween : Between [] s := by
    refine ⟨by rw [hbuf]; exact Nat.le_refl _, fun hcontra => ?_, fun _ => by rw [hbuf]; simp⟩
    rw [hparked] at hcontra
    cases hcontra
  have hfeeds := run_feeds find virtual hne pieces [] s rfl hbetween
  have hwait : (messages find virtual (secondEnd pieces)).step (s, 0) = .wait :=
    Counting.wait_iff.mpr (step_empty hbuf)
  have hdrains := hfeeds.drains hwait
  change Drains _ (s.feed pieces.flatten, 0 + pieces.flatten.length) _ at hdrains
  rw [Nat.zero_add] at hdrains
  exact hdrains

end Shitty.Http1.Transport
