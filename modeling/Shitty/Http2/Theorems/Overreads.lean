import Shitty.Http2.Logic.Overreads

/-!
# No handler reads behind the end of the buffer

Whatever a new connection receives, and however it is cut: each handler is called when
its frame is in the buffer as a whole, and reads no octet that is not. So no exception
that leaves the transport comes from such a read. It follows for all octets and cuttings
from what holds behind every step.
-/

namespace Shitty.Http2.ServerTransport

theorem sound_new (peerSettings_ : Settings) : Sound (Impl.new peerSettings_) where
  idle p hp := by
    rw [List.mem_singleton.mp hp]
  whole f hf := absurd hf List.not_mem_nil

/-- A run keeps what holds at all times, up to an exception. -/
theorem run_sound : ∀ (pieces : List Bytes) {s : Impl}, Sound s →
    Whole (run pieces s).1 ∧ ∀ e, (run pieces s).2 = some e → Harmless e := by
  intro pieces
  induction pieces with
  | nil => exact fun hs => ⟨hs.whole, nofun⟩
  | cons piece pieces ih =>
      intro s hs
      have hmeets := onInput_safe (s.feed piece) ⟨hs.idle, hs.whole⟩
      rw [run]
      cases hinput : onInput (s.feed piece) with
      | ok u t =>
          rw [hinput] at hmeets
          exact ih hmeets
      | error e t =>
          rw [hinput] at hmeets
          refine ⟨hmeets.2, fun e' he => ?_⟩
          cases he
          exact hmeets.1

/-- The octets of a frame were in the buffer when its handler was called, and no read
behind the end of the buffer ends a run. -/
theorem handlers_read_buffered (peerSettings_ : Settings) (pieces : List Bytes) :
    (∀ f ∈ (run pieces (Impl.new peerSettings_)).1.handled, f.2.length = f.1.length.toNat) ∧
      (run pieces (Impl.new peerSettings_)).2 ≠ some .overread ∧
      (run pieces (Impl.new peerSettings_)).2 ≠
        some (.assertion "buf.size() >= frameHeader.length") := by
  obtain ⟨hwhole, hharmless⟩ := run_sound pieces (sound_new peerSettings_)
  exact ⟨hwhole, fun h => (hharmless _ h).1 rfl, fun h => (hharmless _ h).2 rfl⟩

/-- A padded DATA frame that claims more padding than it has octets is not looked at. -/
example : (run [CLIENT_PREFACE ++ [0, 0, 1, 0, 8, 0, 0, 0, 1, 0xff]] (Impl.new {})).2 =
    some (.runtime_error "stream_error STREAM_CLOSED") := by
  decide +kernel

end Shitty.Http2.ServerTransport
