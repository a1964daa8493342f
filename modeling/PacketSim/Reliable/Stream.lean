import Mathlib
import PacketSim.Lib.Framing
import PacketSim.Reliable.Definitions

/-!
# Reliable — Stream

The reader thread on a stream of whole frames: it stores what was written, frame by frame, however
the bytes arrive.
-/

namespace PacketSim.Reliable

open Lib

namespace Reader

/-- The bytes of the frame being read. -/
def taken : Reader → List Byte
  | .reading buf => buf
  | _ => []

/-- The reader is at the beginning of a frame on the stream, or has its first bytes.  All frames
satisfy `P`. -/
structure Whole (P : List Byte → Prop) (closed : Prop) (r : Reader) (responses : List Byte) :
    Prop where
  stream : r ≠ .exited → Torn P closed (r.taken ++ responses)
  storing : ∀ buf, r = .storing buf → P buf.bytes

variable {order : ByteOrder} {P : List Byte → Prop} {closed : Prop} {r : Reader} {b : Sender}
  {responses : List Byte}

/-- The reader has no whole frame. -/
theorem whole_of_torn (h : Torn P closed (r.taken ++ responses)) (hr : ∀ buf, r ≠ .storing buf) :
    r.Whole P closed responses :=
  ⟨fun _ => h, fun buf hbuf => absurd hbuf (hr buf)⟩

theorem whole_exited (responses : List Byte) : exited.Whole P closed responses :=
  ⟨fun hne => absurd rfl hne, by simp⟩

/-- **One step of the reader.**  What it stores is a frame. -/
theorem Whole.step (hlen : ∀ f, P f → f.length = CHUNK_SIZE + 2) (h : r.Whole P closed responses)
    (b : Sender) (env : ReaderEnv) :
    (r.step order b responses env).1.Whole P closed (r.step order b responses env).2.2 ∧
      ((r.step order b responses env).2.1 = b ∨
        ∃ buf, r = .storing buf ∧ (r.step order b responses env).2.1 = b.store order buf) := by
  unfold Reader.step
  cases r with
  | polling =>
      have hstream := h.stream (by simp)
      dsimp only
      split_ifs
      · exact ⟨whole_of_torn hstream (by simp), .inl rfl⟩
      · exact ⟨whole_exited _, .inl rfl⟩
      · exact ⟨whole_of_torn hstream (by simp), .inl rfl⟩
  | reading buf =>
      dsimp only
      split_ifs with herror hfull
      · exact ⟨whole_exited _, .inl rfl⟩
      · -- the frame is complete
        generalize min env.bytes (CHUNK_SIZE + 2 - buf.length) = k at hfull
        have hstream : Torn P closed ((buf ++ responses.take k) ++ responses.drop k) := by
          rw [List.append_assoc, List.take_append_drop]
          exact h.stream (by simp)
        obtain ⟨hframe, hrest⟩ := hstream.read hlen (Nat.succ_pos _) hfull
        refine ⟨⟨fun _ => hrest, fun buf' heq => ?_⟩, .inl rfl⟩
        cases heq
        exact hframe
      · generalize min env.bytes (CHUNK_SIZE + 2 - buf.length) = k
        refine ⟨whole_of_torn ?_ (by simp), .inl rfl⟩
        rw [taken, List.append_assoc, List.take_append_drop]
        exact h.stream (by simp)
  | storing buf =>
      exact ⟨whole_of_torn (h.stream (by simp)) (by simp), .inr ⟨buf, rfl, rfl⟩⟩
  | exited => exact ⟨h, .inl rfl⟩

end Reader

end PacketSim.Reliable
