import Mathlib
import PacketSim.Reliable.Definitions

/-!
# Reliable — Steps

What one step of the client's `main` and of the server's connection loop can do, said once
(`Client.step_does`, `Server.step_does`).
-/

namespace PacketSim.Reliable

/-! ### The client -/

namespace Client

/-- A step: the client after it, its buffer, and the identifier it requests. -/
inductive Does (c : Client) (b : Sender) (now : ℤ) : Client × Sender × Option UInt16 → Prop where
  | begin (hpc : c.pc = .loop) (hmore : c.totalWritten < NUM_MSGS) :
      Does c b now
        ({ c with pc := .requesting now (windowEnd c.nextExpected) c.nextExpected }, b, none)
  | finish (hpc : c.pc = .loop) (hdone : ¬ c.totalWritten < NUM_MSGS) :
      Does c b now ({ c with pc := .exited }, b, none)
  | request {reading : ℤ} {w : WindowEnd} {msgId : UInt16}
      (hpc : c.pc = .requesting reading w msgId)
      (hlt : msgId < w.val) (hid : msgId.toNat < NUM_MSGS) :
      Does c b now
        ({ (c.request reading msgId hid).1 with pc := .requesting reading w (msgId + 1) }, b,
          (c.request reading msgId hid).2)
  | endPass {reading : ℤ} {w : WindowEnd} {msgId : UInt16}
      (hpc : c.pc = .requesting reading w msgId)
      (hend : ¬ msgId < w.val) : Does c b now ({ c with pc := .draining false }, b, none)
  | ready {madeProgress : Bool} (hpc : c.pc = .draining madeProgress)
      (hready : b.dataReady = true) : Does c b now ({ c with pc := .taking madeProgress }, b, none)
  | empty {madeProgress : Bool} (hpc : c.pc = .draining madeProgress) :
      Does c b now ({ c with pc := .writing madeProgress }, b, none)
  | take {madeProgress : Bool} {msg : Msg} {b' : Sender} (hpc : c.pc = .taking madeProgress)
      (hget : b.getMsg = some (msg, b')) :
      Does c b now
        ({ (c.receive msg).1 with pc := .draining (madeProgress || (c.receive msg).2) }, b', none)
  | abort {madeProgress : Bool} (hpc : c.pc = .taking madeProgress) (hget : b.getMsg = none) :
      Does c b now ({ c with pc := .aborted }, b, none)
  | write {madeProgress : Bool} (hpc : c.pc = .writing madeProgress)
      (hnext : c.nextExpected.toNat < NUM_MSGS)
      (hreceived : c.received[c.nextExpected.toNat] = true) :
      Does c b now ({ c.write hnext with pc := .writing true }, b, none)
  | endWrite {madeProgress : Bool} (hpc : c.pc = .writing madeProgress) :
      Does c b now ({ c with pc := .loop }, b, none)
  | leave (hpc : c.pc = .exited) :
      Does c b now ({ c with pc := .joining }, { b with finished := true }, none)
  | stay (hpc : c.pc = .joining ∨ c.pc = .aborted) : Does c b now (c, b, none)

theorem step_does (c : Client) (b : Sender) (now : ℤ) : c.Does b now (c.step b now) := by
  unfold step
  cases hpc : c.pc with
  | loop =>
      dsimp only
      split_ifs with hmore
      · exact .begin hpc hmore
      · exact .finish hpc hmore
  | requesting reading w msgId =>
      dsimp only
      split
      · exact .request hpc ‹_› _
      · exact .endPass hpc ‹_›
  | draining madeProgress =>
      dsimp only
      split_ifs with hready
      · exact .ready hpc hready
      · exact .empty hpc
  | taking madeProgress =>
      dsimp only
      cases hget : b.getMsg with
      | none => exact .abort hpc hget
      | some r => exact .take hpc hget
  | writing madeProgress =>
      dsimp only
      split_ifs with hnext hreceived
      · exact .write hpc hnext hreceived
      · exact .endWrite hpc
      · exact .endWrite hpc
  | exited => exact .leave hpc
  | joining => exact .stay (.inl hpc)
  | aborted => exact .stay (.inr hpc)

end Client

/-! ### The server -/

namespace Server

variable {order : ByteOrder} {o : Options} {msgs : List Chunk} {s : Server} {requests : List Byte}

/-- A step: the server after it, the bytes left of the requests, and the bytes written. -/
inductive Does (order : ByteOrder) (o : Options) (msgs : List Chunk) (s : Server)
    (requests : List Byte) : Server × List Byte × List Byte → Prop where
  | leave (hopen : s.pc ≠ .closed) :
      Does order o msgs s requests ({ s with pc := .closed }, requests, [])
  | begin (now : ℤ) (hpc : s.pc = .loop) :
      Does order o msgs s requests ({ s with pc := .sending now s.delays }, requests, [])
  /-- The entry is not due, or its id is not valid. -/
  | pass {t : ℤ} {d : ℤ × UInt16} {rest : List (ℤ × UInt16)} (hpc : s.pc = .sending t (d :: rest)) :
      Does order o msgs s requests ({ s with pc := .sending t rest }, requests, [])
  | answer {t : ℤ} {d : ℤ × UInt16} {rest : List (ℤ × UInt16)} {chunk : Chunk}
      (hpc : s.pc = .sending t (d :: rest)) (hdue : d.1 < t)
      (hchunk : msgs[d.2.toNat]? = some chunk) :
      Does order o msgs s requests
        ({ s with pc := .sending t rest }, requests, (Frame.build order d.2 chunk).bytes)
  /-- The answer is going to be duplicated. -/
  | answerFirst {t : ℤ} {d : ℤ × UInt16} {rest : List (ℤ × UInt16)} {chunk : Chunk}
      (hpc : s.pc = .sending t (d :: rest)) (hdue : d.1 < t)
      (hchunk : msgs[d.2.toNat]? = some chunk) (hchaos : o.chaosMode = true) :
      Does order o msgs s requests
        ({ s with pc := .duplicating t (Frame.build order d.2 chunk) rest }, requests,
          (Frame.build order d.2 chunk).bytes)
  | answerCut {t : ℤ} {d : ℤ × UInt16} {rest : List (ℤ × UInt16)} {chunk : Chunk} (k : ℕ)
      (hpc : s.pc = .sending t (d :: rest)) (hdue : d.1 < t)
      (hchunk : msgs[d.2.toNat]? = some chunk) :
      Does order o msgs s requests
        ({ s with pc := .closed }, requests, (Frame.build order d.2 chunk).bytes.take k)
  | erase {t : ℤ} (hpc : s.pc = .sending t []) :
      Does order o msgs s requests
        ({ s with
            delays := s.delays.filter fun delay => !(delay.1 < t)
            pc := .receiving t }, requests, [])
  | again {t : ℤ} {data : Frame} {rest : List (ℤ × UInt16)}
      (hpc : s.pc = .duplicating t data rest) :
      Does order o msgs s requests ({ s with pc := .sending t rest }, requests, data.bytes)
  | againCut {t : ℤ} {data : Frame} {rest : List (ℤ × UInt16)} (k : ℕ)
      (hpc : s.pc = .duplicating t data rest) :
      Does order o msgs s requests ({ s with pc := .closed }, requests, data.bytes.take k)
  | idle {t : ℤ} (hpc : s.pc = .receiving t) :
      Does order o msgs s requests ({ s with pc := .loop }, requests, [])
  | read {t : ℤ} {x y : Byte} {rest : List Byte} (draws : Draws) (now : ℤ)
      (hpc : s.pc = .receiving t) (hrequests : requests = x :: y :: rest) :
      Does order o msgs s requests
        ({ s.handle o msgs t (order.load [x, y]) draws now with pc := .loop }, rest, [])
  /-- The second byte of a request is not there yet, or the connection is closed. -/
  | stay (hpc : s.pc = .closed ∨ ∃ t, s.pc = .receiving t) :
      Does order o msgs s requests (s, requests, [])

theorem step_does (order : ByteOrder) (o : Options) (msgs : List Chunk) (s : Server)
    (requests : List Byte) (env : ServerEnv) :
    s.Does order o msgs requests (s.step order o msgs requests env) := by
  unfold step
  cases hpc : s.pc with
  | loop =>
      dsimp only
      split_ifs
      · exact .leave (by simp [hpc])
      · exact .begin _ hpc
  | sending t rest =>
      cases rest with
      | nil => exact .erase hpc
      | cons d rest =>
          by_cases hdue : d.1 < t
          · simp only [hdue, if_true]
            cases hchunk : msgs[d.2.toNat]? with
            | none => exact .pass hpc
            | some chunk =>
                cases hwritten : env.written with
                | some k => exact .answerCut k hpc hdue hchunk
                | none =>
                    dsimp only
                    split
                    · have hdup : (o.chaosMode && env.draws.duplicate) = true := ‹_›
                      exact .answerFirst hpc hdue hchunk (Bool.and_eq_true_iff.mp hdup).1
                    · exact .answer hpc hdue hchunk
          · simp only [hdue, if_false]
            exact .pass hpc
  | duplicating t data rest =>
      dsimp only
      split
      · exact .again hpc
      · exact .againCut _ hpc
  | receiving t =>
      dsimp only
      split_ifs
      · exact .idle hpc
      · exact .leave (by simp [hpc])
      · split
        · exact .read _ _ hpc rfl
        · exact .stay (.inr ⟨t, hpc⟩)
  | closed => exact .stay (.inl hpc)

end Server

end PacketSim.Reliable
