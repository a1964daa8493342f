import Mathlib
import PacketSim.Reliable.Buffer
import PacketSim.Reliable.Steps
import PacketSim.Reliable.Stream

/-!
# Reliable — Integrity

What the client writes is what the server read from its file, whatever is dropped, delayed,
duplicated, reordered or thrown away on the way.

* `System.Intact` — the invariant, over the bytes on the wire, the frame being read, the buffer and
  the client's arrays.
* `System.transfer_integrity` — in every state of every schedule.
-/

namespace PacketSim.Reliable

open Lib

variable {order : ByteOrder} {o : Options} {msgs : List Chunk}

/-! ### The server -/

/-- The frame the server is about to send again is an answer. -/
def Server.Sound (order : ByteOrder) (msgs : List Chunk) (s : Server) : Prop :=
  ∀ t data rest, s.pc = .duplicating t data rest → Answer order msgs data.bytes

/-- What the server may write on its way from `s` to `s'`. -/
inductive Server.Writes (order : ByteOrder) (msgs : List Chunk) (s s' : Server) :
    List Byte → Prop where
  | nothing (h : s.pc = .closed → s'.pc = .closed) : Writes order msgs s s' []
  | whole {f : List Byte} (hopen : s.pc ≠ .closed) (hf : Answer order msgs f) :
      Writes order msgs s s' f
  | part {f : List Byte} (hopen : s.pc ≠ .closed) (hf : Answer order msgs f)
      (hclosed : s'.pc = .closed) (k : ℕ) : Writes order msgs s s' (f.take k)

/-- The server writes answers, and never again once it has left the loop. -/
theorem Server.Sound.step {s : Server} (h : s.Sound order msgs) (requests : List Byte)
    (env : ServerEnv) :
    (s.step order o msgs requests env).1.Sound order msgs ∧
      s.Writes order msgs (s.step order o msgs requests env).1
        (s.step order o msgs requests env).2.2 := by
  have hdoes := s.step_does order o msgs requests env
  generalize s.step order o msgs requests env = r at hdoes ⊢
  cases hdoes with
  | leave hopen => exact ⟨nofun, .nothing fun hc => absurd hc hopen⟩
  | begin now hpc => exact ⟨nofun, .nothing fun hc => absurd (hpc.symm.trans hc) nofun⟩
  | pass hpc => exact ⟨nofun, .nothing fun hc => absurd (hpc.symm.trans hc) nofun⟩
  | answer hpc _ hchunk => exact ⟨nofun, .whole (by simp [hpc]) (answer_build hchunk)⟩
  | answerFirst hpc _ hchunk =>
      refine ⟨fun _ _ _ heq => ?_, .whole (by simp [hpc]) (answer_build hchunk)⟩
      cases heq
      exact answer_build hchunk
  | answerCut k hpc _ hchunk =>
      exact ⟨nofun, .part (by simp [hpc]) (answer_build hchunk) rfl k⟩
  | erase hpc => exact ⟨nofun, .nothing fun hc => absurd (hpc.symm.trans hc) nofun⟩
  | again hpc => exact ⟨nofun, .whole (by simp [hpc]) (h _ _ _ hpc)⟩
  | againCut k hpc => exact ⟨nofun, .part (by simp [hpc]) (h _ _ _ hpc) rfl k⟩
  | idle hpc => exact ⟨nofun, .nothing fun hc => absurd (hpc.symm.trans hc) nofun⟩
  | read draws now hpc => exact ⟨nofun, .nothing fun hc => absurd (hpc.symm.trans hc) nofun⟩
  | stay => exact ⟨h, .nothing id⟩

/-- Behind whole answers, what the server writes leaves whole answers, the last one cut at most
where the server has gone. -/
theorem Server.Writes.torn {s s' : Server} {l w : List Byte} (hw : s.Writes order msgs s' w)
    (h : Torn (Answer order msgs) (s.pc = .closed) l) :
    Torn (Answer order msgs) (s'.pc = .closed) (l ++ w) := by
  cases hw with
  | nothing himp => exact h.stay himp
  | whole hopen hf => exact h.write hopen hf
  | part hopen hf hclosed k => exact h.fail hopen hf hclosed k

/-! ### The reader thread -/

/-- The shared buffer holds genuine messages, and no more than fit. -/
structure Sender.Sound (msgs : List Chunk) (b : Sender) : Prop where
  room : b.numMsgs ≤ NUM_CHUNKS
  genuine : ∀ m ∈ b.held, m.Genuine msgs

theorem Sender.Sound.store {b : Sender} {buf : Frame} (h : b.Sound msgs)
    (hbuf : Answer order msgs buf.bytes) : (b.store order buf).Sound msgs :=
  ⟨numMsgs_store h.room, forall_held_store h.room h.genuine hbuf.genuine⟩

theorem Sender.Sound.getMsg {b b' : Sender} {m : Msg} (h : b.Sound msgs)
    (hget : b.getMsg = some (m, b')) : m.Genuine msgs ∧ b'.Sound msgs := by
  obtain ⟨hm, hrest⟩ := forall_held_getMsg h.room h.genuine hget
  exact ⟨hm, numMsgs_getMsg h.room hget, hrest⟩

/-- On a stream of answers the reader stores answers. -/
theorem Sender.Sound.read {r : Reader} {b : Sender} {closed : Prop} {responses : List Byte}
    (hb : b.Sound msgs) (h : r.Whole (Answer order msgs) closed responses) (env : ReaderEnv) :
    (r.step order b responses env).1.Whole (Answer order msgs) closed
        (r.step order b responses env).2.2 ∧
      (r.step order b responses env).2.1.Sound msgs := by
  obtain ⟨hwhole, hsender⟩ := h.step (fun _ => Answer.length) b env
  refine ⟨hwhole, ?_⟩
  rcases hsender with hsame | ⟨buf, hr, hstore⟩
  · rw [hsame]
    exact hb
  · rw [hstore]
    exact hb.store (h.storing buf hr)

/-! ### The client -/

/-- The client's arrays and its file agree with the chunks. -/
structure Client.Sound (msgs : List Chunk) (c : Client) : Prop where
  chunk : ∀ i (hi : i < NUM_MSGS), c.received[i] = true →
    msgs[i]?.map Chunk.bytes = some c.chunks[i]
  written : c.totalWritten = c.nextExpected.toNat
  bound : c.nextExpected.toNat ≤ NUM_MSGS
  fits : c.nextExpected.toNat ≤ msgs.length
  outfile : c.outfile = (msgs.take c.nextExpected.toNat).map Chunk.bytes
  exited : c.LoopExited → c.totalWritten = NUM_MSGS

namespace Client

variable {c : Client}

theorem Sound.start : Client.start.Sound msgs where
  chunk i hi hr := by simp [Client.start] at hr
  written := rfl
  bound := Nat.zero_le _
  fits := Nat.zero_le _
  outfile := rfl
  exited := nofun

/-- Only `main`'s place and what it knows of its requests change. -/
theorem Sound.congr {c' : Client} (h : c.Sound msgs) (hreceived : c'.received = c.received)
    (hchunks : c'.chunks = c.chunks) (hnext : c'.nextExpected = c.nextExpected)
    (htotal : c'.totalWritten = c.totalWritten) (houtfile : c'.outfile = c.outfile)
    (hexited : c'.LoopExited → c.totalWritten = NUM_MSGS) : c'.Sound msgs where
  chunk i hi hr := by
    simp only [hreceived, hchunks] at hr ⊢
    exact h.chunk i hi hr
  written := by rw [htotal, hnext, h.written]
  bound := hnext ▸ h.bound
  fits := hnext ▸ h.fits
  outfile := by rw [houtfile, hnext, h.outfile]
  exited hc := htotal ▸ hexited hc

theorem Sound.goto (h : c.Sound msgs) (pc : ClientPc)
    (hexited : pc = .exited ∨ pc = .joining → c.totalWritten = NUM_MSGS) :
    ({ c with pc := pc } : Client).Sound msgs :=
  h.congr rfl rfl rfl rfl rfl hexited

theorem Sound.request (h : c.Sound msgs) (now : ℤ) (msgId : UInt16) (hid : msgId.toNat < NUM_MSGS) :
    (c.request now msgId hid).1.Sound msgs := by
  unfold Client.request
  split_ifs
  · exact h.congr rfl rfl rfl rfl rfl h.exited
  · exact h.congr rfl rfl rfl rfl rfl h.exited
  · exact h

theorem Sound.receive (h : c.Sound msgs) {msg : Msg} (hmsg : msg.Genuine msgs) :
    (c.receive msg).1.Sound msgs := by
  unfold Client.receive
  split_ifs with hid hreceived
  · exact h
  · exact h
  · refine ⟨fun i hi hr => ?_, h.written, h.bound, h.fits, h.outfile, h.exited⟩
    simp only [Vector.getElem_set] at hr ⊢
    by_cases heq : msg.msgId.toNat = i
    · subst heq
      have htake : msg.data.bytes.take CHUNK_SIZE = msg.data.bytes :=
        List.take_of_length_le msg.data.length_eq.le
      rw [if_pos rfl, htake, hmsg, Option.map_some]
    · rw [if_neg heq] at hr ⊢
      exact h.chunk i hi hr

theorem Sound.write (h : c.Sound msgs) (hnext : c.nextExpected.toNat < NUM_MSGS)
    (hreceived : c.received[c.nextExpected.toNat] = true) (hpc : ¬ c.LoopExited) :
    (c.write hnext).Sound msgs := by
  obtain ⟨chunk, hchunk, hbytes⟩ := Option.map_eq_some_iff.mp (h.chunk _ hnext hreceived)
  obtain ⟨hlt, -⟩ := List.getElem?_eq_some_iff.mp hchunk
  have hsucc := toNat_succ hnext
  have htake : chunk.bytes.take CHUNK_SIZE = chunk.bytes :=
    List.take_of_length_le chunk.length_eq.le
  refine ⟨h.chunk, ?_, ?_, ?_, ?_, fun hc => absurd hc hpc⟩
  · simp only [Client.write, hsucc, h.written]
  · simp only [Client.write, hsucc]
    exact hnext
  · simp only [Client.write, hsucc]
    exact hlt
  · simp only [Client.write, hsucc, h.outfile, ← hbytes, htake]
    rw [List.take_add_one, hchunk, List.map_append]
    rfl

/-- **One step of `main`.** -/
theorem Sound.step {b : Sender} (h : c.Sound msgs) (hb : b.Sound msgs) (now : ℤ) :
    (c.step b now).1.Sound msgs ∧ (c.step b now).2.1.Sound msgs := by
  have hdoes := c.step_does b now
  generalize c.step b now = r at hdoes ⊢
  cases hdoes with
  | finish hpc hdone =>
      have hle : c.totalWritten ≤ NUM_MSGS := h.written.trans_le h.bound
      exact ⟨h.goto _ fun _ => le_antisymm hle (not_lt.mp hdone), hb⟩
  | request => exact ⟨(h.request ..).goto _ nofun, hb⟩
  | take hpc hget =>
      obtain ⟨hmsg, hb'⟩ := hb.getMsg hget
      exact ⟨(h.receive hmsg).goto _ nofun, hb'⟩
  | write hpc hnext hreceived =>
      have hinside : ¬ c.LoopExited := by simp [LoopExited, hpc]
      exact ⟨(h.write hnext hreceived hinside).goto _ nofun, hb⟩
  | leave hpc => exact ⟨h.goto _ fun _ => h.exited (.inl hpc), hb.room, hb.genuine⟩
  | stay => exact ⟨h, hb⟩
  | begin | endPass | ready | empty | abort | endWrite => exact ⟨h.goto _ nofun, hb⟩

end Client

/-! ### The system -/

namespace System

/-- Everything that is on its way to the file is the server's. -/
structure Intact (order : ByteOrder) (msgs : List Chunk) (s : System) : Prop where
  client : s.client.Sound msgs
  buffer : s.sender.Sound msgs
  reader : s.reader.Whole (Answer order msgs) (s.server.pc = .closed) s.responses
  server : s.server.Sound order msgs

theorem intact_start (data : Vector Msg NUM_CHUNKS) (now : ℤ) :
    (start data now).Intact order msgs where
  client := .start
  buffer := ⟨Nat.zero_le _, by simp [start, Sender.held_start]⟩
  reader := ⟨fun _ => Torn.nil, nofun⟩
  server := nofun

variable {s : System}

/-- **One step, of any thread.** -/
theorem Intact.step (h : s.Intact order msgs) (a : Action) :
    (s.step order o msgs a).Intact order msgs := by
  cases a with
  | client now =>
      obtain ⟨hclient, hbuffer⟩ := h.client.step h.buffer now
      exact ⟨hclient, hbuffer, h.reader, h.server⟩
  | reader env =>
      obtain ⟨hreader, hbuffer⟩ := h.buffer.read h.reader env
      exact ⟨h.client, hbuffer, hreader, h.server⟩
  | server env =>
      obtain ⟨hserver, hwrites⟩ := h.server.step (o := o) s.requests env
      -- what the server writes goes behind what the reader has still to read
      refine ⟨h.client, h.buffer, ⟨fun hne => ?_, h.reader.storing⟩, hserver⟩
      have hstream := hwrites.torn (h.reader.stream hne)
      rwa [List.append_assoc] at hstream

theorem Intact.run (h : s.Intact order msgs) (as : List Action) :
    (s.run order o msgs as).Intact order msgs := by
  induction as generalizing s with
  | nil => exact h
  | cons a as ih => exact ih (h.step a)

/-- **The file the client writes is the file the server read.**  The blocks of `outfile` are the
chunks below `nextExpected`, each once and in order. -/
theorem transfer_integrity (order : ByteOrder) (o : Options) (msgs : List Chunk)
    (data : Vector Msg NUM_CHUNKS) (now : ℤ) (as : List Action) :
    let c := ((start data now).run order o msgs as).client
    (∀ i (hi : i < NUM_MSGS), c.received[i] = true → msgs[i]?.map Chunk.bytes = some c.chunks[i]) ∧
      c.totalWritten = c.nextExpected.toNat ∧ c.nextExpected.toNat ≤ msgs.length ∧
      c.outfile = (msgs.take c.nextExpected.toNat).map Chunk.bytes ∧
      c.output = (msgs.take c.nextExpected.toNat).flatMap Chunk.bytes ∧
      (c.LoopExited → NUM_MSGS ≤ msgs.length ∧ c.totalWritten = NUM_MSGS ∧
        c.outfile = (msgs.take NUM_MSGS).map Chunk.bytes ∧
        c.output = (msgs.take NUM_MSGS).flatMap Chunk.bytes) := by
  intro c
  have h : c.Sound msgs := ((intact_start data now).run as).client
  have houtput : c.output = (msgs.take c.nextExpected.toNat).flatMap Chunk.bytes := by
    rw [Client.output, h.outfile, List.flatMap_def]
  refine ⟨h.chunk, h.written, h.fits, h.outfile, houtput, fun hexited => ?_⟩
  have htotal := h.exited hexited
  have hnext : c.nextExpected.toNat = NUM_MSGS := h.written.symm.trans htotal
  exact ⟨hnext ▸ h.fits, htotal, hnext ▸ h.outfile, hnext ▸ houtput⟩

/-- A request, its answer, and the write. -/
example :
    let chunk : Chunk := ⟨.replicate CHUNK_SIZE 65, rfl⟩
    let data : Vector Msg NUM_CHUNKS := .replicate NUM_CHUNKS ⟨7, chunk⟩
    let server (now : ℤ) : List Action := .replicate 3 (.server { now := now })
    let reader : List Action := .replicate 3 (.reader { bytes := 130 })
    let s := (start data 0).run .littleEndian {} [chunk] (.replicate 2 (.client 0) ++ server 0 ++
      server 1 ++ reader ++ .replicate 15 (.client 0))
    s.client.output = chunk.bytes := by
  decide +kernel

end System

end PacketSim.Reliable
