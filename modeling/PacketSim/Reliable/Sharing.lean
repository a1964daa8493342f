import Mathlib
import PacketSim.Lib.BoundedQueue
import PacketSim.Lib.Simulation
import PacketSim.Reliable.Buffer
import PacketSim.Reliable.Steps

/-!
# Reliable — Sharing

The `Sender` between its two threads: the reader stores frames, and a consumer calls `get_msg` only
after `data_ready` has returned true.  Each call holds the lock, so a schedule of the two threads is
a list of calls.

* `Sharing.queue` — the buffer is a queue of `NUM_CHUNKS` places that discards what arrives while
  it is full.
* `Sharing.lossy_fifo` — under every schedule.
* `System.Shares.run` — the client's `main` is such a consumer.
-/

namespace PacketSim.Reliable

open Lib

variable {order : ByteOrder}

/-- The frame the two parts of a message came in. -/
theorem Frame.build_toMsg (f : Frame) :
    Frame.build order (f.toMsg order).msgId (f.toMsg order).data = f := by
  obtain ⟨bytes, hlen⟩ := f
  match bytes, hlen with
  | x :: y :: rest, hlen =>
      have hx : x.toNat < 256 := x.toNat_lt
      have hy : y.toNat < 256 := y.toNat_lt
      have hstore : order.store (order.load (x :: y :: rest)) = [x, y] := by
        cases order with
        | littleEndian =>
            have hlow : (x.toNat + 256 * y.toNat) % 65536 % 256 = x.toNat := by omega
            have hhigh : (x.toNat + 256 * y.toNat) % 65536 / 256 = y.toNat := by omega
            simp [ByteOrder.store, ByteOrder.load, hlow, hhigh]
        | bigEndian =>
            have hlow : (y.toNat + 256 * x.toNat) % 65536 % 256 = y.toNat := by omega
            have hhigh : (y.toNat + 256 * x.toNat) % 65536 / 256 = x.toNat := by omega
            simp [ByteOrder.store, ByteOrder.load, hlow, hhigh]
      simp [Frame.build, Frame.toMsg, hstore]

/-! ### The two threads -/

/-- A call that holds the lock, or the first line of the destructor. -/
inductive Turn where
  | frame (buf : Frame)
  | dataReady
  | getMsg
  | finish

/-- The frame the reader has read. -/
def Turn.frame? : Turn → Option Frame
  | .frame buf => some buf
  | _ => none

/-- `ready` is what the consumer knows from `data_ready`, and `aborted` that `get_msg` has called
`exit(1)`.  `arrived` and `returned` are the history: the frames, each with the `num_msgs` it found,
and the messages `get_msg` returned. -/
structure Sharing where
  buffer : Sender
  ready : Bool
  aborted : Bool
  arrived : List (Frame × ℕ)
  returned : List Msg

namespace Sharing

/-- The buffer before either thread touched it. -/
def start (data : Vector Msg NUM_CHUNKS) : Sharing where
  buffer := .start data
  ready := false
  aborted := false
  arrived := []
  returned := []

/-- A call of the consumer that does not follow a `data_ready` is not made. -/
def step (order : ByteOrder) (s : Sharing) : Turn → Sharing
  | .frame buf =>
      { s with
        buffer := s.buffer.store order buf
        arrived := s.arrived ++ [(buf, s.buffer.numMsgs)] }
  | .dataReady => { s with ready := s.buffer.dataReady }
  | .getMsg =>
      if s.ready then
        match s.buffer.getMsg with
        | none => { s with aborted := true }
        | some (msg, buffer) =>
            { s with buffer := buffer, ready := false, returned := s.returned ++ [msg] }
      else s
  | .finish => { s with buffer := { s.buffer with finished := true } }

/-- The turns one after the other. -/
def run (order : ByteOrder) (s : Sharing) (turns : List Turn) : Sharing :=
  turns.foldl (step order) s

/-! ### The queue it is -/

/-- The history of the buffer as one of a queue of messages. -/
def queue (order : ByteOrder) (s : Sharing) : Queue Msg where
  held := s.buffer.held
  taken := s.returned
  arrivals := s.arrived.map fun p => (p.1.toMsg order, p.2)

/-- What a call is to the queue. -/
def ops (order : ByteOrder) (s : Sharing) : Turn → List (QueueOp Msg)
  | .frame buf => [.offer (buf.toMsg order)]
  | .getMsg => if s.ready then [.take] else []
  | .dataReady | .finish => []

/-- Only the consumer takes, so what `data_ready` saw is still there. -/
structure Sound (s : Sharing) : Prop where
  room : s.buffer.numMsgs ≤ NUM_CHUNKS
  ready : s.ready = true → 0 < s.buffer.numMsgs
  running : s.aborted = false

theorem sound_start (data : Vector Msg NUM_CHUNKS) : (start data).Sound :=
  ⟨Nat.zero_le _, nofun, rfl⟩

/-- **One call.**  It is on the queue what `ops` says, and a take finds a message. -/
theorem Sound.step {s : Sharing} (h : s.Sound) (order : ByteOrder) (t : Turn) :
    (s.step order t).Sound ∧
      (s.step order t).queue order = (s.queue order).run NUM_CHUNKS (s.ops order t) := by
  cases t with
  | frame buf =>
      have hlength := Sender.length_held h.room
      refine ⟨⟨Sender.numMsgs_store h.room, fun hr => ?_, h.running⟩, ?_⟩
      · have hpos := h.ready hr
        simp only [Sharing.step, Sender.store]
        split
        · exact Nat.succ_pos _
        · exact hpos
      · simp [Sharing.step, queue, ops, Queue.run, Queue.step, Sender.held_store h.room, hlength]
  | dataReady =>
      exact ⟨⟨h.room, fun hr => by simpa [Sharing.step, Sender.dataReady] using hr, h.running⟩, rfl⟩
  | getMsg =>
      by_cases hr : s.ready = true
      · -- the reader has only added to what `data_ready` saw
        obtain ⟨⟨msg, b⟩, hget⟩ : ∃ r, s.buffer.getMsg = some r := by
          simp [Sender.getMsg, (h.ready hr).ne']
        obtain ⟨hheld, -, -⟩ := Sender.held_getMsg h.room hget
        have hroom : b.numMsgs ≤ NUM_CHUNKS := Sender.numMsgs_getMsg h.room hget
        simp only [Sharing.step, hr, if_true, hget]
        refine ⟨⟨hroom, fun hfalse => absurd hfalse Bool.false_ne_true, h.running⟩, ?_⟩
        simp [queue, ops, hr, Queue.run, Queue.step, hheld]
      · simp only [Sharing.step, hr, ops]
        exact ⟨h, rfl⟩
  | finish => exact ⟨⟨h.room, h.ready, h.running⟩, rfl⟩

/-- **A schedule.**  Its calls are operations on the queue. -/
theorem Sound.run {s : Sharing} (h : s.Sound) (order : ByteOrder) (turns : List Turn) :
    (s.run order turns).Sound ∧
      ∃ ops, (s.run order turns).queue order = (s.queue order).run NUM_CHUNKS ops := by
  have hsim : Simulates (Sharing.step order) (Queue.step NUM_CHUNKS)
      fun s q => s.Sound ∧ s.queue order = q := by
    rintro s _ t ⟨hs, rfl⟩
    exact ⟨s.ops order t, hs.step order t⟩
  obtain ⟨ops, hsound, hqueue⟩ := hsim.run ⟨h, rfl⟩ turns
  exact ⟨hsound, ops, hqueue⟩

theorem arrived_step (s : Sharing) (t : Turn) :
    (s.step order t).arrived.map Prod.fst = s.arrived.map Prod.fst ++ t.frame?.toList := by
  cases t with
  | frame buf => simp [Sharing.step, Turn.frame?]
  | dataReady => simp [Sharing.step, Turn.frame?]
  | getMsg =>
      simp only [Sharing.step, Turn.frame?]
      split_ifs
      · split <;> simp
      · simp
  | finish => simp [Sharing.step, Turn.frame?]

theorem arrived_run (s : Sharing) (turns : List Turn) :
    (s.run order turns).arrived.map Prod.fst =
      s.arrived.map Prod.fst ++ turns.filterMap Turn.frame? := by
  induction turns generalizing s with
  | nil => simp [run]
  | cons t turns ih =>
      refine (ih (s.step order t)).trans ?_
      rw [arrived_step, List.append_assoc, List.filterMap_cons]
      cases t.frame? <;> rfl

/-- **The buffer is a lossy queue, and `get_msg` never aborts.**  Under every schedule of the two
threads: what `get_msg` returned, followed by the buffer, is the messages of the frames that did not
find `NUM_CHUNKS` messages held, in the order of arrival, each with the bytes of its frame. -/
theorem lossy_fifo (order : ByteOrder) (data : Vector Msg NUM_CHUNKS) (turns : List Turn) :
    let s := (start data).run order turns
    let kept := s.arrived.filter fun p => p.2 ≠ NUM_CHUNKS
    let bytes := fun m : Msg => Frame.build order m.msgId m.data
    s.buffer.numMsgs ≤ NUM_CHUNKS ∧ s.aborted = false ∧
      s.arrived.map Prod.fst = turns.filterMap Turn.frame? ∧
      s.returned ++ s.buffer.held = (kept.map fun p => p.1.toMsg order) ∧
      (s.returned ++ s.buffer.held).map bytes = kept.map Prod.fst ∧
      ((s.returned ++ s.buffer.held).map bytes).Sublist (turns.filterMap Turn.frame?) := by
  intro s kept bytes
  obtain ⟨hsound, ops, hqueue⟩ := (sound_start data).run order turns
  have hlossy : (s.queue order).Lossy NUM_CHUNKS := hqueue ▸ Queue.lossy_run NUM_CHUNKS ops
  have harrived : s.arrived.map Prod.fst = turns.filterMap Turn.frame? := arrived_run _ turns
  have hkept : s.returned ++ s.buffer.held = kept.map fun p => p.1.toMsg order := by
    refine hlossy.fifo.trans ?_
    rw [Queue.kept, queue, List.filter_map, List.map_map]
    -- a frame finds at most `NUM_CHUNKS` messages, so fewer is the same as not so many
    have hfilter : s.arrived.filter (fun p => p.2 < NUM_CHUNKS) = kept := by
      refine List.filter_congr fun p hp => decide_eq_decide.mpr ?_
      have hfound : p.2 ≤ NUM_CHUNKS :=
        hlossy.found _ (List.mem_map_of_mem (f := fun p => (p.1.toMsg order, p.2)) hp)
      omega
    rw [← hfilter]
    rfl
  have hbytes : (s.returned ++ s.buffer.held).map bytes = kept.map Prod.fst := by
    rw [hkept, List.map_map]
    exact List.map_congr_left fun p _ => Frame.build_toMsg p.1
  refine ⟨hsound.room, hsound.running, harrived, hkept, hbytes, ?_⟩
  rw [hbytes, ← harrived]
  exact List.filter_sublist.map Prod.fst

end Sharing

/-! ### The client -/

namespace System

/-- The call a step of the system makes. -/
def turns (s : System) : Action → List Turn
  | .client _ =>
      match s.client.pc with
      | .draining _ => [.dataReady]
      | .taking _ => [.getMsg]
      | .exited => [.finish]
      | _ => []
  | .reader _ =>
      match s.reader with
      | .storing buf => [.frame buf]
      | _ => []
  | .server _ => []

/-- The client takes a message only when it knows of one. -/
structure Shares (s : System) (sh : Sharing) : Prop where
  buffer : s.sender = sh.buffer
  ready : ∀ madeProgress, s.client.pc = .taking madeProgress → sh.ready = true
  aborted : s.client.pc = .aborted → sh.aborted = true

theorem shares_start (data : Vector Msg NUM_CHUNKS) (now : ℤ) :
    (start data now).Shares (.start data) :=
  ⟨rfl, nofun, nofun⟩

/-- `main` is not about to take a message, nor aborted. -/
theorem Shares.elsewhere {s : System} {sh : Sharing} (hbuffer : s.sender = sh.buffer)
    (htaking : ∀ madeProgress, s.client.pc ≠ .taking madeProgress)
    (haborted : s.client.pc ≠ .aborted) : s.Shares sh :=
  ⟨hbuffer, fun m hpc => absurd hpc (htaking m), fun hpc => absurd hpc haborted⟩

/-- **One step, of any thread.** -/
theorem Shares.step {s : System} {sh : Sharing} (h : s.Shares sh) (order : ByteOrder)
    (o : Options) (msgs : List Chunk) (a : Action) :
    (s.step order o msgs a).Shares (sh.run order (s.turns a)) := by
  obtain ⟨hbuffer, hready, haborted⟩ := h
  cases a with
  | client now =>
      have hdoes := s.client.step_does s.sender now
      simp only [turns, System.step]
      generalize s.client.step s.sender now = r at hdoes ⊢
      cases hdoes with
      | @ready m hpc hdata =>
          simp only [hpc]
          refine ⟨hbuffer, fun _ _ => ?_, by simp⟩
          rw [hbuffer] at hdata
          exact hdata
      | @take m msg b hpc hget =>
          -- the consumer knows of a message, so the call is made
          have hr := hready m hpc
          have hget' : sh.buffer.getMsg = some (msg, b) := hbuffer ▸ hget
          simp only [hpc]
          refine .elsewhere ?_ (by simp) (by simp)
          simp [Sharing.run, Sharing.step, hr, hget']
      | @abort m hpc hget =>
          have hr := hready m hpc
          have hget' : sh.buffer.getMsg = none := hbuffer ▸ hget
          simp only [hpc]
          refine ⟨?_, by simp, fun _ => ?_⟩
          · simp [Sharing.run, Sharing.step, hr, hget', hbuffer]
          · simp [Sharing.run, Sharing.step, hr, hget']
      | leave hpc =>
          simp only [hpc]
          exact .elsewhere (hbuffer ▸ rfl) (by simp) (by simp)
      | stay hpc =>
          rcases hpc with hpc | hpc
          · simp only [hpc]
            exact ⟨hbuffer, hready, haborted⟩
          · simp only [hpc]
            exact ⟨hbuffer, hready, haborted⟩
      | begin hpc | empty hpc | finish hpc | request hpc | endPass hpc | write hpc | endWrite hpc =>
          simp only [hpc]
          exact .elsewhere hbuffer (by simp) (by simp)
  | reader env =>
      simp only [turns, System.step, Reader.step]
      cases hreader : s.reader with
      | polling =>
          dsimp only
          split_ifs <;> exact ⟨hbuffer, hready, haborted⟩
      | reading buf =>
          dsimp only
          split_ifs <;> exact ⟨hbuffer, hready, haborted⟩
      | storing buf => exact ⟨congrArg (Sender.store order · buf) hbuffer, hready, haborted⟩
      | exited => exact ⟨hbuffer, hready, haborted⟩
  | server env => exact ⟨hbuffer, hready, haborted⟩

/-- **The client's two threads keep to the schedule of calls.** -/
theorem Shares.run {s : System} {sh : Sharing} (h : s.Shares sh) (order : ByteOrder)
    (o : Options) (msgs : List Chunk) (as : List Action) :
    ∃ turns, (s.run order o msgs as).Shares (sh.run order turns) := by
  have hsim : Simulates (System.step order o msgs) (Sharing.step order) Shares :=
    fun s _ a h => ⟨s.turns a, h.step order o msgs a⟩
  exact hsim.run h as

/-- The buffer keeps to its array, and `main` never ends in `exit(1)`. -/
theorem never_aborts (order : ByteOrder) (o : Options) (msgs : List Chunk)
    (data : Vector Msg NUM_CHUNKS) (now : ℤ) (as : List Action) :
    ((start data now).run order o msgs as).sender.numMsgs ≤ NUM_CHUNKS ∧
      ((start data now).run order o msgs as).client.pc ≠ .aborted := by
  obtain ⟨turns, hshares⟩ := (shares_start data now).run order o msgs as
  obtain ⟨hsound, -⟩ := (Sharing.sound_start data).run order turns
  refine ⟨hshares.buffer ▸ hsound.room, fun ha => ?_⟩
  have habort := hshares.aborted ha
  rw [hsound.running] at habort
  exact absurd habort Bool.false_ne_true

end System

end PacketSim.Reliable
