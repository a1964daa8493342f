import Mathlib
import PacketSim.Reliable.Wire

/-!
# Reliable — Definitions

The reliable transfer: the client's two threads (`client.cpp`, `sender.cpp`), the server's
connection loop (`server.cpp`) and the two directions of their connection.

A step is one locked section, one socket call or one pass through a loop body of one thread.  The
scheduler picks the thread.  What the thread reads from its surroundings in that step, such as the
clock, the socket and the random draws, comes with the step.
-/

namespace PacketSim.Reliable

/-! ### The buffer -/

/-- What the reader thread and the main thread share.  Only the first `numMsgs` entries of `data`
mean anything. -/
structure Sender where
  data : Vector Msg NUM_CHUNKS
  numMsgs : ℕ
  finished : Bool

namespace Sender

/-- The array is not initialised. -/
def start (data : Vector Msg NUM_CHUNKS) : Sender where
  data := data
  numMsgs := 0
  finished := false

/-- A message is stored for `main`. -/
def dataReady (b : Sender) : Bool := 0 < b.numMsgs

/-- `for (size_t i = 1; i < n; i++) data[i - 1] = data[i];` -/
def shift (data : Vector Msg NUM_CHUNKS) : ℕ → Vector Msg NUM_CHUNKS
  | 0 => data
  | 1 => data
  | i + 2 =>
      let data := shift data (i + 1)
      if h : i + 1 < NUM_CHUNKS then data.set i data[i + 1] else data

/-- `none` is the `exit(1)` of an empty buffer. -/
def getMsg (b : Sender) : Option (Msg × Sender) :=
  if b.numMsgs = 0 then none
  else
    some (b.data.get ⟨0, by decide⟩,
      { b with data := shift b.data b.numMsgs, numMsgs := b.numMsgs - 1 })

/-- The reader's critical section: a frame that finds the buffer full is discarded. -/
def store (o : ByteOrder) (b : Sender) (buf : Frame) : Sender :=
  if h : b.numMsgs < NUM_CHUNKS then
    { b with data := b.data.set b.numMsgs (buf.toMsg o), numMsgs := b.numMsgs + 1 }
  else b

end Sender

/-! ### The reader thread -/

/-- The thread that reads responses: what it is about to do, with the bytes it has of a frame. -/
inductive Reader where
  | polling
  | reading (buf : List Byte)
  | storing (buf : Frame)
  | exited

/-- The socket at a step of the reader: how many bytes it has, and whether it fails. -/
structure ReaderEnv where
  bytes : ℕ
  error : Bool := false

/-- The new place of the thread, the buffer, and the bytes left on the stream. -/
def Reader.step (o : ByteOrder) (r : Reader) (b : Sender) (responses : List Byte)
    (env : ReaderEnv) : Reader × Sender × List Byte :=
  match r with
  | .polling =>
      if responses.take env.bytes ≠ [] then (.reading [], b, responses)
      else if b.finished then (.exited, b, responses)
      else (.polling, b, responses)
  | .reading buf =>
      if env.error then (.exited, b, responses)
      else
        let k := min env.bytes (CHUNK_SIZE + 2 - buf.length)
        let buf := buf ++ responses.take k
        if h : buf.length = CHUNK_SIZE + 2 then (.storing ⟨buf, h⟩, b, responses.drop k)
        else (.reading buf, b, responses.drop k)
  | .storing buf => (.polling, b.store o buf, responses)
  | .exited => (.exited, b, responses)

/-! ### The client's main thread -/

/-- How far past the first missing chunk the client asks. -/
def WINDOW_SIZE : UInt16 := 10

/-- 700 ms, in the nanoseconds of `steady_clock`. -/
def RETRANSMIT_TIMEOUT : ℤ := 700 * 1000000

/-- A bound for the identifiers of a pass over the window. -/
abbrev WindowEnd := { w : UInt16 // w.toNat ≤ NUM_MSGS }

/-- The end of the window, cut at the number of messages; the sum may wrap around. -/
def windowEnd (nextExpected : UInt16) : WindowEnd :=
  let windowEnd := nextExpected + WINDOW_SIZE
  if h : windowEnd.toNat > NUM_MSGS then ⟨UInt16.ofNat NUM_MSGS, by decide⟩
  else ⟨windowEnd, not_lt.mp h⟩

/-- The counters of 16 bits do not wrap below `NUM_MSGS`. -/
theorem toNat_succ {n : UInt16} (h : n.toNat < NUM_MSGS) : (n + 1).toNat = n.toNat + 1 := by
  have hlt : n.toNat + 1 < 2 ^ 16 := by
    have hn : n.toNat < 853 := h
    omega
  rw [UInt16.toNat_add, UInt16.toNat_one, Nat.mod_eq_of_lt hlt]

/-- Nor does the end of the window. -/
theorem toNat_window {n : UInt16} (h : n.toNat ≤ NUM_MSGS) :
    (n + WINDOW_SIZE).toNat = n.toNat + WINDOW_SIZE.toNat := by
  have hlt : n.toNat + WINDOW_SIZE.toNat < 2 ^ 16 := by
    have hn : n.toNat ≤ 853 := h
    have hsize : WINDOW_SIZE.toNat = 10 := rfl
    omega
  rw [UInt16.toNat_add, Nat.mod_eq_of_lt hlt]

theorem toNat_windowEnd {n : UInt16} (h : n.toNat ≤ NUM_MSGS) :
    (windowEnd n).val.toNat = min (n.toNat + WINDOW_SIZE.toNat) NUM_MSGS := by
  have hwindow := toNat_window h
  unfold windowEnd
  dsimp only
  split_ifs with hgt
  · rw [hwindow] at hgt
    rw [min_eq_right hgt.le]
    rfl
  · rw [hwindow] at hgt
    rw [min_eq_left (not_lt.mp hgt)]
    exact hwindow

/-- The next step of `main`.  `exited` is after the outer loop, `joining` in the destructor of the
`Sender`, and `aborted` after `exit(1)`. -/
inductive ClientPc where
  | loop
  | requesting (now : ℤ) (windowEnd : WindowEnd) (msgId : UInt16)
  | draining (madeProgress : Bool)
  | taking (madeProgress : Bool)
  | writing (madeProgress : Bool)
  | exited
  | joining
  | aborted

/-- `outfile` is the list of blocks written. -/
structure Client where
  requested : Vector Bool NUM_MSGS
  received : Vector Bool NUM_MSGS
  chunks : Vector (List Byte) NUM_MSGS
  lastRequest : Vector ℤ NUM_MSGS
  nextExpected : UInt16
  totalWritten : ℕ
  outfile : List (List Byte)
  pc : ClientPc

namespace Client

/-- `Client` as it is constructed. -/
def start : Client where
  requested := .replicate NUM_MSGS false
  received := .replicate NUM_MSGS false
  chunks := .replicate NUM_MSGS []
  lastRequest := .replicate NUM_MSGS 0
  nextExpected := 0
  totalWritten := 0
  outfile := []
  pc := .loop

/-- The body of the request loop, with the identifier it requests. -/
def request (c : Client) (now : ℤ) (msgId : UInt16) (h : msgId.toNat < NUM_MSGS) :
    Client × Option UInt16 :=
  if !c.requested[msgId.toNat] then
    ({ c with
        requested := c.requested.set msgId.toNat true
        lastRequest := c.lastRequest.set msgId.toNat now }, some msgId)
  else if !c.received[msgId.toNat] && RETRANSMIT_TIMEOUT ≤ now - c.lastRequest[msgId.toNat] then
    ({ c with lastRequest := c.lastRequest.set msgId.toNat now }, some msgId)
  else (c, none)

/-- The body of the receive loop after `get_msg`, and whether it made progress. -/
def receive (c : Client) (msg : Msg) : Client × Bool :=
  if h : NUM_MSGS ≤ msg.msgId.toNat then (c, false)
  else if c.received[msg.msgId.toNat] then (c, false)
  else
    ({ c with
        chunks := c.chunks.set msg.msgId.toNat (msg.data.bytes.take CHUNK_SIZE)
        received := c.received.set msg.msgId.toNat true }, true)

/-- The body of the write loop. -/
def write (c : Client) (h : c.nextExpected.toNat < NUM_MSGS) : Client :=
  { c with
    outfile := c.outfile ++ [c.chunks[c.nextExpected.toNat].take CHUNK_SIZE]
    nextExpected := c.nextExpected + 1
    totalWritten := c.totalWritten + 1 }

/-- One step of `main`, with the buffer after it and the identifier it requests. -/
def step (c : Client) (b : Sender) (now : ℤ) : Client × Sender × Option UInt16 :=
  match c.pc with
  | .loop =>
      if c.totalWritten < NUM_MSGS then
        ({ c with pc := .requesting now (windowEnd c.nextExpected) c.nextExpected }, b, none)
      else ({ c with pc := .exited }, b, none)
  | .requesting now w msgId =>
      if h : msgId < w.val then
        let r := c.request now msgId ((UInt16.lt_iff_toNat_lt.mp h).trans_le w.property)
        ({ r.1 with pc := .requesting now w (msgId + 1) }, b, r.2)
      else ({ c with pc := .draining false }, b, none)
  | .draining madeProgress =>
      if b.dataReady then ({ c with pc := .taking madeProgress }, b, none)
      else ({ c with pc := .writing madeProgress }, b, none)
  | .taking madeProgress =>
      match b.getMsg with
      | none => ({ c with pc := .aborted }, b, none)
      | some (msg, b) =>
          let r := c.receive msg
          ({ r.1 with pc := .draining (madeProgress || r.2) }, b, none)
  | .writing _ =>
      if h : c.nextExpected.toNat < NUM_MSGS then
        if c.received[c.nextExpected.toNat] then ({ c.write h with pc := .writing true }, b, none)
        else ({ c with pc := .loop }, b, none)
      else ({ c with pc := .loop }, b, none)
  | .exited => ({ c with pc := .joining }, { b with finished := true }, none)
  | .joining => (c, b, none)
  | .aborted => (c, b, none)

/-- The bytes of the output file. -/
def output (c : Client) : List Byte := c.outfile.flatten

/-- The outer loop has ended. -/
def LoopExited (c : Client) : Prop := c.pc = .exited ∨ c.pc = .joining

end Client

/-! ### The server -/

/-- The server's command line. -/
structure Options where
  noPacketDrops : Bool := false
  noDelay : Bool := false
  chaosMode : Bool := false

/-- The next step of the connection loop. -/
inductive ServerPc where
  | loop
  | sending (currTime : ℤ) (rest : List (ℤ × UInt16))
  | duplicating (currTime : ℤ) (data : Frame) (rest : List (ℤ × UInt16))
  | receiving (currTime : ℤ)
  | closed

/-- Times are in milliseconds. -/
structure Server where
  delays : List (ℤ × UInt16)
  burstDropRemaining : ℤ
  hb : ℤ
  pc : ServerPc

/-- The values of the random distributions. -/
structure Draws where
  loss : Bool := false
  duplicate : Bool := false
  burstStart : Bool := false
  jitterSpike : Bool := false
  delay : ℚ := 0
  burstLen : ℤ := 2
  jitterSpikeMs : ℤ := 600

/-- The clock, the socket and the draws at a step of the server.  `written` is how many bytes went
out before the write failed, if it failed. -/
structure ServerEnv where
  now : ℤ
  available : Bool := true
  readError : Bool := false
  written : Option ℕ := none
  draws : Draws := {}

namespace Server

/-- `Server` as a connection is accepted. -/
def start (now : ℤ) : Server where
  delays := []
  burstDropRemaining := 0
  hb := now + 5 * 1000
  pc := .loop

/-- The random delay of an accepted request. -/
def delay (o : Options) (d : Draws) : ℤ :=
  let delay := if o.noDelay then 0 else ⌊max d.delay 0⌋
  if o.chaosMode && !o.noDelay && d.jitterSpike then delay + d.jitterSpikeMs else delay

/-- The rest of the loop body, for a request read. -/
def handle (o : Options) (msgs : List Chunk) (s : Server) (currTime : ℤ) (msgId : UInt16)
    (d : Draws) (now : ℤ) : Server :=
  if msgId.toNat ≥ msgs.length then s
  else if o.chaosMode && s.burstDropRemaining > 0 then
    { s with burstDropRemaining := s.burstDropRemaining - 1 }
  else if o.chaosMode && d.burstStart then { s with burstDropRemaining := d.burstLen - 1 }
  else if !o.noPacketDrops && d.loss then s
  else if s.delays.length ≥ NUM_CHUNKS then s
  else
    { s with
      delays := s.delays ++ [(currTime + delay o d, msgId)]
      hb := now + 5 * 1000 }

/-- A request is dropped, or its id is valid and there is room for it. -/
theorem handle_cases (o : Options) (msgs : List Chunk) (s : Server)
    (currTime : ℤ) (msgId : UInt16) (d : Draws) (now : ℤ) :
    (s.handle o msgs currTime msgId d now).delays = s.delays ∨
      ∃ due, (s.handle o msgs currTime msgId d now).delays = s.delays ++ [(due, msgId)] ∧
        msgId.toNat < msgs.length ∧ s.delays.length < NUM_CHUNKS := by
  unfold handle
  split_ifs with hid _ _ _ hfull
  · exact .inl rfl
  · exact .inl rfl
  · exact .inl rfl
  · exact .inl rfl
  · exact .inl rfl
  · exact .inr ⟨_, rfl, not_le.mp hid, not_le.mp hfull⟩

/-- One step of the loop, with the bytes left of the requests and the bytes written. -/
def step (order : ByteOrder) (o : Options) (msgs : List Chunk) (s : Server) (requests : List Byte)
    (env : ServerEnv) : Server × List Byte × List Byte :=
  match s.pc with
  | .loop =>
      if s.hb < env.now then ({ s with pc := .closed }, requests, [])
      else ({ s with pc := .sending env.now s.delays }, requests, [])
  | .sending currTime [] =>
      ({ s with
          delays := s.delays.filter fun delay => !(delay.1 < currTime)
          pc := .receiving currTime }, requests, [])
  | .sending currTime (delay :: rest) =>
      if delay.1 < currTime then
        match msgs[delay.2.toNat]? with
        | some chunk =>
            let data := Frame.build order delay.2 chunk
            match env.written with
            | none =>
                let pc := if o.chaosMode && env.draws.duplicate then .duplicating currTime data rest
                  else .sending currTime rest
                ({ s with pc := pc }, requests, data.bytes)
            | some k => ({ s with pc := .closed }, requests, data.bytes.take k)
        | none => ({ s with pc := .sending currTime rest }, requests, [])
      else ({ s with pc := .sending currTime rest }, requests, [])
  | .duplicating currTime data rest =>
      match env.written with
      | none => ({ s with pc := .sending currTime rest }, requests, data.bytes)
      | some k => ({ s with pc := .closed }, requests, data.bytes.take k)
  | .receiving currTime =>
      if !env.available || requests.isEmpty then ({ s with pc := .loop }, requests, [])
      else if env.readError then ({ s with pc := .closed }, requests, [])
      else
        match requests with
        | x :: y :: requests =>
            let msgId := order.load [x, y]
            ({ s.handle o msgs currTime msgId env.draws env.now with pc := .loop }, requests, [])
        -- the read waits for its second byte
        | _ => (s, requests, [])
  | .closed => (s, requests, [])

end Server

/-! ### The system -/

/-- `requests` and `responses` are the bytes written and not yet read. -/
structure System where
  client : Client
  sender : Sender
  reader : Reader
  server : Server
  requests : List Byte
  responses : List Byte

/-- Whose turn it is, with what the turn reads from outside. -/
inductive Action where
  | client (now : ℤ)
  | reader (env : ReaderEnv)
  | server (env : ServerEnv)

namespace System

/-- The connection is open, and the server's clock reads `now`. -/
def start (data : Vector Msg NUM_CHUNKS) (now : ℤ) : System where
  client := .start
  sender := .start data
  reader := .polling
  server := .start now
  requests := []
  responses := []

/-- One turn of one of the three. -/
def step (order : ByteOrder) (o : Options) (msgs : List Chunk) (s : System) : Action → System
  | .client now =>
      let r := s.client.step s.sender now
      { s with
        client := r.1
        sender := r.2.1
        requests := s.requests ++ r.2.2.elim [] order.store }
  | .reader env =>
      let r := s.reader.step order s.sender s.responses env
      { s with reader := r.1, sender := r.2.1, responses := r.2.2 }
  | .server env =>
      let r := s.server.step order o msgs s.requests env
      { s with server := r.1, requests := r.2.1, responses := s.responses ++ r.2.2 }

/-- The steps of a schedule, in order. -/
def run (order : ByteOrder) (o : Options) (msgs : List Chunk) (s : System) (as : List Action) :
    System :=
  as.foldl (step order o msgs) s

end System

end PacketSim.Reliable
