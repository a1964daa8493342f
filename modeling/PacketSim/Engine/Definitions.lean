import PacketSim.Engine.Records

/-!
# Engine — Definitions

`simulation.py`, first part: the state of `SimulationEngine` and what `update` does to it.

* The generator behind `self.random` is any type with the three methods the engine calls, each
  within the range its documentation gives (`RandomSource`).  A statement about every generator and
  every generator state is a statement about every outcome of the draws.
* A callback on the event heap is the method it closes over with its arguments (`Callback`).  The
  heap is ordered by due time and event id; pushing an event whose pair is already pending compares
  two callbacks, which raises `TypeError` (`schedule`).
* Packets are mutable objects in the source, but each is held in one place at a time, so a packet
  here is a value.
* The attributes that `__init__` sets and nothing assigns are constants; `packet_goal` is a field.
* The times of the source are floats.  How a span is added to a time is a parameter (`Clock`):
  `Clock.exact` adds exactly, and is meant where no clock is named; `Clock.double` rounds to a
  double, as the source does.
* `history` is not in the source.  It records the transmissions, arrivals and accepted
  acknowledgements of the run, newest first, and no definition reads it.
-/

namespace PacketSim
open Lib

/-- How a span is added to a time. -/
class Clock where
  after : ℚ → ℚ → ℚ

/-- Times are added exactly. -/
instance Clock.exact : Clock := ⟨fun t d => t + d⟩

/-- Sums are rounded to doubles.  A sum of at least `2 ^ 1024` stands for the source's `inf`: a span
of the engine's own added to either changes nothing. -/
@[reducible] def Clock.double : Clock := ⟨fun t d => rounded (t + d)⟩

@[simp] theorem Clock.after_exact (t d : ℚ) : Clock.after t d = t + d := rfl

/-- What the engine uses of `random.Random`, over generator states in `σ`. -/
class RandomSource (σ : Type) where
  random : σ → ℚ × σ
  uniform : ℚ → ℚ → σ → ℚ × σ
  randint : ℕ → ℕ → σ → ℕ × σ
  random_range : ∀ s, 0 ≤ (random s).1 ∧ (random s).1 < 1
  uniform_range : ∀ {a b : ℚ} (s), a ≤ b → a ≤ (uniform a b s).1 ∧ (uniform a b s).1 ≤ b
  randint_range : ∀ {a b : ℕ} (s), a ≤ b → a ≤ (randint a b s).1 ∧ (randint a b s).1 ≤ b

/-- What the links do to packets. -/
structure NetworkConditions where
  lossRate : ℚ := 8/100
  delayMultiplier : ℚ := 1
  duplicateRate : ℚ := 4/100
  chaosMode : Bool := false

/-- The callbacks the engine schedules. -/
inductive Callback where
  | sendData (sequence : ℕ)
  | onTimeout (sequence token : ℕ)
  deriving DecidableEq

/-- An entry of the event heap. -/
structure Event where
  dueTime : ℚ
  eventId : ℕ
  callback : Callback
  deriving DecidableEq

/-- The tuple order, on the two components that decide it. -/
def Event.Before (a b : Event) : Prop :=
  a.dueTime < b.dueTime ∨ a.dueTime = b.dueTime ∧ a.eventId ≤ b.eventId

instance : DecidableRel Event.Before := fun a b =>
  inferInstanceAs
    (Decidable (a.dueTime < b.dueTime ∨ a.dueTime = b.dueTime ∧ a.eventId ≤ b.eventId))

instance : Std.Total Event.Before := ⟨fun a b => by
  rcases lt_trichotomy a.dueTime b.dueTime with h | h | h
  · exact .inl (.inl h)
  · rcases Nat.le_total a.eventId b.eventId with h' | h'
    · exact .inl (.inr ⟨h, h'⟩)
    · exact .inr (.inr ⟨h.symm, h'⟩)
  · exact .inr (.inl h)⟩

instance : IsTrans Event Event.Before := ⟨fun a b c hab hbc => by
  rcases hab with hab | ⟨hab, hab'⟩ <;> rcases hbc with hbc | ⟨hbc, hbc'⟩
  · exact .inl (hab.trans hbc)
  · exact .inl (hbc ▸ hab)
  · exact .inl (hab ▸ hbc)
  · exact .inr ⟨hab.trans hbc, hab'.trans hbc'⟩⟩

/-- What a run did, for `Engine.history`. -/
inductive HistoryEntry where
  | transmitted (sequence : ℕ) (retransmission : Bool) (timeMs : ℚ)
  | arrived (packet : Packet) (timeMs : ℚ)
  | acknowledged (sequence : ℕ) (timeMs : ℚ)
  deriving DecidableEq

/-- The attributes of `SimulationEngine`. -/
structure Engine (σ : Type) where
  graphManager : GraphManager
  random : σ
  conditions : NetworkConditions := {}
  mode : Mode := .udp
  packetGoal : ℕ := 6
  trafficPort : ℕ := 443
  useSdn : Bool := false
  currentTimeMs : ℚ := 0
  running : Bool := false
  completed : Bool := false
  source : Int := 0
  destination : Int := 0
  sessionId : ℕ := 1
  nextPacketId : ℕ := 1
  nextEventId : ℕ := 1
  nextSequenceToSend : ℕ := 0
  awaitingAck : Option ℕ := none
  timeoutToken : ℕ := 0
  udpSentAll : Bool := false
  chaosDropRemaining : ℕ := 0
  deliveredSequences : Finset ℕ := ∅
  events : Heap Event Event.Before := .empty
  inFlightPackets : List InFlightPacket := []
  packetEvents : List PacketEvent := []
  routers : Dict Int Router := .empty
  stats : RunStats := {}
  history : List HistoryEntry := []

/-- The packets in router queues. -/
def Engine.queuedPackets {σ : Type} (e : Engine σ) : List Packet :=
  e.routers.values.flatMap Router.queue

/-- The packets in router queues and on links. -/
def Engine.packets {σ : Type} (e : Engine σ) : List Packet :=
  e.queuedPackets ++ e.inFlightPackets.map InFlightPacket.packet

/-- The time between two UDP sends. -/
def sendIntervalMs : ℚ := 260

/-- How long a TCP send waits for its acknowledgement. -/
def retransmissionTimeoutMs : ℚ := 950

/-- When a run is ended, whatever is under way. -/
def maxRuntimeMs : ℚ := 25000

/-- How long a router is busy with a packet. -/
def processingDelayMs : ℚ := 45

/-- The router of each preset that holds the firewall rule under SDN. -/
def firewallNodes : Dict String Int :=
  .ofList [("Campus Backbone", 3), ("Bottleneck Path", 2), ("Redundant Ring", 4)]

theorem retransmissionTimeoutMs_pos : 0 < retransmissionTimeoutMs := by
  norm_num [retransmissionTimeoutMs]

theorem processingDelayMs_pos : 0 < processingDelayMs := by norm_num [processingDelayMs]

namespace Engine

variable {σ : Type}

/-! ### Events -/

/-- The heap compares two callbacks only where a pending event has the new one's due time and id. -/
def schedule [Clock] (e : Engine σ) (delayMs : ℚ) (callback : Callback) :
    Except PyError (Engine σ) :=
  let dueTime := Clock.after e.currentTimeMs delayMs
  if e.events.items.any fun ev => ev.dueTime = dueTime && ev.eventId = e.nextEventId then
    .error (.typeError "'<' not supported between instances of 'function' and 'function'")
  else
    .ok { e with
      events := e.events.push ⟨dueTime, e.nextEventId, callback⟩
      nextEventId := e.nextEventId + 1 }

/-! ### Packets -/

/-- `self.routers[node].enqueue(packet)` -/
def enqueue (e : Engine σ) (node : Int) (packet : Packet) : Except PyError (Engine σ) :=
  match e.routers.get? node with
  | none => .error (.keyError (toString node))
  | some _ => .ok { e with routers := e.routers.modify node (·.enqueue packet) }

/-- A packet of the traffic, standing at its source, with the next id. -/
def makePacket (e : Engine σ) (source destination : Int) (packetType : PacketType) (sequence : ℕ)
    (ackFor : Option ℕ) (retransmission : Bool) (duplicate : Bool := false)
    (duplicatedFrom : Option ℕ := none) : Packet × Engine σ :=
  ({ packetId := e.nextPacketId
     sessionId := e.sessionId
     source, destination
     currentNode := source
     protocol := e.mode
     packetType, sequence, ackFor
     dstPort := e.trafficPort
     retransmission, duplicate, duplicatedFrom
     routeHistory := [source] },
    { e with nextPacketId := e.nextPacketId + 1 })

/-- The packet is counted and joins the queue of its source. -/
def injectPacket (e : Engine σ) (packet : Packet) : Except PyError (Engine σ) :=
  let stats := { e.stats with
    packetsSent := e.stats.packetsSent + 1
    retransmissions := e.stats.retransmissions + packet.retransmission.toNat
    duplicatePackets := e.stats.duplicatePackets + packet.duplicate.toNat }
  { e with stats }.enqueue packet.source packet

/-- The sequence is sent.  Under TCP the sender then awaits it, with a timer of a new token; past
the goal nothing is sent. -/
def sendData [Clock] (e : Engine σ) (sequence : ℕ) (retransmission : Bool := false) :
    Except PyError (Engine σ) :=
  if e.packetGoal ≤ sequence then .ok e
  else do
    let (packet, e) := e.makePacket e.source e.destination .data sequence none retransmission
    let e ← e.injectPacket packet
    let e := { e with history := .transmitted sequence retransmission e.currentTimeMs :: e.history }
    if e.mode = .tcp then
      let e := { e with awaitingAck := some sequence, timeoutToken := e.timeoutToken + 1 }
      e.schedule retransmissionTimeoutMs (.onTimeout sequence e.timeoutToken)
    else .ok e

/-- The destination acknowledges the sequence. -/
def sendAck (e : Engine σ) (sequence : ℕ) : Except PyError (Engine σ) :=
  let (ackPacket, e) := e.makePacket e.destination e.source .ack sequence (some sequence) false
  let stats := { e.stats with acknowledgements := e.stats.acknowledgements + 1 }
  { e with stats }.injectPacket ackPacket

/-! ### Markers -/

/-- A loss is counted and marked, on a link or, without an end node, at a router. -/
def recordDrop (e : Engine σ) (startNode endNode : Option Int) (reason : String) : Engine σ :=
  { e with
    stats := { e.stats with packetsDropped := e.stats.packetsDropped + 1 }
    packetEvents := e.packetEvents ++ [{ kind := .drop, startNode, endNode, label := reason }] }

/-- The arrival of a packet at its destination is marked; the counters are `noteDelivered`'s. -/
def recordDelivery (e : Engine σ) (packet : Packet) : Engine σ :=
  let label := if packet.packetType = .ack then "ACK" else "SEQ " ++ toString packet.sequence
  { e with
    packetEvents := e.packetEvents ++
      [{ kind := .delivered, node := some packet.currentNode, label }]
    history := .arrived packet e.currentTimeMs :: e.history }

/-- Markers fade, also while no run is on. -/
def updatePacketEvents (e : Engine σ) (dtMs : ℚ) : Engine σ :=
  let aged := e.packetEvents.map fun ev => { ev with ttlMs := ev.ttlMs - dtMs }
  { e with packetEvents := aged.filter fun ev => 0 < ev.ttlMs }

/-! ### Timeouts and arrivals -/

/-- The sequence is sent again, unless the run is over or the timer is not the current one. -/
def onTimeout [Clock] (e : Engine σ) (sequence token : ℕ) : Except PyError (Engine σ) :=
  if !e.running || e.completed then .ok e
  else if e.awaitingAck ≠ some sequence ∨ token ≠ e.timeoutToken then .ok e
  else e.sendData sequence true

/-- What an event does when it is due. -/
def runCallback [Clock] (e : Engine σ) : Callback → Except PyError (Engine σ)
  | .sendData sequence => e.sendData sequence
  | .onTimeout sequence token => e.onTimeout sequence token

/-- The loop pops at most `fuel` events. -/
def runDueEvents [Clock] : ℕ → Engine σ → Except PyError (Engine σ)
  | fuel, e =>
    match e.events.pop? with
    | none => .ok e
    | some (event, events) =>
        if event.dueTime ≤ e.currentTimeMs then
          match fuel with
          | 0 => .error .diverged
          | fuel + 1 => do
              let e ← { e with events }.runCallback event.callback
              runDueEvents fuel e
        else .ok e

/-- The sequence is counted as delivered, once. -/
def noteDelivered (e : Engine σ) (sequence : ℕ) : Engine σ :=
  if sequence ∈ e.deliveredSequences then e
  else
    { e with
      deliveredSequences := insert sequence e.deliveredSequences
      stats := { e.stats with
        completedSequences := insert sequence e.stats.completedSequences
        packetsDelivered := e.stats.packetsDelivered + 1 } }

/-- A sequence has reached the destination, which acknowledges it under TCP even if it came before.
-/
def onDataReceived (e : Engine σ) (packet : Packet) : Except PyError (Engine σ) :=
  let e := e.noteDelivered packet.sequence
  if e.mode = .tcp then e.sendAck packet.sequence else .ok e

/-- The acknowledgement that is awaited lets the next sequence go out 150 ms later, or completes the
run; any other is ignored. -/
def onAckReceived [Clock] (e : Engine σ) (packet : Packet) : Except PyError (Engine σ) :=
  if e.awaitingAck ≠ packet.ackFor then .ok e
  else
    let e := { e with awaitingAck := none }
    match packet.ackFor with
    | none => .ok e
    | some acked =>
        let e := { e with history := .acknowledged acked e.currentTimeMs :: e.history }
        let nextSequence := acked + 1
        if e.packetGoal ≤ nextSequence then .ok { e with completed := true }
        else { e with nextSequenceToSend := nextSequence }.schedule 150 (.sendData nextSequence)

/-- The end of a link: the packet is received where it is addressed to, and queued anywhere else. -/
def handleArrival [Clock] (e : Engine σ) (flight : InFlightPacket) : Except PyError (Engine σ) :=
  let packet := flight.packet.arriveAt flight.endNode
  if packet.currentNode = packet.destination then
    let e := e.recordDelivery packet
    match packet.packetType with
    | .data => e.onDataReceived packet
    | .ack => e.onAckReceived packet
  else e.enqueue packet.currentNode packet

/-! ### Links -/

section Draws
variable [RandomSource σ]

/-- `self.random.random()` -/
def drawRandom (e : Engine σ) : ℚ × Engine σ :=
  let (x, random) := RandomSource.random e.random
  (x, { e with random })

/-- `self.random.uniform(a, b)` -/
def drawUniform (e : Engine σ) (a b : ℚ) : ℚ × Engine σ :=
  let (x, random) := RandomSource.uniform a b e.random
  (x, { e with random })

/-- `self.random.randint(a, b)` -/
def drawInt (e : Engine σ) (a b : ℕ) : ℕ × Engine σ :=
  let (x, random) := RandomSource.randint a b e.random
  (x, { e with random })

/-- The delay of one crossing, and whether it counts as delayed: the link's own delay and a jitter,
both scaled, and in chaos at times a spike. -/
def sampleLinkDelay (e : Engine σ) (baseDelayMs : Int) : (ℚ × Bool) × Engine σ :=
  let scaledBase := baseDelayMs * e.conditions.delayMultiplier
  let (jitter, e) := e.drawUniform 0 (80 * e.conditions.delayMultiplier)
  let totalDelay := scaledBase + jitter
  let (totalDelay, e) :=
    if e.conditions.chaosMode then
      let (x, e) := e.drawRandom
      if x < 18/100 then
        let (spike, e) := e.drawUniform 250 850
        (totalDelay + spike, e)
      else (totalDelay, e)
    else (totalDelay, e)
  ((totalDelay, decide (baseDelayMs * (135/100 : ℚ) < totalDelay)), e)

/-- Whether a crossing is lost: in chaos first the burst under way, then the start of one; else, and
then, the loss rate. -/
def shouldDropPacket (e : Engine σ) : Bool × Engine σ :=
  let lossDraw := fun e : Engine σ =>
    let (x, e) := e.drawRandom
    (decide (x < e.conditions.lossRate), e)
  if e.conditions.chaosMode then
    if 0 < e.chaosDropRemaining then
      (true, { e with chaosDropRemaining := e.chaosDropRemaining - 1 })
    else
      let (x, e) := e.drawRandom
      if x < 5/100 then
        let (n, e) := e.drawInt 1 2
        (true, { e with chaosDropRemaining := n })
      else lossDraw e
  else lossDraw e

/-- The flight of `packet`, its delay and loss drawn, is put on the link. -/
def putOnLink (e : Engine σ) (packet : Packet) (startNode endNode : Int) (baseDelayMs : Int) :
    Engine σ :=
  let ((totalDelayMs, delayed), e) := e.sampleLinkDelay baseDelayMs
  let (dropped, e) := e.shouldDropPacket
  { e with
    inFlightPackets := e.inFlightPackets ++
      [{ packet, startNode, endNode, totalTimeMs := totalDelayMs, remainingTimeMs := totalDelayMs,
         delayed, dropped }] }

/-- The copy is counted as sent, and crosses with a delay and a loss of its own. -/
def injectDuplicateFlight (e : Engine σ) (packet : Packet) (startNode endNode : Int)
    (baseDelayMs : Int) : Engine σ :=
  let stats := { e.stats with
    packetsSent := e.stats.packetsSent + 1
    duplicatePackets := e.stats.duplicatePackets + 1 }
  { e with stats }.putOnLink packet startNode endNode baseDelayMs

/-- A packet leaves a router for the next one, at times with a copy. -/
def launchLink (e : Engine σ) (packet : Packet) (startNode endNode : Int) :
    Except PyError (Engine σ) := do
  let baseDelayMs ← e.graphManager.getEdgeDelay startNode endNode
  let e := e.putOnLink packet startNode endNode baseDelayMs
  if 0 < e.conditions.duplicateRate then
    let (x, e) := e.drawRandom
    if x < e.conditions.duplicateRate then
      let (copy, e) := e.makePacket packet.source packet.destination packet.packetType
        packet.sequence packet.ackFor packet.retransmission true (some packet.packetId)
      let copy := { copy with currentNode := startNode, routeHistory := packet.routeHistory }
      return e.injectDuplicateFlight copy startNode endNode baseDelayMs
    else return e
  else return e

/-! ### Routers -/

/-- One pass of `_dispatch_routers`, at the router `routerId`. -/
def dispatchRouter [Clock] (e : Engine σ) (routerId : Int) : Except PyError (Engine σ) := do
  let router ← getItem e.routers routerId
  match router.queue with
  | [] => return e
  | packet :: queue =>
      if e.currentTimeMs < router.nextAvailableTimeMs then return e
      else
        let busy := { router with
          queue
          nextAvailableTimeMs := Clock.after e.currentTimeMs router.processingDelayMs }
        let e := { e with routers := e.routers.modify routerId fun _ => busy }
        match router.applyRules packet with
        | some ⟨.drop, _⟩ => return e.recordDrop (some router.routerId) none "SDN drop"
        | some ⟨.forward, some hop⟩ => e.launchLink packet router.routerId hop
        | some ⟨.forward, none⟩ => .error (.keyError "None")
        | none => e.launchLink packet router.routerId (← router.nextHop packet.destination)

/-- Each router takes at most one packet from its queue, in the order of ids. -/
def dispatchRouters [Clock] (e : Engine σ) : Except PyError (Engine σ) :=
  (e.routers.keys.insertionSort (· ≤ ·)).foldlM dispatchRouter e

end Draws

/-! ### Flights -/

/-- One pass of `_advance_in_flight_packets`: the flight is kept, or lost, or arrives.  The first
component is `remaining_packets`. -/
def advanceFlight [Clock] (dtMs : ℚ) (st : List InFlightPacket × Engine σ)
    (flight : InFlightPacket) : Except PyError (List InFlightPacket × Engine σ) :=
  let (remaining, e) := st
  let flight := { flight with remainingTimeMs := flight.remainingTimeMs - dtMs }
  if 0 < flight.remainingTimeMs then .ok (remaining ++ [flight], e)
  else if flight.dropped then
    .ok (remaining, e.recordDrop (some flight.startNode) (some flight.endNode) "Link loss")
  else do return (remaining, ← e.handleArrival flight)

/-- Time passes on the links; what reaches an end is handled in the order of launch. -/
def advanceInFlightPackets [Clock] (e : Engine σ) (dtMs : ℚ) : Except PyError (Engine σ) := do
  let (remaining, e) ← e.inFlightPackets.foldlM (advanceFlight dtMs) ([], e)
  return { e with inFlightPackets := remaining }

/-! ### `update` -/

/-- Nothing is queued, under way or scheduled. -/
def networkIdle (e : Engine σ) : Bool :=
  !(e.routers.values.any Router.hasWork) && e.inFlightPackets.isEmpty && e.events.items.isEmpty

/-- The run is over, once. -/
def finishRun (e : Engine σ) : Engine σ :=
  if e.running then
    { e with
      running := false
      completed := true
      stats := e.stats.markFinished e.currentTimeMs }
  else e

/-- The end of `update`: whether the run is over. -/
def checkFinished (e : Engine σ) : Engine σ :=
  if e.mode = .udp ∧ e.udpSentAll ∧ e.networkIdle then e.finishRun
  else if e.mode = .tcp ∧ e.completed ∧ e.networkIdle then e.finishRun
  else if maxRuntimeMs ≤ e.currentTimeMs then e.finishRun
  else e

/-- The part of `update` before the flights advance. -/
def beforeAdvance [RandomSource σ] [Clock] (e : Engine σ) (dtMs : ℚ) :
    Except PyError (Engine σ) := do
  let e := { e with currentTimeMs := Clock.after e.currentTimeMs dtMs }
  let e ← runDueEvents e.events.items.length e
  e.dispatchRouters

/-- One frame.  Without a run only the markers fade. -/
def update [RandomSource σ] [Clock] (e : Engine σ) (dtMs : ℚ) : Except PyError (Engine σ) :=
  let e := e.updatePacketEvents dtMs
  if !e.running then .ok e
  else do
    let e ← e.beforeAdvance dtMs
    let e ← e.advanceInFlightPackets dtMs
    return e.checkFinished

/-! ### Starting a run -/

/-- Nothing of a run is left; the settings and the routers' tables and rules stay. -/
def resetRunState (e : Engine σ) (keepMode : Bool := true) : Engine σ :=
  { e with
    mode := if keepMode then e.mode else .udp
    currentTimeMs := 0
    running := false
    completed := false
    nextSequenceToSend := 0
    awaitingAck := none
    timeoutToken := 0
    udpSentAll := false
    chaosDropRemaining := 0
    deliveredSequences := ∅
    nextPacketId := 1
    nextEventId := 1
    events := .empty
    inFlightPackets := []
    packetEvents := []
    stats := {}
    routers := e.routers.map fun _ r => { r with queue := [], nextAvailableTimeMs := 0 }
    history := [] }

/-- A run begins: UDP schedules every send at once, TCP the first. -/
def startRun [Clock] (e : Engine σ) : Except PyError (Engine σ) :=
  let e := e.resetRunState
  let e := { e with running := true, stats := e.stats.markStarted e.currentTimeMs }
  match e.mode with
  | .udp => do
      let e ← (List.range e.packetGoal).foldlM
        (fun e sequence => e.schedule (sequence * sendIntervalMs) (.sendData sequence)) e
      return { e with udpSentAll := true }
  | .tcp => e.schedule 0 (.sendData 0)

/-- The states a run begun by `start_run` from `e₀` passes through, between updates. -/
inductive Run [RandomSource σ] [Clock] (e₀ : Engine σ) : Engine σ → Prop where
  | start {e : Engine σ} (h : e₀.startRun = .ok e) : Run e₀ e
  | update {e e' : Engine σ} {dtMs : ℚ} (t : Run e₀ e) (hdt : 0 ≤ dtMs)
      (h : e.update dtMs = .ok e') : Run e₀ e'

/-- The run from `e` with the given frame times. -/
def ticks [RandomSource σ] [Clock] (e : Engine σ) (dts : List ℚ) : Except PyError (Engine σ) :=
  e.startRun >>= dts.foldlM update

end Engine

end PacketSim
