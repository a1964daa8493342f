import PacketSim.Graph.Definitions

/-!
# Engine — Records

The records the engine moves about: packets, flights and event markers (`packet.py`), the
statistics of a run (`stats.py`), and routers with or without SDN rules (`router.py`,
`sdn_router.py`).

Times are Python floats; here they are rationals.  Sequence numbers, packet ids and tokens count
up from 0 or 1 and are natural numbers.  The string constants that name a mode, a packet type, an
action or an event kind are inductive types.  A router is an `SDNRouter` when `rules` is present.
-/

namespace PacketSim
open Lib

/-- The two protocols. -/
inductive Mode where
  | udp
  | tcp
  deriving DecidableEq, Repr

/-- What a packet carries. -/
inductive PacketType where
  | data
  | ack
  deriving DecidableEq, Repr

/-- `Packet`; a copy made by a link names its original in `duplicatedFrom`. -/
structure Packet where
  packetId : ℕ
  sessionId : ℕ
  source : Int
  destination : Int
  currentNode : Int
  protocol : Mode
  packetType : PacketType
  sequence : ℕ
  dstPort : ℕ := 443
  ackFor : Option ℕ := none
  retransmission : Bool := false
  duplicate : Bool := false
  duplicatedFrom : Option ℕ := none
  routeHistory : List Int
  deriving DecidableEq

/-- The packet as it reaches the end of a link. -/
def Packet.arriveAt (p : Packet) (node : Int) : Packet :=
  { p with currentNode := node, routeHistory := p.routeHistory ++ [node] }

/-- A packet on a link; whether it is lost was drawn when it left. -/
structure InFlightPacket where
  packet : Packet
  startNode : Int
  endNode : Int
  totalTimeMs : ℚ
  remainingTimeMs : ℚ
  delayed : Bool := false
  dropped : Bool := false

/-- What a marker shows. -/
inductive EventKind where
  | drop
  | delivered
  deriving DecidableEq, Repr

/-- A marker for the renderer, shown while it has time to live. -/
structure PacketEvent where
  kind : EventKind
  node : Option Int := none
  startNode : Option Int := none
  endNode : Option Int := none
  label : String := ""
  ttlMs : ℚ := 900

/-! ### Statistics -/

/-- The counters of a run. -/
structure RunStats where
  packetsSent : ℕ := 0
  packetsDelivered : ℕ := 0
  packetsDropped : ℕ := 0
  retransmissions : ℕ := 0
  duplicatePackets : ℕ := 0
  acknowledgements : ℕ := 0
  startTimeMs : Option ℚ := none
  endTimeMs : Option ℚ := none
  completedSequences : Finset ℕ := ∅

/-- The first start counts. -/
def RunStats.markStarted (s : RunStats) (nowMs : ℚ) : RunStats :=
  if s.startTimeMs = none then { s with startTimeMs := some nowMs } else s

/-- The last finish counts. -/
def RunStats.markFinished (s : RunStats) (nowMs : ℚ) : RunStats :=
  { s with endTimeMs := some nowMs }

/-- The time from start to finish, 0 while either is missing. -/
def RunStats.completionTimeMs (s : RunStats) : ℚ :=
  match s.startTimeMs with
  | none => 0
  | some startTime => max 0 (s.endTimeMs.getD startTime - startTime)

/-! ### Routers -/

/-- What a rule does with a packet. -/
inductive ActionType where
  | forward
  | drop
  deriving DecidableEq, Repr

/-- The action of a rule, and the hop to forward to. -/
structure Action where
  actionType : ActionType
  actionValue : Option Int := none
  deriving DecidableEq

/-- The packets a rule matches. -/
abbrev PacketPredicate := Packet → Bool

/-- A router, which serves its queue in order and is busy after each packet. -/
structure Router where
  routerId : Int
  forwardingTable : Dict Int Int
  processingDelayMs : ℚ := 45
  queue : List Packet := []
  nextAvailableTimeMs : ℚ := 0
  rules : Option (List (PacketPredicate × Action)) := none

namespace Router

/-- The packet joins the end of the queue. -/
def enqueue (r : Router) (packet : Packet) : Router := { r with queue := r.queue ++ [packet] }

/-- A packet waits. -/
def hasWork (r : Router) : Bool := !r.queue.isEmpty

/-- The neighbour towards a destination, by the table. -/
def nextHop (r : Router) (destination : Int) : Except PyError Int :=
  match r.forwardingTable.get? destination with
  | some hop => .ok hop
  | none => .error (GraphManager.noRoute r.routerId destination)

/-- `isinstance(router, SDNRouter)`. -/
def isSDN (r : Router) : Bool := r.rules.isSome

/-- The action of the first rule that matches; a plain router has none. -/
def applyRules (r : Router) (packet : Packet) : Option Action :=
  r.rules.bind fun rules => (rules.find? fun rule => rule.1 packet).map Prod.snd

end Router

/-- A plain router for every table. -/
def buildRouters (forwardingTables : Dict Int (Dict Int Int)) (processingDelayMs : ℚ) :
    Dict Int Router :=
  forwardingTables.map fun routerId table =>
    { routerId, forwardingTable := table, processingDelayMs }

/-- The one rule of the firewall router: drop data packets to the blocked port. -/
def firewallRules (blockedPort : ℕ) : List (PacketPredicate × Action) :=
  [(fun packet => packet.dstPort = blockedPort && packet.packetType = .data, ⟨.drop, none⟩)]

/-- A router for every table, with the firewall rule at one of them. -/
def buildDemoSdnRouters (forwardingTables : Dict Int (Dict Int Int)) (firewallRouter : Option Int)
    (processingDelayMs : ℚ) (blockedPort : ℕ := 80) : Dict Int Router :=
  forwardingTables.map fun routerId table =>
    if some routerId = firewallRouter then
      { routerId, forwardingTable := table, processingDelayMs
        rules := some (firewallRules blockedPort) }
    else { routerId, forwardingTable := table, processingDelayMs }

end PacketSim
