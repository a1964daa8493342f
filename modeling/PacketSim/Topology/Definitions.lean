import PacketSim.Lib.Dict
import PacketSim.Lib.Contents

/-!
# Topology — Definitions

`05-topology/`: routers that pass messages to each other by forwarding tables, and the manager that
ticks them in turn (`router.cpp`, `manager.cpp`).

A message in the source is the id of its destination.  Here it also carries a `tag`, the number of
the call that added it, and the manager keeps the messages added in `added`; no definition reads
either.  The printed lines are kept in `output`.  `this` is an index into `manager->routers`, and a
router reads the clock once in a tick.
-/

namespace PacketSim.Topology

open Lib

/-- A message, told apart from the others by its tag. -/
structure Message where
  destination : Int
  tag : ℕ
deriving DecidableEq

/-- The times are in milliseconds. -/
structure Router where
  routerId : Int
  delays : Dict Int Int
  lastSent : Int
  messageQueue : List Message := []
  forwardingTable : Dict Int Int := .empty
  nextMsg : Int × Message := (0, ⟨0, 0⟩)
  messageQueued : Bool := false

/-- A line of the output. -/
inductive Line where
  | forward (routerId : Int) (nextMsg : Int × Message)
  | received (routerId : Int) (message : Message)
deriving DecidableEq

/-- The message a line says was received, with the router it was received at. -/
def Line.receipt : Line → Option (Int × Message)
  | .received routerId message => some (routerId, message)
  | .forward .. => none

/-- The routers, with the messages added and the lines printed so far. -/
structure Manager where
  routers : List Router
  added : List Message := []
  output : List Line := []

/-- `operator[]` of an `unordered_map`, which enters a missing key with the value 0. -/
def subscript (d : Dict Int Int) (k : Int) : Int × Dict Int Int :=
  match d.get? k with
  | some v => (v, d)
  | none => (0, d.insert k 0)

/-! ### Routers -/

namespace Router

/-- The constructor, at the time `now`. -/
def new (routerId : Int) (delays : Dict Int Int) (now : Int) : Router where
  routerId := routerId
  delays := delays
  lastSent := now

/-- The table is replaced as a whole. -/
def setForwardingTables (r : Router) (forwardingTable : Dict Int Int) : Router :=
  { r with forwardingTable }

/-- The message joins the router's queue. -/
def addMessage (r : Router) (message : Message) : Router :=
  { r with messageQueue := r.messageQueue ++ [message] }

/-- `message_queued = false` -/
def sent (r : Router) : Router := { r with messageQueued := false }

/-- The last part of `tick`: the next message is received here, or made ready to be sent. -/
def prepare (r : Router) (now : Int) : Router × List Line :=
  match r.messageQueue with
  | [] => (r, [])
  | message :: messageQueue =>
      if message.destination = r.routerId then
        ({ r with messageQueue }, [.received r.routerId message])
      else
        let (nextHop, forwardingTable) := subscript r.forwardingTable message.destination
        let (delay, delays) := subscript r.delays nextHop
        ({ r with
            messageQueue, forwardingTable, delays
            nextMsg := (nextHop, message)
            messageQueued := true
            lastSent := now + delay }, [])

end Router

/-! ### The manager -/

/-- `add_message` at the first router with the given id. -/
def enqueue (routers : List Router) (routerId : Int) (message : Message) : List Router :=
  modifyFirst (fun r => r.routerId = routerId) (·.addMessage message) routers

namespace Manager

/-- The first part of `tick` of the router `r`, at the index `i`: its message goes to the next
router. -/
def send (m : Manager) (i : ℕ) (r : Router) : Manager :=
  let routers := enqueue m.routers r.nextMsg.1 r.nextMsg.2
  { m with
    routers := routers.modify i Router.sent
    output := m.output ++ [.forward r.routerId r.nextMsg] }

/-- `tick` of the router at the index `i`. -/
def tickRouter (m : Manager) (now : Int) (i : ℕ) : Manager :=
  match m.routers[i]? with
  | none => m
  | some r =>
      if r.messageQueue = [] ∧ r.messageQueued = false then m
      else if now < r.lastSent then m
      else
        let m := if r.messageQueued then m.send i r else m
        -- read again: the message may have come back to the router's own queue
        match m.routers[i]? with
        | none => m
        | some r =>
            let (r, lines) := r.prepare now
            { m with routers := m.routers.set i r, output := m.output ++ lines }

/-- The first `k` router ticks of a `tick` of the manager; `now` gives the clock reading of each. -/
def pass (m : Manager) (now : ℕ → Int) (k : ℕ) : Manager :=
  (List.range k).foldl (fun m i => m.tickRouter (now i) i) m

/-- One pass over all routers. -/
def tick (m : Manager) (now : ℕ → Int) : Manager := m.pass now m.routers.length

/-- A new message at its source. -/
def addMessage (m : Manager) (source destination : Int) : Manager :=
  let message : Message := ⟨destination, m.added.length⟩
  { m with
    routers := enqueue m.routers source message
    added := m.added ++ [message] }

/-- No message is queued or about to be sent. -/
def finished (m : Manager) : Bool :=
  m.routers.all fun r => r.messageQueue.isEmpty && !r.messageQueued

/-- What `main` calls on a manager. -/
inductive Call where
  | addMessage (source destination : Int)
  | tick (now : ℕ → Int)

/-- What one call does. -/
def call (m : Manager) : Call → Manager
  | .addMessage source destination => m.addMessage source destination
  | .tick now => m.tick now

/-- The calls one after the other. -/
def run (m : Manager) (calls : List Call) : Manager := calls.foldl call m

/-- A manager with these routers, before any call. -/
def new (routers : List Router) : Manager := { routers }

/-- The messages received so far, each with the router it was received at. -/
def received (m : Manager) : List (Int × Message) := m.output.filterMap Line.receipt

end Manager

/-- The network of `main`, whose routers are in a line. -/
def exampleNetwork : List Router :=
  [(Router.new 1 (.ofList [(2, 1000)]) 0).setForwardingTables (.ofList [(2, 2), (3, 2)]),
    (Router.new 2 (.ofList [(1, 1000), (3, 1000)]) 0).setForwardingTables
      (.ofList [(1, 1), (3, 3)]),
    (Router.new 3 (.ofList [(2, 1000)]) 0).setForwardingTables (.ofList [(1, 2), (2, 2)])]

end PacketSim.Topology
