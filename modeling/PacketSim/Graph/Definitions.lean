import PacketSim.Lib.Dict
import PacketSim.Lib.Double
import PacketSim.Lib.Heap

/-!
# Graph — Definitions

`graph.py`: the undirected graph with delays on its links, the topology presets, and the manager
that loads them and computes routes and forwarding tables.

Node ids and delays are Python integers.  The distances of `get_route` are Python floats, so a delay
is converted before it is added, which raises where it is out of the range of a float (`toFloat`),
and each sum is rounded (`Double.plus`).  The loop of `getRoute` is bounded by `searchFuel`, one
more than the number of pushes a search over non-negative delays can make (`getRoute_spec`); with a
negative delay the loop of the source need not end, and the bound shows as `PyError.diverged`.  The
drawing data (`pos`, `description`) is left out.
-/

namespace PacketSim
open Lib

/-- The exceptions the modelled code raises.  `diverged` is no exception of the source: it marks a
loop that outran its bound. -/
inductive PyError where
  | keyError (message : String)
  | valueError (message : String)
  | typeError (message : String)
  | overflowError (message : String)
  | diverged
  deriving DecidableEq, Repr

/-- `d[k]`, which raises `KeyError` at a missing key. -/
def getItem {κ ν : Type} [DecidableEq κ] [ToString κ] (d : Dict κ ν) (k : κ) : Except PyError ν :=
  match d.get? k with
  | some v => .ok v
  | none => .error (.keyError (toString k))

theorem getItem_eq_ok {κ ν : Type} [DecidableEq κ] [ToString κ] {d : Dict κ ν} {k : κ} {v : ν} :
    getItem d k = .ok v ↔ d.get? k = some v := by
  unfold getItem
  split <;> simp_all

/-! ### `SimpleGraph` -/

/-- The payload of a link. -/
structure EdgeData where
  delayMs : Int
  deriving DecidableEq, Repr

/-- The nodes in the order they came, and each one's neighbours with the payloads of the links. -/
structure SimpleGraph where
  nodes : List Int
  adjacency : Dict Int (Dict Int EdgeData)

namespace SimpleGraph

/-- `SimpleGraph()` -/
def empty : SimpleGraph := ⟨[], .empty⟩

/-- No node and no link is left. -/
def clear (_ : SimpleGraph) : SimpleGraph := empty

/-- A node that is there already keeps its links. -/
def addNode (g : SimpleGraph) (node : Int) : SimpleGraph :=
  if node ∈ g.adjacency.keys then g
  else ⟨g.nodes ++ [node], g.adjacency.insert node .empty⟩

/-- The nodes one after the other. -/
def addNodesFrom (g : SimpleGraph) (nodes : List Int) : SimpleGraph := nodes.foldl addNode g

/-- Both directions share one payload. -/
def addEdge (g : SimpleGraph) (nodeA nodeB delayMs : Int) : SimpleGraph :=
  let g := g.addNodesFrom [nodeA, nodeB]
  let payload : EdgeData := ⟨delayMs⟩
  { g with
    adjacency := (g.adjacency.modify nodeA (·.insert nodeB payload)).modify nodeB
      (·.insert nodeA payload) }

/-- The neighbours of a node, in the order their links came. -/
def neighbors (g : SimpleGraph) (node : Int) : Except PyError (List Int) :=
  (getItem g.adjacency node).map Dict.keys

/-- `tuple(sorted((node_a, node_b)))`. -/
def sortedPair (nodeA nodeB : Int) : Int × Int :=
  if nodeB < nodeA then (nodeB, nodeA) else (nodeA, nodeB)

/-- The loops of `edges`: what is emitted at the first of the two entries of an edge is `emit` of
the edge and the payload. -/
def edgesWith {α : Type} (emit : Int × Int → EdgeData → α) (g : SimpleGraph) : List α :=
  (g.adjacency.entries.foldl (fun acc (nodeA, neighbors) =>
    neighbors.entries.foldl (fun (emitted, result) (nodeB, payload) =>
      let edge := sortedPair nodeA nodeB
      if edge ∈ emitted then (emitted, result)
      else (emitted ++ [edge], result ++ [emit edge payload])) acc) ([], [])).2

/-- `edges(data=False)`. -/
def edges (g : SimpleGraph) : List (Int × Int) := g.edgesWith fun edge _ => edge

/-- `edges(data=True)`. -/
def edgesData (g : SimpleGraph) : List (Int × Int × EdgeData) :=
  g.edgesWith fun edge payload => (edge.1, edge.2, payload)

/-- The payload of a link. -/
def edgeData (g : SimpleGraph) (nodeA nodeB : Int) : Except PyError EdgeData :=
  getItem g.adjacency nodeA >>= fun row => getItem row nodeB

end SimpleGraph

/-! ### The presets -/

/-- A preset; its description is the renderer's. -/
structure TopologySpec where
  name : String
  positions : Dict Int (ℚ × ℚ)
  edges : List (Int × Int × Int)
  defaultSource : Int
  defaultDestination : Int

/-- The preset the program starts with. -/
def campusBackbone : TopologySpec where
  name := "Campus Backbone"
  positions := .ofList
    [(0, -95/100, 5/100), (1, -45/100, -45/100), (2, -15/100, 35/100), (3, 25/100, -20/100),
      (4, 65/100, 30/100), (5, 95/100, -5/100)]
  edges :=
    [(0, 1, 260), (0, 2, 180), (1, 2, 200), (1, 3, 220), (2, 3, 170), (2, 4, 230), (3, 4, 180),
      (3, 5, 260), (4, 5, 190)]
  defaultSource := 0
  defaultDestination := 5

/-- The preset with one slow link in the middle. -/
def bottleneckPath : TopologySpec where
  name := "Bottleneck Path"
  positions := .ofList
    [(0, -95/100, 5/100), (1, -55/100, -30/100), (2, -20/100, 0), (3, 20/100, 0),
      (4, 55/100, 30/100), (5, 95/100, -5/100)]
  edges :=
    [(0, 1, 180), (1, 2, 220), (2, 3, 360), (3, 4, 220), (4, 5, 180), (1, 3, 420), (2, 4, 420)]
  defaultSource := 0
  defaultDestination := 5

/-- The preset with a loop around and a triangle inside. -/
def redundantRing : TopologySpec where
  name := "Redundant Ring"
  positions := .ofList
    [(0, -75/100, 0), (1, -35/100, -55/100), (2, 35/100, -55/100), (3, 75/100, 0),
      (4, 35/100, 55/100), (5, -35/100, 55/100)]
  edges :=
    [(0, 1, 170), (1, 2, 190), (2, 3, 170), (3, 4, 190), (4, 5, 170), (5, 0, 190), (0, 2, 240),
      (2, 4, 240), (4, 0, 240)]
  defaultSource := 5
  defaultDestination := 2

/-- The presets, in the order `cycle_topology` goes through them. -/
def topologyPresets : Dict String TopologySpec :=
  .ofList
    [("Campus Backbone", campusBackbone), ("Bottleneck Path", bottleneckPath),
      ("Redundant Ring", redundantRing)]

/-! ### `GraphManager` -/

/-- `float(n)`: the nearest double, if it is finite. -/
def toFloat (n : Int) : Except PyError ℚ :=
  if |rounded n| < pow2 1024 then .ok (rounded n)
  else .error (.overflowError "int too large to convert to float")

/-- The order of the entries `(distance, node)` on the heap of `get_route`. -/
def EntryLE (a b : Double × Int) : Prop := a.1 < b.1 ∨ a.1 = b.1 ∧ a.2 ≤ b.2

instance : DecidableRel EntryLE := fun a b =>
  inferInstanceAs (Decidable (a.1 < b.1 ∨ a.1 = b.1 ∧ a.2 ≤ b.2))

instance : Std.Total EntryLE := ⟨fun a b => by
  rcases lt_trichotomy a.1 b.1 with h | h | h
  · exact .inl (.inl h)
  · exact (le_total a.2 b.2).imp (fun h' => .inr ⟨h, h'⟩) fun h' => .inr ⟨h.symm, h'⟩
  · exact .inr (.inl h)⟩

instance : IsTrans (Double × Int) EntryLE := ⟨fun a b c hab hbc => by
  rcases hab with hab | ⟨hab, hab'⟩ <;> rcases hbc with hbc | ⟨hbc, hbc'⟩
  · exact .inl (hab.trans hbc)
  · exact .inl (hbc ▸ hab)
  · exact .inl (hab ▸ hbc)
  · exact .inr ⟨hab.trans hbc, hab'.trans hbc'⟩⟩

/-- The state of `get_route`'s search. -/
structure RouteSearch where
  distances : Dict Int Double
  previous : Dict Int (Option Int)
  heap : Heap (Double × Int) EntryLE

/-- The graph that is loaded, and the endpoints it suggests for the traffic. -/
structure GraphManager where
  graph : SimpleGraph
  currentTopologyName : String
  defaultSource : Int
  defaultDestination : Int

namespace GraphManager

/-- `GraphManager()`, with nothing loaded. -/
def init : GraphManager := ⟨.empty, "", 0, 0⟩

/-- A link of `edges` with two components gets the delay 200. -/
def addLink (g : SimpleGraph) : Int × Int × Option Int → SimpleGraph
  | (nodeA, nodeB, delayMs) => g.addEdge nodeA nodeB (delayMs.getD 200)

/-- A graph of one's own: the nodes below `num_nodes` and those the links name.  The source is 0
whether or not there is such a node. -/
def createGraph (m : GraphManager) (numNodes : ℕ) (edges : List (Int × Int × Option Int)) :
    GraphManager :=
  let nodes := (List.range numNodes).map Int.ofNat
  let graph := edges.foldl addLink (m.graph.clear.addNodesFrom nodes)
  { graph
    currentTopologyName := "Custom"
    defaultSource := 0
    defaultDestination := graph.nodes.max?.getD 0 }

/-- The manager once the preset `spec` is loaded. -/
def loadSpec (m : GraphManager) (spec : TopologySpec) : GraphManager where
  graph := spec.edges.foldl (fun g e => g.addEdge e.1 e.2.1 e.2.2)
    (m.graph.clear.addNodesFrom spec.positions.keys)
  currentTopologyName := spec.name
  defaultSource := spec.defaultSource
  defaultDestination := spec.defaultDestination

/-- The preset of that name. -/
def loadTopology (m : GraphManager) (topologyName : String) : Except PyError GraphManager :=
  (getItem topologyPresets topologyName).map m.loadSpec

/-- The names of the presets. -/
def getTopologyNames : List String := topologyPresets.keys

/-- The preset `step` places on, around the end; a graph of one's own has no place among them. -/
def cycleTopology (m : GraphManager) (step : Int := 1) : Except PyError GraphManager :=
  let names := topologyPresets.keys
  if m.currentTopologyName = "" then m.loadTopology (names.getD 0 "")
  else match names.idxOf? m.currentTopologyName with
    | none => .error (.valueError "list.index(x): x not in list")
    | some currentIndex =>
        m.loadTopology (names.getD ((currentIndex + step) % names.length).toNat "")

/-- The delay of a link. -/
def getEdgeDelay (m : GraphManager) (nodeA nodeB : Int) : Except PyError Int :=
  (m.graph.edgeData nodeA nodeB).map EdgeData.delayMs

/-- `new_distance` is offered to one neighbour. -/
def relax (m : GraphManager) (currentDistance : Double) (node : Int) (st : RouteSearch)
    (neighbor : Int) : Except PyError RouteSearch := do
  let newDistance := currentDistance.plus (← toFloat (← m.getEdgeDelay node neighbor))
  if (← getItem st.distances neighbor) ≤ newDistance then return st
  else
    return {
      distances := st.distances.insert neighbor newDistance
      previous := st.previous.insert neighbor (some node)
      heap := st.heap.push (newDistance, neighbor) }

/-- The `while heap` loop, for at most `fuel` pops. -/
def searchLoop (m : GraphManager) (destination : Int) :
    ℕ → RouteSearch → Except PyError RouteSearch
  | fuel, st =>
    match st.heap.pop? with
    | none => .ok st
    | some ((currentDistance, node), heap) =>
        match fuel with
        | 0 => .error .diverged
        | fuel + 1 =>
            let st := { st with heap }
            if node = destination then .ok st
            else do
              if (← getItem st.distances node) < currentDistance then
                searchLoop m destination fuel st
              else
                let neighbors ← m.graph.neighbors node
                let st ← neighbors.foldlM (m.relax currentDistance node) st
                searchLoop m destination fuel st

/-- No search over non-negative delays pops more entries than this. -/
def searchFuel (m : GraphManager) : ℕ := (m.graph.adjacency.values.map (·.keys.length)).sum + 1

/-- The exception for two nodes that no route joins. -/
def noRoute (source destination : Int) : PyError :=
  .keyError ("No route from " ++ toString source ++ " to " ++ toString destination)

/-- The `while route[-1] != source` loop; `route` is kept newest first. -/
def walkBack (st : RouteSearch) (source destination : Int) :
    ℕ → Int → List Int → Except PyError (List Int)
  | fuel, last, route =>
    if last = source then .ok (last :: route)
    else match fuel with
      | 0 => .error .diverged
      | fuel + 1 => do
          match ← getItem st.previous last with
          | none => .error (noRoute source destination)
          | some prevNode => walkBack st source destination fuel prevNode (last :: route)

/-- The nodes of a least route by the rounded distances, the source first. -/
def getRoute (m : GraphManager) (source destination : Int) : Except PyError (List Int) := do
  let distances : Dict Int Double := .ofList (m.graph.nodes.map fun node => (node, .inf))
  let previous : Dict Int (Option Int) := .ofList (m.graph.nodes.map fun node => (node, none))
  let zero := Double.ofRat 0
  let st ← m.searchLoop destination m.searchFuel
    ⟨distances.insert source zero, previous, Heap.empty.push (zero, source)⟩
  if (← getItem st.distances destination) = .inf then .error (noRoute source destination)
  else walkBack st source destination m.graph.nodes.length destination []

/-- One row: the second node of the route to each other node. -/
def buildRow (m : GraphManager) (source : Int) : Except PyError (Dict Int Int) :=
  m.graph.nodes.foldlM (fun table destination => do
    if source = destination then return table
    else
      match ← m.getRoute source destination with
      | _ :: hop :: _ => return table.insert destination hop
      | _ => .error (.valueError "list index out of range")) .empty

/-- The table of every node. -/
def buildForwardingTables (m : GraphManager) : Except PyError (Dict Int (Dict Int Int)) :=
  m.graph.nodes.foldlM (fun tables source => do
    return tables.insert source (← m.buildRow source)) .empty

end GraphManager

end PacketSim
