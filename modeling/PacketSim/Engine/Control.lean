import PacketSim.Engine.Definitions
import PacketSim.Lib.Except

/-!
# Engine — Control

`simulation.py`, second part: the operations that set the engine up and that the keyboard calls.

An operation that raises leaves behind what it assigned before; `Raised` carries that engine along
with the exception.  `start_run` and `update` are the only operations that make a run go on, so
their exceptions carry nothing.
-/

namespace PacketSim
open Lib

/-- An exception, and the engine it leaves behind. -/
structure Raised (σ : Type) where
  error : PyError
  engine : Engine σ

namespace Engine

variable {σ : Type}

/-- If `x` raises, `e` is left behind. -/
def leaving {α : Type} (e : Engine σ) (x : Except PyError α) : Except (Raised σ) α :=
  x.mapError fun error => ⟨error, e⟩

/-- New routers for the graph's tables, with the preset's firewall under SDN. -/
def rebuildRouters (e : Engine σ) : Except PyError (Engine σ) := do
  let forwardingTables ← e.graphManager.buildForwardingTables
  if e.useSdn then
    let firewallRouter := firewallNodes.get? e.graphManager.currentTopologyName
    return { e with
      routers := buildDemoSdnRouters forwardingTables firewallRouter processingDelayMs }
  else return { e with routers := buildRouters forwardingTables processingDelayMs }

/-- The graph, its endpoints and the routers; the run state is reset last. -/
def setupTopology (e : Engine σ) (topologyName : Option String := none) :
    Except (Raised σ) (Engine σ) := do
  let graphManager ← e.leaving <| match topologyName with
    | some name => e.graphManager.loadTopology name
    | none =>
        if e.graphManager.currentTopologyName = "" then
          e.graphManager.loadTopology (GraphManager.getTopologyNames.getD 0 "")
        else .ok e.graphManager
  let e := { e with
    graphManager, source := graphManager.defaultSource
    destination := graphManager.defaultDestination }
  let e ← e.leaving e.rebuildRouters
  return e.resetRunState

/-- The mode is kept by the reset that follows it. -/
def setMode (e : Engine σ) (mode : Mode) : Engine σ := { e with mode }.resetRunState

/-- UDP to TCP and back. -/
def toggleMode (e : Engine σ) : Engine σ := e.setMode (if e.mode = .udp then .tcp else .udp)

/-- The next preset and its routers; `source` and `destination` stay as they were. -/
def cycleTopology (e : Engine σ) : Except (Raised σ) (Engine σ) := do
  let graphManager ← e.leaving e.graphManager.cycleTopology
  let e := { e with graphManager }
  let e ← e.leaving e.rebuildRouters
  return e.resetRunState

/-- Off if links duplicate at all, else one packet in twenty. -/
def toggleDuplicates (e : Engine σ) : Engine σ :=
  let duplicateRate := if e.conditions.duplicateRate = 0 then 5/100 else 0
  { e with conditions := { e.conditions with duplicateRate } }.resetRunState

/-- Chaos on or off. -/
def toggleChaos (e : Engine σ) : Engine σ :=
  { e with
    conditions := { e.conditions with chaosMode := !e.conditions.chaosMode } }.resetRunState

/-- SDN on or off, with routers to match. -/
def toggleSdn (e : Engine σ) : Except (Raised σ) (Engine σ) := do
  let e := { e with useSdn := !e.useSdn }
  let e ← e.leaving e.rebuildRouters
  return e.resetRunState

/-- From port 443 to the blocked port, from any other to 443. -/
def toggleTrafficProfile (e : Engine σ) : Engine σ :=
  { e with trafficPort := if e.trafficPort = 443 then 80 else 443 }.resetRunState

/-- The rate stays between 0 and 0.6. -/
def adjustLossRate (e : Engine σ) (delta : ℚ) : Engine σ :=
  let lossRate := min (6/10) (max 0 (e.conditions.lossRate + delta))
  { e with conditions := { e.conditions with lossRate } }.resetRunState

/-- The factor stays between 0.4 and 2.5. -/
def adjustDelayMultiplier (e : Engine σ) (delta : ℚ) : Engine σ :=
  let delayMultiplier := min (25/10) (max (4/10) (e.conditions.delayMultiplier + delta))
  { e with conditions := { e.conditions with delayMultiplier } }.resetRunState

end Engine

/-! ### Sessions -/

/-- What a session does after `setup_topology`. -/
inductive Operation where
  | startRun
  | update (dtMs : ℚ)
  | setMode (mode : Mode)
  | toggleMode
  | cycleTopology
  | toggleChaos
  | toggleDuplicates
  | toggleSdn
  | toggleTrafficProfile
  | adjustLossRate (delta : ℚ)
  | adjustDelayMultiplier (delta : ℚ)
  | resetRunState (keepMode : Bool)
  deriving DecidableEq

/-- Time does not run backwards. -/
def Operation.Forward : Operation → Prop
  | .update dtMs => 0 ≤ dtMs
  | _ => True

namespace Engine

variable {σ : Type} [RandomSource σ] [Clock]

/-- One operation of a session. -/
def perform (e : Engine σ) : Operation → Except PyError (Engine σ)
  | .startRun => e.startRun
  | .update dtMs => e.update dtMs
  | .setMode mode => .ok (e.setMode mode)
  | .toggleMode => .ok e.toggleMode
  | .cycleTopology => e.cycleTopology.mapError Raised.error
  | .toggleChaos => .ok e.toggleChaos
  | .toggleDuplicates => .ok e.toggleDuplicates
  | .toggleSdn => e.toggleSdn.mapError Raised.error
  | .toggleTrafficProfile => .ok e.toggleTrafficProfile
  | .adjustLossRate delta => .ok (e.adjustLossRate delta)
  | .adjustDelayMultiplier delta => .ok (e.adjustDelayMultiplier delta)
  | .resetRunState keepMode => .ok (e.resetRunState keepMode)

/-- The operations one after the other. -/
def session (e : Engine σ) (ops : List Operation) : Except PyError (Engine σ) :=
  ops.foldlM perform e

end Engine

/-! ### A generator to evaluate runs with -/

/-- The generator whose draws never vary: `random` gives a half, the others their lower end. -/
structure Steady where

instance : RandomSource Steady where
  random s := (1/2, s)
  uniform a _ s := (a, s)
  randint a _ s := (a, s)
  random_range _ := by norm_num
  uniform_range _ h := ⟨le_rfl, h⟩
  randint_range _ h := ⟨le_rfl, h⟩

/-- `SimulationEngine(GraphManager())` with that generator, in a mode. -/
def Steady.fresh (mode : Mode) : Engine Steady :=
  { graphManager := .init, random := {}, mode }

/-- The same, set up on a preset. -/
def Steady.engine (topologyName : String) (mode : Mode) : Engine Steady :=
  ((fresh mode).setupTopology (some topologyName)).toOption.getD (fresh mode)

theorem Steady.setup_eq {topologyName : String} {mode : Mode}
    (h : ((fresh mode).setupTopology (some topologyName)).toBool = true) :
    (fresh mode).setupTopology (some topologyName) = .ok (engine topologyName mode) :=
  eq_ok_getD h _

end PacketSim
