import PacketSim.Graph.Forwarding
import PacketSim.Lib.Except

/-!
# Graph — Presets

The graphs of the topology presets: connected, with positive delays, on the nodes 0 to 5
(`preset_good`), with tables (`preset_built`); and what `load_topology` and `cycle_topology` do to
the manager (`loadTopology_eq_ok`, `cycleTopology_preset`).
-/

namespace PacketSim
open Lib Lib.Dijkstra

namespace GraphManager

/-- The manager once the preset is loaded, whatever it held before. -/
def preset (spec : TopologySpec) : GraphManager := init.loadSpec spec

theorem loadSpec_eq (m : GraphManager) (spec : TopologySpec) : m.loadSpec spec = preset spec := rfl

theorem loadTopology_eq_ok {m m' : GraphManager} {name : String} :
    m.loadTopology name = .ok m' ↔
      ∃ spec, topologyPresets.get? name = some spec ∧ m' = preset spec := by
  rw [loadTopology, map_eq_ok]
  simp only [getItem_eq_ok, loadSpec_eq, eq_comm (a := m')]

/-- The three presets under their names. -/
theorem presets_cases {name : String} {spec : TopologySpec}
    (h : topologyPresets.get? name = some spec) :
    name = "Campus Backbone" ∧ spec = campusBackbone ∨
      name = "Bottleneck Path" ∧ spec = bottleneckPath ∨
      name = "Redundant Ring" ∧ spec = redundantRing := by
  have hm := Dict.get?_eq_some.mp h
  have : topologyPresets.entries = [("Campus Backbone", campusBackbone),
      ("Bottleneck Path", bottleneckPath), ("Redundant Ring", redundantRing)] := by rfl
  simpa [this] using hm

/-- What the search and the tables need of a graph. -/
structure Good (m : GraphManager) : Prop where
  wf : m.graph.WF
  positive : m.graph.PositiveDelays
  connected : m.graph.Connected

/-- The tables of a good manager have a row for each node. -/
theorem Good.keys {m : GraphManager} (h : m.Good) {tables : Dict Int (Dict Int Int)}
    (htables : m.buildForwardingTables = .ok tables) : tables.keys = m.graph.nodes :=
  (entry_of_built h.wf.nodup htables).1

theorem preset_nodes {name : String} {spec : TopologySpec}
    (h : topologyPresets.get? name = some spec) :
    (preset spec).graph.nodes = [0, 1, 2, 3, 4, 5] := by
  rcases presets_cases h with ⟨-, rfl⟩ | ⟨-, rfl⟩ | ⟨-, rfl⟩ <;> decide +kernel

/-- The endpoints of a preset are two of its nodes. -/
theorem preset_endpoints {name : String} {spec : TopologySpec}
    (h : topologyPresets.get? name = some spec) :
    (preset spec).defaultSource ∈ (preset spec).graph.nodes ∧
      (preset spec).defaultDestination ∈ (preset spec).graph.nodes ∧
      (preset spec).defaultSource ≠ (preset spec).defaultDestination := by
  rw [preset_nodes h]
  rcases presets_cases h with ⟨-, rfl⟩ | ⟨-, rfl⟩ | ⟨-, rfl⟩ <;> decide

theorem preset_name {name : String} {spec : TopologySpec}
    (h : topologyPresets.get? name = some spec) : (preset spec).currentTopologyName = name := by
  rcases presets_cases h with ⟨rfl, rfl⟩ | ⟨rfl, rfl⟩ | ⟨rfl, rfl⟩ <;> rfl

/-- The delays of a preset are from 1 to 420. -/
theorem preset_delays {name : String} {spec : TopologySpec}
    (h : topologyPresets.get? name = some spec) {a b c : Int}
    (hc : (preset spec).graph.delay a b = some c) : 0 < c ∧ c ≤ 420 := by
  have hops : ∀ op ∈ specOps spec, op.DelayIn fun c => 0 < c ∧ c ≤ 420 := by
    rcases presets_cases h with ⟨-, rfl⟩ | ⟨-, rfl⟩ | ⟨-, rfl⟩ <;>
      simp [specOps, SimpleGraph.GraphOp.DelayIn, campusBackbone, bottleneckPath, redundantRing]
  exact SimpleGraph.delay_buildGraph hops a b c (graph_loadSpec init spec ▸ hc)

theorem preset_good {name : String} {spec : TopologySpec}
    (h : topologyPresets.get? name = some spec) : (preset spec).Good := by
  have hattached : (preset spec).graph.attached [0] [1, 2, 3, 4, 5] = true := by
    rcases presets_cases h with ⟨-, rfl⟩ | ⟨-, rfl⟩ | ⟨-, rfl⟩ <;> decide +kernel
  have hwf := wf_loadSpec init spec
  exact ⟨hwf, fun _ _ _ hc => (preset_delays h hc).1,
    SimpleGraph.connected_of_attached hwf (preset_nodes h) hattached⟩

theorem preset_small {name : String} {spec : TopologySpec}
    (h : topologyPresets.get? name = some spec) : (preset spec).Small 420 :=
  ⟨fun _ _ _ hc => (preset_delays h hc).2, by rw [preset_nodes h]; decide⟩

/-- The tables of a preset can be built. -/
theorem preset_built {name : String} {spec : TopologySpec}
    (h : topologyPresets.get? name = some spec) :
    ∃ tables, (preset spec).buildForwardingTables = .ok tables := by
  have hgood := preset_good h
  exact (built_iff hgood.wf hgood.positive).mpr
    ((preset_small h).addable hgood.wf hgood.positive hgood.connected)

/-! ### Cycling -/

/-- The preset that `cycle_topology` loads after `name`. -/
def nextPreset (name : String) : String :=
  getTopologyNames.getD ((getTopologyNames.idxOf name + 1) % getTopologyNames.length) ""

theorem cycleTopology_preset {name : String} {spec : TopologySpec}
    (h : topologyPresets.get? name = some spec) :
    ∃ spec', topologyPresets.get? (nextPreset name) = some spec' ∧
      (preset spec).cycleTopology = .ok (preset spec') := by
  have hcycle : (preset spec).cycleTopology = (preset spec).loadTopology (nextPreset name) := by
    rw [cycleTopology, preset_name h]
    rcases presets_cases h with ⟨rfl, -⟩ | ⟨rfl, -⟩ | ⟨rfl, -⟩ <;> rfl
  have hnext : ∃ spec', topologyPresets.get? (nextPreset name) = some spec' := by
    rcases presets_cases h with ⟨rfl, -⟩ | ⟨rfl, -⟩ | ⟨rfl, -⟩
    · exact ⟨bottleneckPath, by rfl⟩
    · exact ⟨redundantRing, by rfl⟩
    · exact ⟨campusBackbone, by rfl⟩
  obtain ⟨spec', hspec'⟩ := hnext
  exact ⟨spec', hspec', hcycle.trans (loadTopology_eq_ok.mpr ⟨spec', hspec', rfl⟩)⟩

/-- What `cycle_topology` loads is a preset, whatever the manager held. -/
theorem cycleTopology_eq_ok {m m' : GraphManager} (h : m.cycleTopology = .ok m') :
    ∃ name spec, topologyPresets.get? name = some spec ∧ m' = preset spec := by
  unfold cycleTopology at h
  dsimp only at h
  split at h
  · exact ⟨_, loadTopology_eq_ok.mp h⟩
  · split at h
    · cases h
    · exact ⟨_, loadTopology_eq_ok.mp h⟩

end GraphManager

end PacketSim
