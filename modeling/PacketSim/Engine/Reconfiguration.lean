import PacketSim.Engine.Configuration

/-!
# Engine — Reconfiguration

What `setup_topology`, `toggle_sdn` and `cycle_topology` leave behind when they raise.  Each of the
three may fail at a lookup, before it assigns anything, or in `_rebuild_routers`, where the tables
of a disconnected graph cannot be built.

* `leaving_rebuildRouters`: where the tables can be built, as a preset's can, the rebuild does not
  fail.
* `setupTopology_raised`, `toggleSdn_raised`, `cycleTopology_raised`: the engine that each leaves.
* `reconfigure_asBefore`: `cycle_topology` leaves the engine as it was, `toggle_sdn` never does,
  and `setup_topology` does unless it is to keep the manager's graph and the endpoints are not the
  manager's: both assign before they rebuild.
-/

namespace PacketSim
open Lib

/-- The operations that may raise. -/
inductive Reconfiguration where
  | setupTopology (topologyName : Option String)
  | toggleSdn
  | cycleTopology
  deriving DecidableEq

namespace Engine

variable {σ : Type}

/-- The operation that the key or the caller asks for. -/
def reconfigure (e : Engine σ) : Reconfiguration → Except (Raised σ) (Engine σ)
  | .setupTopology topologyName => e.setupTopology topologyName
  | .toggleSdn => e.toggleSdn
  | .cycleTopology => e.cycleTopology

theorem leaving_eq_error {α : Type} {e : Engine σ} {x : Except PyError α} {r : Raised σ} :
    e.leaving x = .error r ↔ x = .error r.error ∧ r.engine = e := by
  obtain ⟨error, engine⟩ := r
  cases x <;> simp [leaving, Except.mapError, eq_comm]

/-- Where the tables can be built, the rebuild does not raise. -/
theorem leaving_rebuildRouters {e e₀ : Engine σ} {r : Raised σ}
    (h : ∃ tables, e.graphManager.buildForwardingTables = .ok tables) :
    e₀.leaving e.rebuildRouters ≠ .error r := by
  obtain ⟨e', he'⟩ := rebuildRouters_total h
  rw [ne_eq, leaving_eq_error, he']
  exact fun hr => nomatch hr.1

/-- Once a preset is loaded, nothing raises. -/
theorem setupTopology_loaded {e : Engine σ} {name : String} {m : GraphManager} {r : Raised σ}
    (hm : e.graphManager.loadTopology name = .ok m)
    (h : leaving { e with
        graphManager := m, source := m.defaultSource, destination := m.defaultDestination }
      (rebuildRouters { e with
        graphManager := m, source := m.defaultSource, destination := m.defaultDestination }) =
      .error r) : False := by
  obtain ⟨spec, hspec, rfl⟩ := GraphManager.loadTopology_eq_ok.mp hm
  refine leaving_rebuildRouters ?_ h
  exact GraphManager.preset_built hspec

/-- A preset is looked up before anything is assigned, and its tables can be built; without a name,
and with a graph held, the endpoints are assigned before the tables are built. -/
theorem setupTopology_raised {e : Engine σ} {topologyName : Option String} {r : Raised σ}
    (h : e.setupTopology topologyName = .error r) :
    r.engine = match topologyName with
      | some _ => e
      | none => { e with
          source := e.graphManager.defaultSource
          destination := e.graphManager.defaultDestination } := by
  simp only [setupTopology, bind_eq_error] at h
  cases topologyName with
  | some name =>
      rcases h with h | ⟨m, hm, h | ⟨e₁, -, h⟩⟩
      · exact (leaving_eq_error.mp h).2
      · exact (setupTopology_loaded (leaving_eq_ok.mp hm) h).elim
      · cases h
  | none =>
      by_cases hname : e.graphManager.currentTopologyName = ""
      · simp only [if_pos hname] at h
        -- a manager that never loaded a preset loads the first
        have hfirst : topologyPresets.get? (GraphManager.getTopologyNames.getD 0 "") =
            some campusBackbone := rfl
        have hload := GraphManager.loadTopology_eq_ok (m := e.graphManager).mpr ⟨_, hfirst, rfl⟩
        rcases h with h | ⟨m, hm, h | ⟨e₁, -, h⟩⟩
        · rw [leaving_eq_error, hload] at h
          cases h.1
        · exact (setupTopology_loaded (leaving_eq_ok.mp hm) h).elim
        · cases h
      · simp only [if_neg hname] at h
        rcases h with h | ⟨m, hm, h | ⟨e₁, -, h⟩⟩
        · cases h
        · cases hm
          exact (leaving_eq_error.mp h).2
        · cases h

theorem toggleSdn_raised {e : Engine σ} {r : Raised σ} (h : e.toggleSdn = .error r) :
    r.engine = { e with useSdn := !e.useSdn } := by
  simp only [toggleSdn, bind_eq_error, leaving_eq_error] at h
  obtain ⟨-, he⟩ | ⟨e₁, -, h⟩ := h
  · exact he
  · cases h

theorem toggleSdn_flips {e : Engine σ} {r : Raised σ} (h : e.toggleSdn = .error r)
    (hs : e.useSdn = false) : r.engine.useSdn = true := by
  rw [toggleSdn_raised h, hs]
  rfl

/-- The preset after a preset is a preset. -/
theorem cycleTopology_raised {e : Engine σ} {r : Raised σ} (h : e.cycleTopology = .error r) :
    r.engine = e := by
  simp only [cycleTopology, bind_eq_error] at h
  rcases h with h | ⟨m, hm, h | ⟨e₁, -, h⟩⟩
  · exact (leaving_eq_error.mp h).2
  · obtain ⟨name, spec, hspec, rfl⟩ := GraphManager.cycleTopology_eq_ok (leaving_eq_ok.mp hm)
    refine (leaving_rebuildRouters ?_ h).elim
    exact GraphManager.preset_built hspec
  · cases h

/-- What a failing reconfiguration is to leave as it was. -/
structure AsBefore (e e' : Engine σ) : Prop where
  source : e'.source = e.source
  destination : e'.destination = e.destination
  useSdn : e'.useSdn = e.useSdn
  routers : e'.routers = e.routers
  running : e'.running = e.running
  inFlightPackets : e'.inFlightPackets = e.inFlightPackets
  events : e'.events = e.events
  stats : e'.stats = e.stats

/-- The operation assigns nothing new before it can fail. -/
def AssignsLate (e : Engine σ) : Reconfiguration → Prop
  | .setupTopology none =>
      e.source = e.graphManager.defaultSource ∧ e.destination = e.graphManager.defaultDestination
  | .setupTopology (some _) | .cycleTopology => True
  | .toggleSdn => False

/-- **What a failing reconfiguration leaves.**  An operation that raises leaves the engine as it
was if and only if it assigns nothing new before it can fail. -/
theorem reconfigure_asBefore (e : Engine σ) (op : Reconfiguration) (r : Raised σ)
    (h : e.reconfigure op = .error r) : e.AsBefore r.engine ↔ e.AssignsLate op := by
  cases op with
  | setupTopology topologyName =>
      have hr := setupTopology_raised h
      cases topologyName with
      | some name =>
          rw [hr]
          exact iff_of_true ⟨rfl, rfl, rfl, rfl, rfl, rfl, rfl, rfl⟩ trivial
      | none =>
          rw [hr]
          constructor
          · exact fun hu => ⟨hu.source.symm, hu.destination.symm⟩
          · exact fun hd => ⟨hd.1.symm, hd.2.symm, rfl, rfl, rfl, rfl, rfl, rfl⟩
  | toggleSdn =>
      rw [toggleSdn_raised h]
      refine iff_of_false (fun hu => ?_) id
      exact absurd hu.useSdn (by simp)
  | cycleTopology =>
      rw [cycleTopology_raised h]
      exact iff_of_true ⟨rfl, rfl, rfl, rfl, rfl, rfl, rfl, rfl⟩ trivial

/-! ### A disconnected graph -/

/-- What `create_graph` makes of three nodes and one link. -/
def apart : GraphManager := GraphManager.init.createGraph 3 [(0, 1, some 100)]

theorem buildForwardingTables_apart :
    apart.buildForwardingTables = .error (GraphManager.noRoute 0 2) := by
  have h : (apart.buildForwardingTables.map fun _ => ()) = .error (GraphManager.noRoute 0 2) := by
    decide +kernel
  cases hb : apart.buildForwardingTables with
  | error err => rw [hb] at h; exact congrArg _ (Except.error.inj h)
  | ok tables => rw [hb] at h; cases h

/-- An engine set up on the first preset, whose manager then creates that graph. -/
def onApart : Engine Steady := { Steady.engine "Campus Backbone" .udp with graphManager := apart }

theorem setupTopology_onApart : onApart.setupTopology = .error ⟨GraphManager.noRoute 0 2,
    { onApart with source := apart.defaultSource, destination := apart.defaultDestination }⟩ := by
  have hname : ¬ onApart.graphManager.currentTopologyName = "" := by decide
  simp only [setupTopology, if_neg hname]
  simp [leaving, rebuildRouters, onApart, buildForwardingTables_apart, bind, Except.bind,
    Except.mapError]

theorem toggleSdn_onApart : onApart.toggleSdn = .error ⟨GraphManager.noRoute 0 2,
    { onApart with useSdn := !onApart.useSdn }⟩ := by
  simp only [toggleSdn]
  simp [leaving, rebuildRouters, onApart, buildForwardingTables_apart, bind, Except.bind,
    Except.mapError]

theorem reconfigure_asBefore_onApart :
    AsBefore onApart { onApart with
      source := apart.defaultSource, destination := apart.defaultDestination } ↔
        onApart.AssignsLate (.setupTopology none) :=
  reconfigure_asBefore onApart (.setupTopology none) _ setupTopology_onApart

/-- **A failing reconfiguration that changes the engine.**  On the disconnected graph
`setup_topology()` raises with another destination in place, and `toggle_sdn` with SDN on and no
router rebuilt. -/
theorem reconfigure_leaves :
    (∃ r, onApart.reconfigure (.setupTopology none) = .error r ∧
      onApart.destination = 5 ∧ r.engine.destination = 2 ∧ ¬ onApart.AsBefore r.engine) ∧
    (∃ r, onApart.reconfigure .toggleSdn = .error r ∧
      onApart.useSdn = false ∧ r.engine.useSdn = true ∧ ¬ onApart.AsBefore r.engine) := by
  have hdst : onApart.destination = 5 := by decide +kernel
  have hdst' : apart.defaultDestination = 2 := by decide +kernel
  have hsdn : onApart.useSdn = false := by decide +kernel
  have hflip := toggleSdn_flips toggleSdn_onApart hsdn
  refine ⟨⟨_, setupTopology_onApart, hdst, hdst', fun hu => ?_⟩,
    ⟨_, toggleSdn_onApart, hsdn, hflip, fun hu => ?_⟩⟩
  · have := hu.destination.symm.trans hdst'
    rw [hdst] at this
    cases this
  · exact Bool.false_ne_true ((hu.useSdn.trans hsdn).symm.trans hflip)

end Engine

end PacketSim
