import PacketSim.Engine.Recast
import PacketSim.Engine.Reconfiguration

/-!
# Engine — Independence

Runs do not depend on what the engine did before.  `start_run` overwrites every field but the
configuration and the generator (`begun_eq`), and the routers' tables and rules, which it keeps,
are a function of the graph, its name and `use_sdn` in every state that `setup_topology` leads to
(`Reachable.wired`).

* `Reachable`: the states after `setup_topology` and any operations, also some that raise.
* `run_independent`: runs of two such engines with the same configuration go alike.
-/

namespace PacketSim
open Lib

/-- The manager forgets its default endpoints. -/
def Recast.withoutDefaults : Recast :=
  ⟨fun m => { m with defaultSource := 0, defaultDestination := 0 }, id, id, fun _ => rfl⟩

namespace Engine

variable {σ : Type}

/-- The engine a run of the setting begins with. -/
def atStart (s : Setting) (random : σ) : Engine σ where
  graphManager := s.graphManager
  random
  conditions := s.conditions
  mode := s.mode
  packetGoal := s.packetGoal
  trafficPort := s.trafficPort
  useSdn := s.useSdn
  running := true
  source := s.source
  destination := s.destination
  sessionId := s.sessionId
  routers := s.routers
  stats := { startTimeMs := some 0 }

/-- `reset_run_state` overwrites everything but the setting and the generator. -/
theorem begun_eq (e : Engine σ) : e.begun = atStart e.setting e.random := rfl

theorem startRun_congr {e e' : Engine σ} (h : e.begun = e'.begun) : e.startRun = e'.startRun := by
  have hmode : e.begun.mode = e'.begun.mode := by rw [h]
  have hgoal : e.begun.packetGoal = e'.begun.packetGoal := by rw [h]
  replace hmode : e.mode = e'.mode := hmode
  replace hgoal : e.packetGoal = e'.packetGoal := hgoal
  cases hm : e'.mode with
  | udp => rw [startRun_of_udp (hmode.trans hm), startRun_of_udp hm, h, hgoal]
  | tcp => rw [startRun_of_tcp (hmode.trans hm), startRun_of_tcp hm, h]

/-! ### Reachable states -/

section Reachable
variable [RandomSource σ]

/-- The states that `setup_topology` and operations after it lead to, from an engine as `__init__`
leaves its session id.  What is left of the run by an update that raises is not said. -/
inductive Reachable : Engine σ → Prop where
  | setup {e₀ e : Engine σ} {topologyName : Option String} (hid : e₀.sessionId = 1)
      (h : e₀.setupTopology topologyName = .ok e) : Reachable e
  | perform {e e' : Engine σ} {op : Operation} (hr : Reachable e) (h : e.perform op = .ok e') :
      Reachable e'
  | reconfigure {e e' : Engine σ} {op : Reconfiguration} (hr : Reachable e)
      (h : e.reconfigure op = .ok e') : Reachable e'
  | refused {e : Engine σ} {op : Reconfiguration} {r : Raised σ} (hr : Reachable e)
      (h : e.reconfigure op = .error r) : Reachable r.engine
  | broken {e e' : Engine σ} {dt : ℚ} {error : PyError} (hr : Reachable e)
      (h : e.update dt = .error error) (hset : e'.setting = e.setting) : Reachable e'

end Reachable

/-- A reconfiguration wires the routers, and keeps the session. -/
theorem reconfigure_wired {e e' : Engine σ} {op : Reconfiguration}
    (h : e.reconfigure op = .ok e') : e'.setting.Wired ∧ e'.sessionId = e.sessionId := by
  have hrebuilt : ∀ {e₁ e₂ : Engine σ}, e₁.rebuildRouters = .ok e₂ →
      e₂.resetRunState.setting.Wired ∧ e₂.resetRunState.sessionId = e₁.sessionId := by
    intro e₁ e₂ h₂
    refine ⟨by rw [resetRunState_setting]; exact rebuildRouters_wired h₂, ?_⟩
    obtain ⟨tables, -, rfl⟩ := rebuildRouters_eq_ok.mp h₂
    rfl
  cases op with
  | setupTopology topologyName =>
      simp only [reconfigure, setupTopology, bind_eq_ok, leaving_eq_ok] at h
      obtain ⟨m, -, e₁, h₁, h⟩ := h
      cases h
      obtain ⟨hw, hid⟩ := hrebuilt h₁
      exact ⟨hw, hid⟩
  | toggleSdn =>
      simp only [reconfigure, toggleSdn, bind_eq_ok, leaving_eq_ok] at h
      obtain ⟨e₁, h₁, h⟩ := h
      cases h
      obtain ⟨hw, hid⟩ := hrebuilt h₁
      exact ⟨hw, hid⟩
  | cycleTopology =>
      simp only [reconfigure, cycleTopology, bind_eq_ok, leaving_eq_ok] at h
      obtain ⟨m, -, e₁, h₁, h⟩ := h
      cases h
      obtain ⟨hw, hid⟩ := hrebuilt h₁
      exact ⟨hw, hid⟩

/-- A reconfiguration that raises leaves wired routers wired: the tables of the graph they were made
from can be built again. -/
theorem reconfigure_refused {e : Engine σ} {op : Reconfiguration} {r : Raised σ}
    (hw : e.setting.Wired) (h : e.reconfigure op = .error r) :
    r.engine.setting.Wired ∧ r.engine.sessionId = e.sessionId := by
  cases op with
  | setupTopology topologyName =>
      rw [setupTopology_raised h]
      cases topologyName with
      | some name => exact ⟨hw, rfl⟩
      | none => exact ⟨Wired.of_eq hw rfl rfl rfl, rfl⟩
  | toggleSdn =>
      -- the tables do not depend on the switch, so here nothing raises
      obtain ⟨tables, htables, -⟩ := hw
      have h₁ : rebuildRouters { e with useSdn := !e.useSdn } = .ok _ :=
        rebuildRouters_eq_ok.mpr ⟨tables, htables, rfl⟩
      simp only [reconfigure, toggleSdn, h₁] at h
      cases h
  | cycleTopology =>
      rw [cycleTopology_raised h]
      exact ⟨hw, rfl⟩

theorem perform_wired [RandomSource σ] {e e' : Engine σ} {op : Operation} (hw : e.setting.Wired)
    (h : e.perform op = .ok e') : e'.setting.Wired ∧ e'.sessionId = e.sessionId := by
  by_cases hcycle : op = .cycleTopology
  · subst hcycle
    exact reconfigure_wired
      (show e.reconfigure .cycleTopology = .ok e' from mapError_eq_ok.mp h)
  · by_cases hsdn : op = .toggleSdn
    · subst hsdn
      exact reconfigure_wired (show e.reconfigure .toggleSdn = .ok e' from mapError_eq_ok.mp h)
    · refine ⟨(perform_keeps hcycle hsdn h).wired hw, ?_⟩
      cases op with
      | startRun => exact congrArg (fun n : Net => n.setting.sessionId) (startRun_toNet h)
      | update dt => exact congrArg Setting.sessionId (update_setting h)
      | cycleTopology => exact absurd rfl hcycle
      | toggleSdn => exact absurd rfl hsdn
      | _ => cases h; rfl

theorem Reachable.wired [RandomSource σ] {e : Engine σ} (h : e.Reachable) :
    e.setting.Wired ∧ e.sessionId = 1 := by
  induction h with
  | @setup e₀ e topologyName hid h =>
      obtain ⟨hw, hid'⟩ := reconfigure_wired
        (show e₀.reconfigure (.setupTopology topologyName) = .ok e from h)
      exact ⟨hw, hid'.trans hid⟩
  | perform _ h ih =>
      obtain ⟨hw, hid⟩ := perform_wired ih.1 h
      exact ⟨hw, hid.trans ih.2⟩
  | reconfigure _ h ih =>
      obtain ⟨hw, hid⟩ := reconfigure_wired h
      exact ⟨hw, hid.trans ih.2⟩
  | refused _ h ih =>
      obtain ⟨hw, hid⟩ := reconfigure_refused ih.1 h
      exact ⟨hw, hid.trans ih.2⟩
  | broken _ _ hset ih => exact ⟨hset ▸ ih.1, (congrArg Setting.sessionId hset).trans ih.2⟩

/-! ### Two runs -/

/-- The configurations and the generators are the same. -/
structure Agree (e₁ e₂ : Engine σ) : Prop where
  graph : e₁.graphManager.graph = e₂.graphManager.graph
  topologyName :
    e₁.graphManager.currentTopologyName = e₂.graphManager.currentTopologyName
  source : e₁.source = e₂.source
  destination : e₁.destination = e₂.destination
  mode : e₁.mode = e₂.mode
  packetGoal : e₁.packetGoal = e₂.packetGoal
  trafficPort : e₁.trafficPort = e₂.trafficPort
  useSdn : e₁.useSdn = e₂.useSdn
  conditions : e₁.conditions = e₂.conditions
  random : e₁.random = e₂.random

/-- The routers are a function of the graph, its name and `use_sdn`. -/
theorem Agree.routers {e₁ e₂ : Engine σ} (h : e₁.Agree e₂) (h₁ : e₁.setting.Wired)
    (h₂ : e₂.setting.Wired) : e₁.setting.routers = e₂.setting.routers := by
  obtain ⟨tables₁, htables₁, hrouters₁⟩ := h₁
  obtain ⟨tables₂, htables₂, hrouters₂⟩ := h₂
  have htables : tables₁ = tables₂ := by
    have := GraphManager.buildForwardingTables_congr h.graph
    rw [show e₁.graphManager.buildForwardingTables = .ok tables₁ from htables₁,
      show e₂.graphManager.buildForwardingTables = .ok tables₂ from htables₂] at this
    exact Except.ok.inj this
  rw [hrouters₁, hrouters₂, htables, routersFrom, routersFrom,
    show e₁.setting.useSdn = e₂.setting.useSdn from h.useSdn,
    show e₁.setting.graphManager.currentTopologyName = e₂.setting.graphManager.currentTopologyName
      from h.topologyName]

/-- The engine but for the default endpoints of its graph manager, which no run reads. -/
def withoutDefaults (e : Engine σ) : Engine σ :=
  { e with
    graphManager := { e.graphManager with defaultSource := 0, defaultDestination := 0 } }

theorem withoutDefaults_eq (e : Engine σ) : e.withoutDefaults = e.recast .withoutDefaults :=
  congrArg (fun routers => { e.withoutDefaults with routers }) (Dict.map_id e.routers).symm

theorem Agree.begun {e₁ e₂ : Engine σ} (h : e₁.Agree e₂) (h₁ : e₁.setting.Wired)
    (h₂ : e₂.setting.Wired) (hid : e₁.sessionId = e₂.sessionId) :
    e₁.withoutDefaults.begun = e₂.withoutDefaults.begun := by
  have hrouters := h.routers h₁ h₂
  have hset : e₁.withoutDefaults.setting = e₂.withoutDefaults.setting := by
    simp only [setting, withoutDefaults] at hrouters ⊢
    rw [h.graph, h.topologyName, hrouters, h.conditions, h.mode, h.packetGoal, h.trafficPort,
      h.useSdn, h.source, h.destination, hid]
  rw [begun_eq, begun_eq, hset, show e₁.withoutDefaults.random = e₂.withoutDefaults.random from
    h.random]

/-- **Runs are independent of history.**  Two engines that `setup_topology` and any operations led
to, with the same graph and topology name, endpoints, mode, goal, port, SDN switch, conditions and
generator, are equal in all fields after `start_run` and the same updates; only what the graph
managers hold as default endpoints may differ.  If one raises, the other raises the same. -/
theorem run_independent [RandomSource σ] {e₁ e₂ : Engine σ} (h₁ : e₁.Reachable)
    (h₂ : e₂.Reachable) (h : e₁.Agree e₂) (dts : List ℚ) :
    (e₁.ticks dts).map withoutDefaults = (e₂.ticks dts).map withoutDefaults := by
  have hrun : ∀ e : Engine σ, (e.ticks dts).map withoutDefaults = e.withoutDefaults.ticks dts := by
    intro e
    rw [funext withoutDefaults_eq]
    exact (ticks_recast (fun _ _ _ _ _ => rfl) dts).symm
  obtain ⟨hw₁, hid₁⟩ := h₁.wired
  obtain ⟨hw₂, hid₂⟩ := h₂.wired
  rw [hrun, hrun, ticks, ticks, startRun_congr (h.begun hw₁ hw₂ (hid₁.trans hid₂.symm))]

/-- In the middle of a run. -/
theorem Reachable.run [RandomSource σ] {e₀ e : Engine σ} (h₀ : e₀.Reachable) (h : Run e₀ e) :
    e.Reachable := by
  induction h with
  | @start e h => exact .perform h₀ (show e₀.perform .startRun = .ok e from h)
  | @update e e' dt _ _ h ih => exact .perform ih (show e.perform (.update dt) = .ok e' from h)

theorem Agree.of_setting {e₁ e₂ : Engine σ} (h : e₁.setting = e₂.setting)
    (hrandom : e₁.random = e₂.random) : e₁.Agree e₂ where
  graph := congrArg (fun s : Setting => s.graphManager.graph) h
  topologyName := congrArg (fun s : Setting => s.graphManager.currentTopologyName) h
  source := congrArg Setting.source h
  destination := congrArg Setting.destination h
  mode := congrArg Setting.mode h
  packetGoal := congrArg Setting.packetGoal h
  trafficPort := congrArg Setting.trafficPort h
  useSdn := congrArg Setting.useSdn h
  conditions := congrArg Setting.conditions h
  random := hrandom

/-- A run of the ring that is broken off, with a packet on its way and a timer pending, and begun
again. -/
theorem run_independent_ring : ∃ e,
    (Steady.engine "Redundant Ring" .tcp).ticks [0, 100] = .ok e ∧
      (e.packets ≠ [] ∧ e.events.items ≠ []) ∧
      (e.ticks [0, 500]).map withoutDefaults =
        ((Steady.engine "Redundant Ring" .tcp).ticks [0, 500]).map withoutDefaults := by
  obtain ⟨e, he, hcheck⟩ := exists_ok_and
    (x := (Steady.engine "Redundant Ring" .tcp).ticks [0, 100])
    (f := fun e => e.packets ≠ [] ∧ e.events.items ≠ []) (by decide +kernel)
  have hreach : (Steady.engine "Redundant Ring" .tcp).Reachable :=
    .setup (show (Steady.fresh .tcp).sessionId = 1 from rfl) (Steady.setup_eq (by decide +kernel))
  have hrun := Run.of_ticks (by simp) he
  have hrandom : ∀ a b : Steady, a = b := fun _ _ => rfl
  exact ⟨e, he, of_decide_eq_true hcheck,
    run_independent (hreach.run hrun) hreach (.of_setting hrun.setting_eq (hrandom _ _)) _⟩

end Engine

end PacketSim
