import PacketSim.Engine.Control
import PacketSim.Engine.Refinement
import PacketSim.Graph.Presets

/-!
# Engine — Configuration

What a session keeps of the engine's configuration.  The routers are always those that
`_rebuild_routers` makes from the current graph (`Setting.Wired`), whatever the operations; the
endpoints are those of the preset `setup_topology` was given, also after `cycle_topology` has
loaded another one (`session_loaded`).  So the configuration matches the topology exactly while the
two presets have the same endpoints (`session_configured`).
-/

namespace PacketSim
open Lib

/-- The router that the rebuild puts at `id`. -/
def routerAt (useSdn : Bool) (firewallRouter : Option Int) (id : Int) (table : Dict Int Int) :
    Router where
  routerId := id
  forwardingTable := table
  processingDelayMs := processingDelayMs
  rules := if useSdn = true ∧ firewallRouter = some id then some (firewallRules 80) else none

/-- The firewall's rule drops what it matches. -/
theorem applyRules_routerAt {useSdn : Bool} {firewallRouter : Option Int} {id : Int}
    {table : Dict Int Int} {p : Packet} {a : Action}
    (h : (routerAt useSdn firewallRouter id table).applyRules p = some a) : a = ⟨.drop, none⟩ := by
  unfold Router.applyRules routerAt at h
  dsimp only at h
  split at h
  · simp only [firewallRules, Option.bind_some, List.find?_cons, List.find?_nil] at h
    split at h
    · cases h
      rfl
    · cases h
  · cases h

/-- The routers that the rebuild makes from the tables. -/
def routersFrom (useSdn : Bool) (m : GraphManager) (tables : Dict Int (Dict Int Int)) :
    Dict Int Router :=
  tables.map (routerAt useSdn (firewallNodes.get? m.currentTopologyName))

/-- The routers are those that `_rebuild_routers` makes. -/
def Setting.Wired (s : Setting) : Prop :=
  ∃ tables, s.graphManager.buildForwardingTables = .ok tables ∧
    s.routers = routersFrom s.useSdn s.graphManager tables

namespace Engine

variable {σ : Type}

theorem rebuildRouters_eq_ok {e e' : Engine σ} :
    e.rebuildRouters = .ok e' ↔ ∃ tables, e.graphManager.buildForwardingTables = .ok tables ∧
      { e with routers := routersFrom e.useSdn e.graphManager tables } = e' := by
  have hrouters : ∀ tables, routersFrom e.useSdn e.graphManager tables = if e.useSdn then
      buildDemoSdnRouters tables (firewallNodes.get? e.graphManager.currentTopologyName)
        processingDelayMs
      else buildRouters tables processingDelayMs := by
    intro tables
    split
    · rename_i hsdn
      refine Dict.map_congr fun p _ => ?_
      by_cases hp : firewallNodes.get? e.graphManager.currentTopologyName = some p.1
      · rw [if_pos hp.symm, routerAt, if_pos ⟨hsdn, hp⟩]
      · rw [if_neg (Ne.symm hp), routerAt, if_neg fun h => hp h.2]
    · rename_i hsdn
      refine Dict.map_congr fun p _ => ?_
      rw [routerAt, if_neg fun h => hsdn h.1]
  rw [rebuildRouters, bind_eq_ok]
  refine exists_congr fun tables => and_congr_right fun _ => ?_
  rw [hrouters tables]
  dsimp only
  split <;> simp [pure, Except.pure]

/-- The rebuild returns where the tables can be built. -/
theorem rebuildRouters_total {e : Engine σ}
    (h : ∃ tables, e.graphManager.buildForwardingTables = .ok tables) :
    ∃ e', e.rebuildRouters = .ok e' := by
  obtain ⟨tables, htables⟩ := h
  exact ⟨_, rebuildRouters_eq_ok.mpr ⟨tables, htables, rfl⟩⟩

theorem rebuildRouters_wired {e e' : Engine σ} (h : e.rebuildRouters = .ok e') :
    e'.setting.Wired := by
  obtain ⟨tables, htables, rfl⟩ := rebuildRouters_eq_ok.mp h
  refine ⟨tables, htables, ?_⟩
  show Dict.map (fun _ r => r.wiring) (routersFrom _ _ tables) = _
  rw [routersFrom, Dict.map_map]
  rfl

/-! ### What each operation keeps -/

theorem resetRunState_setting (e : Engine σ) : e.resetRunState.setting = e.setting :=
  congrArg Net.setting (resetRunState_toNet e)

theorem resetRunState_keepMode (e : Engine σ) (keepMode : Bool) : e.resetRunState keepMode =
    resetRunState { e with mode := if keepMode then e.mode else .udp } :=
  rfl

/-- Wiring does not depend on the mode, the conditions or the traffic. -/
theorem Wired.of_eq {s s' : Setting} (h : s.Wired) (hm : s'.graphManager = s.graphManager)
    (hr : s'.routers = s.routers) (hs : s'.useSdn = s.useSdn) : s'.Wired := by
  obtain ⟨tables, htables, hrouters⟩ := h
  exact ⟨tables, hm ▸ htables, by rw [hr, hrouters, hm, hs]⟩

/-- The manager, the endpoints and the wiring are the same. -/
structure Keeps (e e' : Engine σ) : Prop where
  graphManager : e'.graphManager = e.graphManager
  source : e'.source = e.source
  destination : e'.destination = e.destination
  wired : e.setting.Wired → e'.setting.Wired

theorem Keeps.of_setting {e e' : Engine σ} (h : e'.setting = e.setting) : e.Keeps e' where
  graphManager := congrArg Setting.graphManager h
  source := congrArg Setting.source h
  destination := congrArg Setting.destination h
  wired hw := h ▸ hw

theorem Keeps.of_reset {e e' : Engine σ} (hm : e'.graphManager = e.graphManager)
    (hr : e'.routers = e.routers) (hs : e'.useSdn = e.useSdn) (hsrc : e'.source = e.source)
    (hdst : e'.destination = e.destination) : e.Keeps e'.resetRunState where
  graphManager := hm
  source := hsrc
  destination := hdst
  wired hw := by
    rw [resetRunState_setting]
    have hwiring : e'.setting.routers = e.setting.routers :=
      congrArg (Dict.map fun _ => Router.wiring) hr
    exact Wired.of_eq hw hm hwiring hs

theorem update_setting [Clock] [RandomSource σ] {e e' : Engine σ} {dt : ℚ}
    (h : e.update dt = .ok e') : e'.setting = e.setting := by
  cases hrun : e.running with
  | false =>
      rw [update_idle dt hrun] at h
      cases h
      rfl
  | true =>
      obtain ⟨e₁, hs, rfl⟩ := update_steps hrun h
      have hset : e₁.setting = e.setting := hs.frame.1
      rcases checkFinished_cases e₁ with hc | ⟨-, hc⟩
      · rw [hc, hset]
      · exact (congrArg Net.setting hc).trans hset

/-- Every operation but the two that rebuild keeps the configuration. -/
theorem perform_keeps [Clock] [RandomSource σ] {e e' : Engine σ} {op : Operation}
    (hcycle : op ≠ .cycleTopology) (hsdn : op ≠ .toggleSdn) (h : e.perform op = .ok e') :
    e.Keeps e' := by
  cases op with
  | startRun => exact .of_setting (congrArg Net.setting (startRun_toNet h))
  | update dt => exact .of_setting (update_setting h)
  | cycleTopology => exact absurd rfl hcycle
  | toggleSdn => exact absurd rfl hsdn
  | setMode mode => cases h; exact .of_reset rfl rfl rfl rfl rfl
  | toggleMode => cases h; exact .of_reset rfl rfl rfl rfl rfl
  | toggleChaos => cases h; exact .of_reset rfl rfl rfl rfl rfl
  | toggleDuplicates => cases h; exact .of_reset rfl rfl rfl rfl rfl
  | toggleTrafficProfile => cases h; exact .of_reset rfl rfl rfl rfl rfl
  | adjustLossRate delta => cases h; exact .of_reset rfl rfl rfl rfl rfl
  | adjustDelayMultiplier delta => cases h; exact .of_reset rfl rfl rfl rfl rfl
  | resetRunState keepMode =>
      cases h
      rw [resetRunState_keepMode]
      exact .of_reset rfl rfl rfl rfl rfl

/-- The preset that is loaded, with routers made from it. -/
structure Loaded (e : Engine σ) (name : String) : Prop where
  preset : ∃ spec, topologyPresets.get? name = some spec ∧
    e.graphManager = .preset spec
  wired : e.setting.Wired

/-- `leaving` only adds to the exception. -/
theorem leaving_eq_ok {α : Type} {e : Engine σ} {x : Except PyError α} {a : α} :
    e.leaving x = .ok a ↔ x = .ok a := by
  cases x <;> simp [leaving, Except.mapError]

theorem mapError_eq_ok {ε ε' α : Type} {f : ε → ε'} {x : Except ε α} {a : α} :
    x.mapError f = .ok a ↔ x = .ok a := by
  cases x <;> simp [Except.mapError]

theorem setupTopology_preset {e e' : Engine σ} {name : String}
    (h : e.setupTopology (some name) = .ok e') : e'.Loaded name ∧
      e'.source = e'.graphManager.defaultSource ∧
      e'.destination = e'.graphManager.defaultDestination := by
  simp only [setupTopology, bind_eq_ok, leaving_eq_ok] at h
  obtain ⟨m, hm, e₁, h₁, h⟩ := h
  cases h
  obtain ⟨spec, hspec, rfl⟩ := GraphManager.loadTopology_eq_ok.mp hm
  obtain ⟨tables, htables, rfl⟩ := rebuildRouters_eq_ok.mp h₁
  refine ⟨⟨⟨spec, hspec, rfl⟩, ?_⟩, rfl, rfl⟩
  rw [resetRunState_setting]
  exact rebuildRouters_wired h₁

theorem toggleSdn_keeps {e e' : Engine σ} (h : e.toggleSdn = .ok e') : e.Keeps e' := by
  simp only [toggleSdn, bind_eq_ok, leaving_eq_ok] at h
  obtain ⟨e₁, h₁, h⟩ := h
  cases h
  have hw := rebuildRouters_wired h₁
  obtain ⟨tables, -, rfl⟩ := rebuildRouters_eq_ok.mp h₁
  exact ⟨rfl, rfl, rfl, fun _ => by rw [resetRunState_setting]; exact hw⟩

theorem cycleTopology_loaded {e e' : Engine σ} {name : String} (hl : e.Loaded name)
    (h : e.cycleTopology = .ok e') : e'.Loaded (GraphManager.nextPreset name) ∧
      e'.source = e.source ∧ e'.destination = e.destination := by
  simp only [cycleTopology, bind_eq_ok, leaving_eq_ok] at h
  obtain ⟨m, hm, e₁, h₁, h⟩ := h
  cases h
  obtain ⟨spec, hspec, hpreset⟩ := hl.preset
  obtain ⟨spec', hspec', hcycle⟩ := GraphManager.cycleTopology_preset hspec
  rw [hpreset, hcycle] at hm
  cases hm
  have hw := rebuildRouters_wired h₁
  obtain ⟨tables, -, rfl⟩ := rebuildRouters_eq_ok.mp h₁
  exact ⟨⟨⟨spec', hspec', rfl⟩, by rw [resetRunState_setting]; exact hw⟩, rfl, rfl⟩

/-- What one operation does to the configuration. -/
theorem perform_loaded [Clock] [RandomSource σ] {e e' : Engine σ} {op : Operation} {name : String}
    (hl : e.Loaded name) (h : e.perform op = .ok e') :
    e'.Loaded (if op = .cycleTopology then GraphManager.nextPreset name else name) ∧
      e'.source = e.source ∧ e'.destination = e.destination := by
  by_cases hcycle : op = .cycleTopology
  · subst hcycle
    exact cycleTopology_loaded hl (mapError_eq_ok.mp h)
  · rw [if_neg hcycle]
    have hkeeps : e.Keeps e' := by
      by_cases hsdn : op = .toggleSdn
      · subst hsdn
        exact toggleSdn_keeps (mapError_eq_ok.mp h)
      · exact perform_keeps hcycle hsdn h
    obtain ⟨spec, hspec, hpreset⟩ := hl.preset
    exact ⟨⟨⟨spec, hspec, hkeeps.graphManager.trans hpreset⟩, hkeeps.wired hl.wired⟩,
      hkeeps.source, hkeeps.destination⟩

/-- What a session does to the configuration: each `cycle_topology` loads the next preset, and
nothing changes the endpoints. -/
theorem session_loaded [Clock] [RandomSource σ] {ops : List Operation} :
    ∀ {e e' : Engine σ} {name : String}, e.Loaded name → e.session ops = .ok e' →
        e'.Loaded (GraphManager.nextPreset^[ops.count .cycleTopology] name) ∧
          e'.source = e.source ∧ e'.destination = e.destination := by
  induction ops with
  | nil =>
      intro e e' name hl h
      cases h
      exact ⟨hl, rfl, rfl⟩
  | cons op ops ih =>
      intro e e' name hl h
      rw [session, List.foldlM_cons, bind_eq_ok] at h
      obtain ⟨e₁, h₁, h⟩ := h
      obtain ⟨hl₁, hs₁, hd₁⟩ := perform_loaded hl h₁
      obtain ⟨hl', hs', hd'⟩ := ih hl₁ h
      refine ⟨?_, hs'.trans hs₁, hd'.trans hd₁⟩
      by_cases hcycle : op = .cycleTopology
      · subst hcycle
        rwa [List.count_cons_self, Function.iterate_succ_apply]
      · rw [if_neg hcycle] at hl'
        rwa [List.count_cons_of_ne hcycle]

/-- A session that does not cycle the topology keeps the preset and its endpoints. -/
theorem session_preset [Clock] [RandomSource σ] {e₀ e₁ e : Engine σ} {name : String}
    {ops : List Operation}
    (hsetup : e₀.setupTopology (some name) = .ok e₁) (hcycle : .cycleTopology ∉ ops)
    (h : e₁.session ops = .ok e) : e.Loaded name ∧ e.source = e.graphManager.defaultSource ∧
      e.destination = e.graphManager.defaultDestination := by
  obtain ⟨hl, hs, hd⟩ := setupTopology_preset hsetup
  obtain ⟨hl', hs', hd'⟩ := session_loaded hl h
  rw [List.count_eq_zero_of_not_mem hcycle, Function.iterate_zero_apply] at hl'
  obtain ⟨spec, hspec, hpreset⟩ := hl.preset
  obtain ⟨spec', hspec', hpreset'⟩ := hl'.preset
  obtain rfl : spec' = spec := Option.some.inj (hspec'.symm.trans hspec)
  exact ⟨hl', by rw [hs', hs, hpreset, hpreset'], by rw [hd', hd, hpreset, hpreset']⟩

/-! ### Does the configuration match? -/

/-- The endpoints and the routers are those of the topology that is loaded. -/
structure Configured (e : Engine σ) : Prop where
  source : e.source = e.graphManager.defaultSource
  destination : e.destination = e.graphManager.defaultDestination
  nodes : e.routers.keys = e.graphManager.graph.nodes
  routers : ∃ tables, e.graphManager.buildForwardingTables = .ok tables ∧
    ∀ id r, e.routers.get? id = some r → r.routerId = id ∧
      tables.get? id = some r.forwardingTable ∧
      (r.isSDN = true ↔ e.useSdn = true ∧
        firewallNodes.get? e.graphManager.currentTopologyName = some id)

/-- The routers of a loaded preset match it; only the endpoints may not. -/
theorem Loaded.configured_iff {e : Engine σ} {name : String} (h : e.Loaded name) :
    e.Configured ↔ e.source = e.graphManager.defaultSource ∧
      e.destination = e.graphManager.defaultDestination := by
  refine ⟨fun hc => ⟨hc.source, hc.destination⟩, fun ⟨hs, hd⟩ => ?_⟩
  obtain ⟨spec, hspec, hpreset⟩ := h.preset
  obtain ⟨tables, htables, hrouters⟩ := h.wired
  have hgood : e.graphManager.Good := hpreset ▸ GraphManager.preset_good hspec
  have hkeys : tables.keys = e.graphManager.graph.nodes := hgood.keys htables
  have hwiring : e.routers.map (fun _ r => r.wiring) = routersFrom e.useSdn e.graphManager tables :=
    hrouters
  refine ⟨hs, hd, ?_, tables, htables, fun id r hr => ?_⟩
  · have := congrArg Dict.keys hwiring
    rwa [Dict.keys_map, routersFrom, Dict.keys_map, hkeys] at this
  · have hget := congrArg (fun d : Dict Int Router => d.get? id) hwiring
    simp only [Dict.get?_map, routersFrom, hr, Option.map_some] at hget
    obtain ⟨table, htable, hr'⟩ := Option.map_eq_some_iff.mp hget.symm
    have hid : r.routerId = id := congrArg Router.routerId hr'.symm
    have hft : r.forwardingTable = table := congrArg Router.forwardingTable hr'.symm
    have hrules : r.rules = (routerAt e.useSdn
        (firewallNodes.get? e.graphManager.currentTopologyName) id table).rules :=
      (congrArg Router.rules hr').symm
    refine ⟨hid, hft ▸ htable, ?_⟩
    rw [Router.isSDN, hrules, routerAt]
    dsimp only
    split <;> simp_all

/-- The endpoints of a preset. -/
def endpoints (name : String) : Option (Int × Int) :=
  (topologyPresets.get? name).map fun spec => (spec.defaultSource, spec.defaultDestination)

/-- Three cycles lead back, and of the three presets the first two have the same endpoints. -/
theorem endpoints_cycled {name : String} (h : name ∈ GraphManager.getTopologyNames) (k : ℕ) :
    endpoints name = endpoints (GraphManager.nextPreset^[k] name) ↔
      k % 3 = 0 ∨ name = "Campus Backbone" ∧ k % 3 = 1 ∨ name = "Bottleneck Path" ∧ k % 3 = 2 := by
  have hcases : ∀ name ∈ GraphManager.getTopologyNames, GraphManager.nextPreset^[3] name = name ∧
      ∀ j < 3, endpoints name = endpoints (GraphManager.nextPreset^[j] name) ↔
        j = 0 ∨ name = "Campus Backbone" ∧ j = 1 ∨ name = "Bottleneck Path" ∧ j = 2 := by
    decide +kernel
  obtain ⟨hcycle, hj⟩ := hcases name h
  rw [← hj (k % 3) (Nat.mod_lt _ (by norm_num))]
  exact iff_of_eq (congrArg (endpoints name = endpoints ·)
    (Function.IsPeriodicPt.iterate_mod_apply hcycle k).symm)

/-- **When the configuration matches.**  After `setup_topology` on a preset and any session: exactly
when the `cycle_topology` calls so far have led to a preset with the same endpoints. -/
theorem session_configured [Clock] [RandomSource σ] {e₀ e₁ e : Engine σ} {name : String}
    {ops : List Operation} (hsetup : e₀.setupTopology (some name) = .ok e₁)
    (h : e₁.session ops = .ok e) :
    e.Configured ↔ ops.count .cycleTopology % 3 = 0 ∨
      name = "Campus Backbone" ∧ ops.count .cycleTopology % 3 = 1 ∨
      name = "Bottleneck Path" ∧ ops.count .cycleTopology % 3 = 2 := by
  obtain ⟨hl, hs, hd⟩ := setupTopology_preset hsetup
  obtain ⟨hl', hs', hd'⟩ := session_loaded hl h
  obtain ⟨spec, hspec, hpreset⟩ := hl.preset
  obtain ⟨spec', hspec', hpreset'⟩ := hl'.preset
  rw [hl'.configured_iff, hs', hd', hs, hd, hpreset, hpreset',
    ← endpoints_cycled (Dict.mem_keys_of_get? hspec), endpoints, endpoints, hspec, hspec']
  simp [GraphManager.preset, GraphManager.loadSpec]

theorem session_configured_campus : ∃ e,
    (Steady.engine "Campus Backbone" .tcp).session
        [.cycleTopology, .startRun, .update 300, .toggleSdn] = .ok e ∧ e.Configured := by
  obtain ⟨e, he⟩ := exists_ok (x := (Steady.engine "Campus Backbone" .tcp).session
    [.cycleTopology, .startRun, .update 300, .toggleSdn]) (by decide +kernel)
  refine ⟨e, he, (session_configured (Steady.setup_eq ?_) he).mpr ?_⟩
  · decide +kernel
  · decide

/-- After two `cycle_topology` calls the ring is loaded, but the run is still from 0 to 5. -/
theorem campus_cycled_twice : ∃ e, (Steady.engine "Campus Backbone" .udp).session
    [.cycleTopology, .cycleTopology] = .ok e ∧ ¬ e.Configured := by
  obtain ⟨e, he, hcheck⟩ := exists_ok_and (x := (Steady.engine "Campus Backbone" .udp).session
    [.cycleTopology, .cycleTopology])
    (f := fun e => e.source = 0 && e.graphManager.defaultSource = 5) (by decide +kernel)
  refine ⟨e, he, fun hc => ?_⟩
  simp only [Bool.and_eq_true, decide_eq_true_eq] at hcheck
  rw [hc.source, hcheck.2] at hcheck
  exact absurd hcheck.1 (by decide)

end Engine

end PacketSim
