import PacketSim.Engine.Agenda

/-!
# Engine — Totality

What raises, and what does not.  Where packets and events are in their places, each method of the
engine succeeds (`update_total`, `startRun_total`), as long as an update takes the clock to a time
at which the due events can be drained (`Paced`).  Every operation leaves an engine for which all
this holds again (`perform_total`).

* `session_total`: from `setup_topology` on a preset, or on a custom graph that is connected, with
  positive delays whose sums are finite doubles.  On the exact clock every session is paced
  (`Ready.pacedSession`).
* `session_breaks`: on graphs whose delays do not add up, `setup_topology` raises.
-/

namespace PacketSim
open Lib

namespace Engine

variable {σ : Type}

/-- The due callbacks run. -/
theorem runDueEvents_total [Clock] {e : Engine σ} (h : e.toNet.Placed) (hd : e.Drainable)
    {fuel : ℕ} (hfuel : e.events.items.length ≤ fuel) :
    ∃ e', runDueEvents fuel e = .ok e' ∧ e'.toNet.Placed := by
  obtain ⟨e', ht⟩ := drains_agenda h.events hd
  have hrun := runDueEvents_of_drains ht (e.length_agenda_le.trans hfuel)
  exact ⟨e', hrun, h.steps (runDueEvents_steps hrun)⟩

/-- In a sound setting the source has a router. -/
theorem source_mem {e : Engine σ} (h : e.setting.Sound) : e.source ∈ e.routers.keys :=
  e.keys_setting ▸ h.source

/-! ### Arrivals -/

theorem sendAck_total {e : Engine σ} (h : e.setting.Sound) (hev : e.Scheduled) (k : ℕ) :
    ∃ e', e.sendAck k = .ok e' ∧ e'.Scheduled := by
  have hdst : e.destination ∈ e.routers.keys := e.keys_setting ▸ h.destination
  exact injectPacket_total hdst hev

theorem handleArrival_total [Clock] {e : Engine σ} {f : InFlightPacket} (h : e.setting.Sound)
    (hev : e.Scheduled) (hf : f.endNode ∈ e.routers.keys) : ∃ e', e.handleArrival f = .ok e' := by
  have hdata : ∀ {e : Engine σ} {p : Packet}, e.setting.Sound → e.Scheduled →
      ∃ e', e.onDataReceived p = .ok e' := by
    intro e p h hev
    have hnote : (e.noteDelivered p.sequence).setting.Sound ∧
        (e.noteDelivered p.sequence).Scheduled := by
      unfold noteDelivered
      split
      · exact ⟨h, hev⟩
      · exact ⟨h, hev⟩
    unfold onDataReceived
    dsimp only
    split
    · obtain ⟨e', h', -⟩ := sendAck_total hnote.1 hnote.2 p.sequence
      exact ⟨e', h'⟩
    · exact ⟨_, rfl⟩
  have hack : ∀ {e : Engine σ} {p : Packet}, e.Scheduled → ∃ e', e.onAckReceived p = .ok e' := by
    intro e p hev
    unfold onAckReceived
    split
    · exact ⟨e, rfl⟩
    · dsimp only
      split
      · exact ⟨_, rfl⟩
      · split
        · exact ⟨_, rfl⟩
        · rename_i acked _ _
          obtain ⟨e', h', -⟩ := schedule_total (e := { e with
            awaitingAck := none
            history := .acknowledged acked e.currentTimeMs :: e.history
            nextSequenceToSend := acked + 1 }) hev 150 (.sendData (acked + 1))
          exact ⟨e', h'⟩
  unfold handleArrival
  dsimp only
  split
  · split
    · exact hdata h hev
    · exact hack hev
  · obtain ⟨e', h', -⟩ := enqueue_total hf hev (f.packet.arriveAt f.endNode)
    exact ⟨e', h'⟩

/-- The loop over the flights ends. -/
theorem advanceFlights_total [Clock] (dt : ℚ) : ∀ {l : List InFlightPacket}
    {st : List InFlightPacket × Engine σ}, (advancing st l).toNet.Placed →
      ∃ st', l.foldlM (advanceFlight dt) st = .ok st'
  | [], st, _ => ⟨st, rfl⟩
  | f :: l, (kept, e), h => by
      have hf : f.endNode ∈ e.routers.keys := by
        have hmem : f.held ∈ (advancing (kept, e) (f :: l)).toNet.held := by
          simp [advancing, withFlights_toNet]
        exact e.keys_setting ▸ (h.fits _ hmem).2
      have hstep : ∃ st', advanceFlight dt (kept, e) f = .ok st' := by
        unfold advanceFlight
        dsimp only
        split
        · exact ⟨_, rfl⟩
        · split
          · exact ⟨_, rfl⟩
          · obtain ⟨e', h'⟩ := handleArrival_total (e := e) (f := { f with
              remainingTimeMs := f.remainingTimeMs - dt }) h.sound
              (fun ev hev => h.events.lt ev hev) hf
            exact ⟨(kept, e'), by rw [h']; rfl⟩
      obtain ⟨st', h'⟩ := hstep
      obtain ⟨st'', h''⟩ := advanceFlights_total dt (h.steps (advanceFlight_steps h'))
      exact ⟨st'', by rw [List.foldlM_cons, h']; exact h''⟩

theorem advanceInFlightPackets_total [Clock] {e : Engine σ} (h : e.toNet.Placed) (dt : ℚ) :
    ∃ e', e.advanceInFlightPackets dt = .ok e' := by
  obtain ⟨st, hst⟩ := advanceFlights_total dt
    (show (advancing ([], e) e.inFlightPackets).toNet.Placed from h)
  exact ⟨_, bind_eq_ok.mpr ⟨st, hst, rfl⟩⟩

/-! ### Dispatch -/

section Draws
variable [RandomSource σ]

theorem launchLink_total {e : Engine σ} {a b c : Int} (h : e.graphManager.getEdgeDelay a b = .ok c)
    (p : Packet) : ∃ e', e.launchLink p a b = .ok e' := by
  unfold launchLink
  rw [h]
  simp only [bind, Except.bind, pure, Except.pure]
  split
  · split
    · exact ⟨_, rfl⟩
    · exact ⟨_, rfl⟩
  · exact ⟨_, rfl⟩

theorem dispatchRouter_total [Clock] {e : Engine σ} {v : Int} (h : e.toNet.Placed)
    (hv : v ∈ e.routers.keys) : ∃ e', e.dispatchRouter v = .ok e' := by
  obtain ⟨r, hr⟩ := Dict.mem_keys.mp hv
  have hr' := router_toNet hr
  unfold dispatchRouter
  rw [getItem_eq_ok.mpr hr]
  simp only [bind, Except.bind]
  split
  · exact ⟨e, rfl⟩
  · rename_i p queue hq
    split
    · exact ⟨e, rfl⟩
    · obtain ⟨M, hM, -⟩ := takeHead_toNet hr hq
      obtain ⟨hdst, -, hne⟩ := h.fits _ (Net.mem_head hM)
      obtain ⟨hop, -, hnext, c, hc⟩ := h.sound.hop v r.wiring p.destination hr' hdst hne
      have hid : r.routerId = v := h.sound.routerId v r.wiring hr'
      have hnext' : r.nextHop p.destination = .ok hop := hnext
      -- a rule drops the packet; without one the table has an entry, as it is not at its end
      cases hrule : r.applyRules p with
      | some a =>
          have hdrop : a.actionType = .drop := h.sound.rules v r.wiring p a hr' hrule
          obtain ⟨type, value⟩ := a
          cases hdrop
          exact ⟨_, rfl⟩
      | none =>
          dsimp only
          rw [hnext']
          exact launchLink_total (hid ▸ hc) p

theorem dispatchRouters_total [Clock] {e : Engine σ} (h : e.toNet.Placed) :
    ∃ e', e.dispatchRouters = .ok e' ∧ e'.toNet.Placed := by
  have hloop : ∃ e', e.dispatchRouters = .ok e' ∧
      e'.toNet.Placed ∧ e'.routers.keys = e.routers.keys := by
    refine foldlM_total (P := fun x : Engine σ => x.toNet.Placed ∧ x.routers.keys = e.routers.keys)
      (fun x v hv ⟨hx, hkeys⟩ => ?_) ⟨h, rfl⟩
    obtain ⟨x', hx'⟩ := dispatchRouter_total hx
      (hkeys ▸ (List.perm_insertionSort _ _).mem_iff.mp hv)
    have hsteps := dispatchRouter_steps hx'
    have hset : x'.setting = x.setting := hsteps.frame.1
    refine ⟨x', hx', hx.steps hsteps, ?_⟩
    rw [← keys_setting, hset, keys_setting, hkeys]
  obtain ⟨e', h', hp', -⟩ := hloop
  exact ⟨e', h', hp'⟩

/-! ### `update` and `start_run` -/

theorem update_total [Clock] {e : Engine σ} (h : e.toNet.Placed) {dt : ℚ}
    (hd : e.running = true → (e.ticked dt).Drainable) :
    ∃ e', e.update dt = .ok e' ∧ e'.toNet.Placed := by
  cases hrun : e.running with
  | false => exact ⟨_, update_idle dt hrun, h⟩
  | true =>
      have hok : ∃ e', e.update dt = .ok e' := by
        have htick : (e.ticked dt).toNet.Placed := h.tick dt
        obtain ⟨e₁, h₁, hp₁⟩ := runDueEvents_total htick (hd hrun) le_rfl
        obtain ⟨e₂, h₂, hp₂⟩ := dispatchRouters_total hp₁
        obtain ⟨e₃, h₃⟩ := advanceInFlightPackets_total hp₂ dt
        exact ⟨_, (update_eq_ok hrun).mpr ⟨e₁, e₂, e₃, h₁, h₂, h₃, rfl⟩⟩
      obtain ⟨e', h'⟩ := hok
      obtain ⟨e₁, hs, rfl⟩ := update_steps hrun h'
      have hp := (h.tick dt).steps hs
      refine ⟨_, h', ?_⟩
      rcases checkFinished_cases e₁ with hc | ⟨-, hc⟩
      · rw [hc]
        exact hp
      · rw [hc]
        exact hp.finish

end Draws

theorem startRun_total [Clock] {e : Engine σ} (h : e.setting.Sound) :
    ∃ e', e.startRun = .ok e' ∧ e'.toNet.Placed := by
  have hok : ∃ e', e.startRun = .ok e' := by
    have hempty : e.begun.Scheduled := fun ev hev => by
      simp [begun, resetRunState] at hev
    obtain ⟨e₁, h₁, -⟩ := foldlM_total (P := Scheduled) (l := List.range e.packetGoal)
      (f := fun e sequence => e.schedule (sequence * sendIntervalMs) (.sendData sequence))
      (fun x k _ hx => schedule_total hx _ _) hempty
    obtain ⟨e₂, h₂, -⟩ := schedule_total hempty 0 (.sendData 0)
    cases hm : e.mode with
    | udp => exact ⟨{ e₁ with udpSentAll := true }, (startRun_udp hm).mpr ⟨e₁, h₁, rfl⟩⟩
    | tcp => exact ⟨e₂, (startRun_tcp hm).mpr h₂⟩
  obtain ⟨e', h'⟩ := hok
  exact ⟨e', h', startRun_toNet h' ▸ Net.placed_start h⟩

/-! ### Operations -/

/-- An update of a running engine takes it to a time at which the due events can be drained. -/
def Paced [Clock] (e : Engine σ) : Operation → Prop
  | .update dtMs => e.running = true → (e.ticked dtMs).Drainable
  | _ => True

/-- Each operation of the session is paced, in the state that it finds. -/
def PacedSession [RandomSource σ] [Clock] : Engine σ → List Operation → Prop
  | _, [] => True
  | e, op :: ops => e.Paced op ∧ ∀ e', e.perform op = .ok e' → e'.PacedSession ops

/-- Nothing can go wrong: the setting is fit, packets and events are in their places, and a preset
is loaded if the topology is to be cycled. -/
structure Ready (e : Engine σ) (cycles : Prop) : Prop where
  fit : e.setting.Fit
  placed : e.toNet.Placed
  loaded : cycles → ∃ name, e.Loaded name

theorem ready_resetRunState {e : Engine σ} {cycles : Prop} (h : e.setting.Fit)
    (hl : cycles → ∃ name, e.Loaded name) : e.resetRunState.Ready cycles where
  fit := by
    rw [resetRunState_setting]
    exact h
  placed := by
    rw [resetRunState_toNet]
    exact Net.placed_atRest h.sound
  loaded hc := by
    obtain ⟨name, hpreset, hwired⟩ := hl hc
    exact ⟨name, hpreset, by rw [resetRunState_setting]; exact hwired⟩

/-- The same setting, except for mode, conditions, traffic and, once rewired, SDN. -/
theorem Fit.of_eq {s s' : Setting} (h : s.Fit) (hm : s'.graphManager = s.graphManager)
    (hsrc : s'.source = s.source) (hdst : s'.destination = s.destination) (hw : s'.Wired) :
    s'.Fit where
  good := hm ▸ h.good
  wired := hw
  source := by rw [hsrc, hm]; exact h.source
  destination := by rw [hdst, hm]; exact h.destination
  distinct := by rw [hsrc, hdst]; exact h.distinct

theorem toggleSdn_total {e : Engine σ} (h : e.setting.Fit) : ∃ e', e.toggleSdn = .ok e' := by
  obtain ⟨tables, htables, -⟩ := h.wired
  obtain ⟨e₁, h₁⟩ := rebuildRouters_total (e := { e with useSdn := !e.useSdn }) ⟨tables, htables⟩
  refine ⟨e₁.resetRunState, ?_⟩
  simp only [toggleSdn, bind_eq_ok, leaving_eq_ok]
  exact ⟨e₁, h₁, rfl⟩

theorem cycleTopology_total {e : Engine σ} {name : String} (h : e.Loaded name) :
    ∃ e', e.cycleTopology = .ok e' := by
  obtain ⟨spec, hspec, hpreset⟩ := h.preset
  obtain ⟨spec', hspec', hcycle⟩ := GraphManager.cycleTopology_preset hspec
  obtain ⟨e₁, h₁⟩ := rebuildRouters_total (e := { e with graphManager := .preset spec' })
    (GraphManager.preset_built hspec')
  refine ⟨e₁.resetRunState, ?_⟩
  simp only [cycleTopology, bind_eq_ok, leaving_eq_ok]
  exact ⟨_, hpreset ▸ hcycle, e₁, h₁, rfl⟩

/-- An engine that was just rewired from a good graph, with endpoints on it, is ready. -/
theorem cycleTopology_fit {e e' : Engine σ} {name : String} (hl : e.Loaded name)
    (hfit : e.setting.Fit) (h : e.cycleTopology = .ok e') : e'.setting.Fit := by
  obtain ⟨hl', hsrc, hdst⟩ := cycleTopology_loaded hl h
  obtain ⟨spec, hspec, hpreset⟩ := hl.preset
  obtain ⟨spec', hspec', hpreset'⟩ := hl'.preset
  have hnodes : e'.graphManager.graph.nodes = e.graphManager.graph.nodes := by
    rw [hpreset, hpreset', GraphManager.preset_nodes hspec, GraphManager.preset_nodes hspec']
  exact
    { good := by
        show e'.graphManager.Good
        rw [hpreset']
        exact GraphManager.preset_good hspec'
      wired := hl'.wired
      source := by
        show e'.source ∈ e'.graphManager.graph.nodes
        rw [hsrc, hnodes]
        exact hfit.source
      destination := by
        show e'.destination ∈ e'.graphManager.graph.nodes
        rw [hdst, hnodes]
        exact hfit.destination
      distinct := by
        show e'.source ≠ e'.destination
        rw [hsrc, hdst]
        exact hfit.distinct }

/-- From here on, at every moment, no router holds a packet addressed to itself and no two pending
events share an id. -/
def Orderly [Clock] (e : Engine σ) : Prop :=
  ∀ n, Net.Later e.toNet n → (∀ v p, (.queue v, p) ∈ n.held → v ≠ p.destination) ∧
    (n.pending.map Event.eventId).Nodup

theorem Ready.orderly [Clock] {e : Engine σ} {cycles : Prop} (h : e.Ready cycles) : e.Orderly :=
  fun _ hs =>
    let hn := h.placed.later hs
    ⟨fun _ _ hp => (hn.fits _ hp).2.2, hn.events.nodup⟩

theorem setupTopology_total {e : Engine σ} (topologyName : Option String) {m : GraphManager}
    (hm : (match topologyName with
      | some name => e.graphManager.loadTopology name
      | none =>
          if e.graphManager.currentTopologyName = "" then
            e.graphManager.loadTopology (GraphManager.getTopologyNames.getD 0 "")
          else .ok e.graphManager) = .ok m)
    (hgood : m.Good) (hbuilt : ∃ tables, m.buildForwardingTables = .ok tables)
    (hsrc : m.defaultSource ∈ m.graph.nodes) (hdst : m.defaultDestination ∈ m.graph.nodes)
    (hne : m.defaultSource ≠ m.defaultDestination) :
    ∃ e', e.setupTopology topologyName = .ok e' ∧ e'.setting.Fit ∧ e'.toNet.Placed := by
  obtain ⟨e₁, h₁⟩ := rebuildRouters_total (e := { e with
    graphManager := m, source := m.defaultSource, destination := m.defaultDestination }) hbuilt
  have hw := rebuildRouters_wired h₁
  have hfit : e₁.setting.Fit := by
    obtain ⟨tables, -, rfl⟩ := rebuildRouters_eq_ok.mp h₁
    exact ⟨hgood, hw, hsrc, hdst, hne⟩
  have hready : e₁.resetRunState.Ready False := ready_resetRunState hfit False.elim
  refine ⟨e₁.resetRunState, ?_, hready.fit, hready.placed⟩
  simp only [setupTopology, bind_eq_ok, leaving_eq_ok]
  exact ⟨m, hm, e₁, h₁, rfl⟩

theorem preset_setup_total (e : Engine σ) {name : String}
    (hname : name ∈ GraphManager.getTopologyNames) :
    ∃ e₁, e.setupTopology (some name) = .ok e₁ ∧ e₁.setting.Fit ∧ e₁.toNet.Placed := by
  obtain ⟨spec, hspec⟩ := Dict.mem_keys.mp hname
  have hends := GraphManager.preset_endpoints hspec
  exact setupTopology_total (e := e) (some name)
    (GraphManager.loadTopology_eq_ok.mpr ⟨spec, hspec, rfl⟩) (GraphManager.preset_good hspec)
    (GraphManager.preset_built hspec) hends.1 hends.2.1 hends.2.2

theorem steady_fit {name : String} (hname : name ∈ GraphManager.getTopologyNames) (mode : Mode) :
    (Steady.engine name mode).setting.Fit := by
  obtain ⟨e₁, h₁, hfit, -⟩ := preset_setup_total (Steady.fresh mode) hname
  rwa [Steady.engine, h₁]

section Draws
variable [RandomSource σ]

/-- **No operation raises**, and each leaves an engine that is ready for the next. -/
theorem perform_total [Clock] {e : Engine σ} {op : Operation} {cycles : Prop} (h : e.Ready cycles)
    (hcycle : op = .cycleTopology → cycles) (hpaced : e.Paced op) :
    ∃ e', e.perform op = .ok e' ∧ e'.Ready cycles := by
  have hloaded : ∀ {e' : Engine σ}, e.perform op = .ok e' → cycles → ∃ name, e'.Loaded name :=
    fun h' hc =>
      let ⟨name, hl⟩ := h.loaded hc
      ⟨_, (perform_loaded hl h').1⟩
  have hkeeps : ∀ {e' : Engine σ}, op ≠ .cycleTopology → op ≠ .toggleSdn →
      e.perform op = .ok e' → e'.setting.Fit := fun hc hs h' =>
    let hk := perform_keeps hc hs h'
    Fit.of_eq h.fit hk.graphManager hk.source hk.destination (hk.wired h.fit.wired)
  have hreset : ∀ {e' : Engine σ}, op ≠ .cycleTopology → op ≠ .toggleSdn →
      e.perform op = .ok e' → (∃ s, e'.toNet = .atRest s) →
        ∃ e', e.perform op = .ok e' ∧ e'.Ready cycles := by
    rintro e' hc hs h' ⟨s, hrest⟩
    have hfit := hkeeps hc hs h'
    refine ⟨e', h', hfit, ?_, hloaded h'⟩
    have : s = e'.setting := (congrArg Net.setting hrest).symm
    rw [hrest, this]
    exact Net.placed_atRest hfit.sound
  cases op with
  | startRun =>
      obtain ⟨e', h', hp⟩ := startRun_total h.fit.sound
      exact ⟨e', h', hkeeps (by simp) (by simp) h', hp, hloaded h'⟩
  | update dt =>
      obtain ⟨e', h', hp⟩ := update_total h.placed hpaced
      exact ⟨e', h', hkeeps (by simp) (by simp) h', hp, hloaded h'⟩
  | cycleTopology =>
      obtain ⟨name, hl⟩ := h.loaded (hcycle rfl)
      obtain ⟨e', h'⟩ := cycleTopology_total hl
      have hfit := cycleTopology_fit hl h.fit h'
      have hok : e.perform .cycleTopology = .ok e' := mapError_eq_ok.mpr h'
      refine ⟨e', hok, hfit, ?_, hloaded hok⟩
      simp only [cycleTopology, bind_eq_ok, leaving_eq_ok] at h'
      obtain ⟨m, -, e₁, -, h'⟩ := h'
      cases h'
      rw [resetRunState_toNet]
      rw [resetRunState_setting] at hfit
      exact Net.placed_atRest hfit.sound
  | toggleSdn =>
      obtain ⟨e', h'⟩ := toggleSdn_total h.fit
      have hok : e.perform .toggleSdn = .ok e' := mapError_eq_ok.mpr h'
      have hk := toggleSdn_keeps h'
      have hfit := Fit.of_eq h.fit hk.graphManager hk.source hk.destination (hk.wired h.fit.wired)
      refine ⟨e', hok, hfit, ?_, hloaded hok⟩
      simp only [toggleSdn, bind_eq_ok, leaving_eq_ok] at h'
      obtain ⟨e₁, -, h'⟩ := h'
      cases h'
      rw [resetRunState_toNet]
      rw [resetRunState_setting] at hfit
      exact Net.placed_atRest hfit.sound
  | setMode mode => exact hreset (by simp) (by simp) rfl ⟨_, resetRunState_toNet _⟩
  | toggleMode => exact hreset (by simp) (by simp) rfl ⟨_, resetRunState_toNet _⟩
  | toggleChaos => exact hreset (by simp) (by simp) rfl ⟨_, resetRunState_toNet _⟩
  | toggleDuplicates => exact hreset (by simp) (by simp) rfl ⟨_, resetRunState_toNet _⟩
  | toggleTrafficProfile => exact hreset (by simp) (by simp) rfl ⟨_, resetRunState_toNet _⟩
  | adjustLossRate delta => exact hreset (by simp) (by simp) rfl ⟨_, resetRunState_toNet _⟩
  | adjustDelayMultiplier delta => exact hreset (by simp) (by simp) rfl ⟨_, resetRunState_toNet _⟩
  | resetRunState keepMode =>
      exact hreset (by simp) (by simp) rfl
        ⟨_, resetRunState_toNet { e with mode := if keepMode then e.mode else .udp }⟩

theorem session_ready [Clock] {cycles : Prop} :
    ∀ {ops : List Operation} {e : Engine σ}, e.Ready cycles → (.cycleTopology ∈ ops → cycles) →
      e.PacedSession ops → ∃ e', e.session ops = .ok e' ∧ e'.Ready cycles
  | [], e, h, _, _ => ⟨e, rfl, h⟩
  | op :: ops, e, h, hcycle, ⟨hpaced, hrest⟩ => by
      obtain ⟨e₁, h₁, hr₁⟩ := perform_total h (fun heq => hcycle (heq ▸ List.mem_cons_self)) hpaced
      obtain ⟨e', h', hr'⟩ := session_ready hr₁ (fun hmem => hcycle (List.mem_cons_of_mem _ hmem))
        (hrest e₁ h₁)
      exact ⟨e', by rw [session, List.foldlM_cons, h₁]; exact h', hr'⟩

omit [RandomSource σ] in
/-- On the exact clock the due events can be drained at any time. -/
theorem drainable_exact {e : Engine σ} (h : e.toNet.Placed) (dt : ℚ) : (e.ticked dt).Drainable :=
  drainable_of_canTransmit ⟨source_mem h.sound, fun _ => moves_exact _⟩

theorem update_total_exact {e : Engine σ} (h : e.toNet.Placed) (dt : ℚ) :
    ∃ e', e.update dt = .ok e' ∧ e'.toNet.Placed :=
  update_total h fun _ => drainable_exact h dt

omit [RandomSource σ] in
theorem Ready.paced {e : Engine σ} {cycles : Prop} (h : e.Ready cycles) (op : Operation) :
    e.Paced op := by
  cases op with
  | update dt => exact fun _ => drainable_exact h.placed dt
  | _ => trivial

/-- On the exact clock every session is paced. -/
theorem Ready.pacedSession {cycles : Prop} :
    ∀ {ops : List Operation} {e : Engine σ}, e.Ready cycles → (.cycleTopology ∈ ops → cycles) →
      e.PacedSession ops
  | [], _, _, _ => trivial
  | op :: ops, e, h, hcycle => by
      refine ⟨h.paced op, fun e' he' => ?_⟩
      obtain ⟨e₁, h₁, hr₁⟩ := perform_total h (fun heq => hcycle (heq ▸ List.mem_cons_self))
        (h.paced op)
      cases h₁.symm.trans he'
      exact hr₁.pacedSession fun hmem => hcycle (List.mem_cons_of_mem _ hmem)

/-! ### Sessions -/

/-- **No paced session on a preset raises.** -/
theorem preset_session_total [Clock] (e : Engine σ) {name : String}
    (hname : name ∈ GraphManager.getTopologyNames) (ops : List Operation) :
    ∃ e₁, e.setupTopology (some name) = .ok e₁ ∧ (e₁.PacedSession ops →
      ∃ e₂, e₁.session ops = .ok e₂ ∧ e₂.Orderly) := by
  obtain ⟨e₁, h₁, hfit, hplaced⟩ := preset_setup_total e hname
  refine ⟨e₁, h₁, fun hpaced => ?_⟩
  have hready : e₁.Ready True := ⟨hfit, hplaced, fun _ => ⟨name, (setupTopology_preset h₁).1⟩⟩
  obtain ⟨e₂, h₂, hready⟩ := session_ready hready (fun _ => trivial) hpaced
  exact ⟨e₂, h₂, hready.orderly⟩

omit [RandomSource σ] in
/-- **A custom graph can be set up exactly where its delays can be added**, if it is connected and
has positive delays. -/
theorem custom_setup_iff (e : Engine σ) {m : GraphManager} {numNodes : ℕ}
    {edges : List (Int × Int × Option Int)} (hm : e.graphManager = m.createGraph numNodes edges)
    (hnodes : 2 ≤ numNodes) (hconn : e.graphManager.graph.Connected)
    (hpos : e.graphManager.graph.PositiveDelays) :
    ((∃ e₁, e.setupTopology = .ok e₁) ↔ e.graphManager.Addable) ∧
      ∀ e₁, e.setupTopology = .ok e₁ → e₁.setting.Fit ∧ e₁.toNet.Placed := by
  have hwf : e.graphManager.graph.WF := hm ▸ GraphManager.wf_createGraph m numNodes edges
  obtain ⟨hsrc, hdst, hne⟩ := GraphManager.endpoints_createGraph m hnodes edges
  rw [← hm] at hsrc hdst hne
  have hname : e.graphManager.currentTopologyName ≠ "" := by
    rw [hm]
    exact (by decide : "Custom" ≠ "")
  have hbuilt := GraphManager.built_iff hwf hpos
  have hsetup : (∃ tables, e.graphManager.buildForwardingTables = .ok tables) →
      ∃ e₁, e.setupTopology = .ok e₁ ∧ e₁.setting.Fit ∧ e₁.toNet.Placed := fun h =>
    setupTopology_total (e := e) none (if_neg hname) ⟨hwf, hpos, hconn⟩ h hsrc hdst hne
  have htables : ∀ e₁, e.setupTopology = .ok e₁ →
      ∃ tables, e.graphManager.buildForwardingTables = .ok tables := fun e₁ h => by
    simp only [setupTopology, bind_eq_ok, leaving_eq_ok, if_neg hname] at h
    obtain ⟨m', hm', e₂, h₂, -⟩ := h
    cases hm'
    obtain ⟨tables, htables, -⟩ := rebuildRouters_eq_ok.mp h₂
    exact ⟨tables, htables⟩
  refine ⟨⟨fun h => ?_, fun h => ?_⟩, fun e₁ h => ?_⟩
  · obtain ⟨e₁, h₁⟩ := h
    exact hbuilt.mp (htables e₁ h₁)
  · obtain ⟨e₁, h₁, -⟩ := hsetup (hbuilt.mpr h)
    exact ⟨e₁, h₁⟩
  · obtain ⟨e₁', h₁', hfit⟩ := hsetup (htables e₁ h)
    cases h.symm.trans h₁'
    exact hfit

/-- **No operation crashes** in a paced session.  A preset can be set up; a custom graph can exactly
where its delays can be added, if it is connected and has positive delays. -/
theorem session_total [Clock] (e : Engine σ) (ops : List Operation) :
    (∀ name ∈ GraphManager.getTopologyNames, ∃ e₁, e.setupTopology (some name) = .ok e₁ ∧
        (e₁.PacedSession ops → ∃ e₂, e₁.session ops = .ok e₂ ∧ e₂.Orderly)) ∧
      ∀ (m : GraphManager) numNodes edges, e.graphManager = m.createGraph numNodes edges →
        2 ≤ numNodes → e.graphManager.graph.Connected → e.graphManager.graph.PositiveDelays →
        .cycleTopology ∉ ops →
          ((∃ e₁, e.setupTopology = .ok e₁) ↔ e.graphManager.Addable) ∧
            ∀ e₁, e.setupTopology = .ok e₁ → e₁.PacedSession ops →
              ∃ e₂, e₁.session ops = .ok e₂ ∧ e₂.Orderly := by
  refine ⟨fun _ hname => preset_session_total e hname ops,
    fun m numNodes edges hm hnodes hconn hpos hcycle => ?_⟩
  obtain ⟨hiff, hfit⟩ := custom_setup_iff e hm hnodes hconn hpos
  refine ⟨hiff, fun e₁ h₁ hpaced => ?_⟩
  have hready : e₁.Ready False := ⟨(hfit e₁ h₁).1, (hfit e₁ h₁).2, False.elim⟩
  obtain ⟨e₂, h₂, hready⟩ := session_ready hready hcycle hpaced
  exact ⟨e₂, h₂, hready.orderly⟩

/-- An engine that holds a line of three nodes. -/
def lineEngine : Engine Steady :=
  { Steady.fresh .tcp with
    graphManager := GraphManager.init.createGraph 3 [(0, 1, some 120), (1, 2, none)] }

/-- The line is connected, and its delays can be added. -/
theorem lineEngine_total :
    lineEngine.graphManager.graph.Connected ∧ lineEngine.graphManager.graph.PositiveDelays ∧
      lineEngine.graphManager.Addable := by
  have hops : ∀ op ∈ GraphManager.createOps 3 [(0, 1, some 120), (1, 2, none)],
      op.DelayIn fun c => 0 < c ∧ c ≤ 200 := by
    simp [GraphManager.createOps, SimpleGraph.GraphOp.DelayIn]
  have hwf := GraphManager.wf_createGraph .init 3 [(0, 1, some 120), (1, 2, none)]
  have hdelay : ∀ u v c, lineEngine.graphManager.graph.delay u v = some c → 0 < c ∧ c ≤ 200 := by
    intro u v c hc
    rw [lineEngine, GraphManager.graph_createGraph] at hc
    exact SimpleGraph.delay_buildGraph hops u v c hc
  have hpos : lineEngine.graphManager.graph.PositiveDelays := fun u v c hc => (hdelay u v c hc).1
  have hconn : lineEngine.graphManager.graph.Connected :=
    SimpleGraph.connected_of_attached (r := 0) (l := [1, 2]) hwf (by decide +kernel)
      (by decide +kernel)
  have hsmall : lineEngine.graphManager.Small 200 :=
    ⟨fun u v c hc => (hdelay u v c hc).2, by decide +kernel⟩
  exact ⟨hconn, hpos, hsmall.addable hwf hpos hconn⟩

theorem session_total_line :
    (∃ e₁ e₂, lineEngine.setupTopology (some "Campus Backbone") = .ok e₁ ∧
      e₁.session [.startRun, .update 20, .toggleSdn, .startRun, .update 500] = .ok e₂ ∧
        e₂.Orderly) ∧
      ∃ e₁ e₂, lineEngine.setupTopology = .ok e₁ ∧
        e₁.session [.startRun, .update 20, .toggleSdn, .startRun, .update 500] = .ok e₂ ∧
          e₂.Orderly := by
  have h := session_total lineEngine
    [.startRun, .update 20, .toggleSdn, .startRun, .update 500]
  obtain ⟨hconn, hpos, hadd⟩ := lineEngine_total
  constructor
  · obtain ⟨e₁, h₁, hfit, hplaced⟩ := preset_setup_total lineEngine
      (show "Campus Backbone" ∈ GraphManager.getTopologyNames by decide +kernel)
    obtain ⟨e₁', h₁', hrun⟩ := h.1 "Campus Backbone" (by decide +kernel)
    cases h₁.symm.trans h₁'
    have hready : e₁.Ready False := ⟨hfit, hplaced, False.elim⟩
    obtain ⟨e₂, h₂, hord⟩ := hrun (hready.pacedSession (by simp))
    exact ⟨e₁, e₂, h₁, h₂, hord⟩
  · obtain ⟨hiff, hrun⟩ := h.2 .init 3 _ rfl (by decide) hconn hpos (by simp)
    obtain ⟨e₁, h₁⟩ := hiff.mpr hadd
    obtain ⟨hfit, hplaced⟩ := (custom_setup_iff lineEngine rfl (by decide) hconn hpos).2 e₁ h₁
    have hready : e₁.Ready False := ⟨hfit, hplaced, False.elim⟩
    obtain ⟨e₂, h₂, hord⟩ := hrun e₁ h₁ (hready.pacedSession (by simp))
    exact ⟨e₁, e₂, h₁, h₂, hord⟩

/-- On doubles, a TCP run of the campus is stuck when its first update takes the clock to
`2 ^ 63`. -/
theorem campus_stuck : letI : Clock := .double
    ∃ e₁ e₂, (Steady.fresh .tcp).setupTopology (some "Campus Backbone") = .ok e₁ ∧
      e₁.startRun = .ok e₂ ∧ (e₂.ticked (2 ^ 63)).Stuck := by
  let _ : Clock := .double
  have hname : "Campus Backbone" ∈ GraphManager.getTopologyNames := by decide +kernel
  have hsetup : (Steady.fresh .tcp).setupTopology (some "Campus Backbone") =
      .ok (Steady.engine "Campus Backbone" .tcp) := Steady.setup_eq (by decide +kernel)
  have hfit := steady_fit hname .tcp
  obtain ⟨e₂, h₂, -⟩ := startRun_total hfit.sound
  have hclock : (e₂.ticked (2 ^ 63)).currentTimeMs = 2 ^ 63 := by
    have h0 : e₂.currentTimeMs = 0 := congrArg Net.clock (startRun_toNet h₂)
    show rounded (e₂.currentTimeMs + 2 ^ 63) = 2 ^ 63
    rw [h0, zero_add, show (2 ^ 63 : ℚ) = pow2 63 by rw [pow2_eq]; norm_num]
    exact rounded_pow2 (by norm_num)
  refine ⟨_, e₂, hsetup, h₂, stuck_of_start h₂ (by decide +kernel) (by decide +kernel)
    (source_mem hfit.sound) ?_ ?_⟩
  · show rounded (0 + 0) ≤ rounded (0 + 2 ^ 63)
    exact rounded_mono (by norm_num)
  · rw [moves_double (by rw [hclock]; norm_num), hclock]
    · exact lt_irrefl _
    · show rounded (rounded _) = rounded _
      exact rounded_rounded _

/-- **Setting up can raise, and an update need not end.**  `far` and `huge` are connected, with
positive delays, and cannot be set up; on doubles the campus in TCP mode never leaves the update
that takes its clock to `2 ^ 63`. -/
theorem session_breaks :
    (∀ m ∈ [GraphManager.far, GraphManager.huge],
      m.graph.Connected ∧ m.graph.PositiveDelays ∧
        ∀ e₁, { Steady.fresh .tcp with graphManager := m }.setupTopology ≠ .ok e₁) ∧
    letI : Clock := .double
    ∃ e₁ e₂, (Steady.fresh .tcp).setupTopology (some "Campus Backbone") = .ok e₁ ∧
      e₁.startRun = .ok e₂ ∧
        ∀ ran r, ¬ Drains nextDue runEvent (e₂.ticked (2 ^ 63)) ran r := by
  constructor
  · have hraises : ∀ m : GraphManager, m.currentTopologyName ≠ "" →
        (∀ tables, m.buildForwardingTables ≠ .ok tables) →
          ∀ e₁, { Steady.fresh .tcp with graphManager := m }.setupTopology ≠ .ok e₁ := by
      intro m hname hno e₁ h₁
      simp only [setupTopology, bind_eq_ok, leaving_eq_ok, if_neg hname] at h₁
      obtain ⟨m', hm', e₂, h₂, -⟩ := h₁
      cases hm'
      obtain ⟨tables, htables, -⟩ := rebuildRouters_eq_ok.mp h₂
      exact hno tables htables
    simp only [List.forall_mem_cons, List.not_mem_nil, false_imp_iff, implies_true, and_true]
    exact ⟨⟨GraphManager.far_connected.2, GraphManager.far_connected.1,
        hraises _ (by decide +kernel) GraphManager.far_unbuilt⟩,
      GraphManager.huge_connected.2, GraphManager.huge_connected.1,
        hraises _ (by decide +kernel) GraphManager.huge_unbuilt⟩
  · obtain ⟨e₁, e₂, h₁, h₂, hstuck⟩ := campus_stuck
    exact ⟨e₁, e₂, h₁, h₂, fun ran r => @not_drains_of_stuck _ .double _ hstuck ran r⟩

end Draws

end Engine

end PacketSim
