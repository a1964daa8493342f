import PacketSim.Engine.Effects
import PacketSim.Engine.Totality

/-!
# Engine — Traffic

What is on the links, and what is marked.  The delay of every flight is the link's, scaled, with
its jitter and its spike; a burst of chaos drops is at most two long; and a marker stands at a node
or a link of the graph for at most 900 ms.  All of that holds in every state of every session
(`session_traffic`): the keyboard moves the conditions only within their bounds, and whatever it
changes, it clears the links first.
-/

namespace PacketSim
open Lib

/-- The bounds that the keyboard keeps the conditions in. -/
structure NetworkConditions.InRange (c : NetworkConditions) : Prop where
  lossRate : 0 ≤ c.lossRate ∧ c.lossRate ≤ 6/10
  delayMultiplier : 4/10 ≤ c.delayMultiplier ∧ c.delayMultiplier ≤ 25/10
  duplicateRate : 0 ≤ c.duplicateRate ∧ c.duplicateRate ≤ 5/100

theorem NetworkConditions.InRange.nonneg {c : NetworkConditions} (h : c.InRange) :
    0 ≤ c.delayMultiplier :=
  le_trans (by norm_num) h.delayMultiplier.1

namespace InFlightPacket

/-- The delay drawn for a link of delay `d`. -/
structure Drawn (c : NetworkConditions) (d : Int) (f : InFlightPacket) : Prop where
  least : d * c.delayMultiplier ≤ f.totalTimeMs
  most : f.totalTimeMs ≤ (d + 80) * c.delayMultiplier + if c.chaosMode then 850 else 0
  delayed : f.delayed = decide (d * (135/100 : ℚ) < f.totalTimeMs)

/-- The flight is on a link of the graph, with a delay drawn for it. -/
def Fits (c : NetworkConditions) (m : GraphManager) (f : InFlightPacket) : Prop :=
  ∃ d, m.getEdgeDelay f.startNode f.endNode = .ok d ∧ f.Drawn c d ∧
    f.remainingTimeMs ≤ f.totalTimeMs

end InFlightPacket

/-- The marker is at a node or a link. -/
structure PacketEvent.Fits (nodes : List Int) (ev : PacketEvent) : Prop where
  node : ∀ v, ev.node = some v → v ∈ nodes
  startNode : ∀ v, ev.startNode = some v → v ∈ nodes
  endNode : ∀ v, ev.endNode = some v → v ∈ nodes
  drop : ev.kind = .drop → ev.startNode ≠ none
  delivered : ev.kind = .delivered → ev.node ≠ none
  ttlMs : 0 < ev.ttlMs ∧ ev.ttlMs ≤ 900

namespace Engine

variable {σ : Type}

/-- What is on the links and marked fits the graph and the conditions. -/
structure Fitting (e : Engine σ) : Prop where
  flights : ∀ f ∈ e.inFlightPackets, f.Fits e.conditions e.graphManager
  burst : e.chaosDropRemaining ≤ 2
  calm : e.conditions.chaosMode = false → e.chaosDropRemaining = 0
  markers : ∀ ev ∈ e.packetEvents, ev.Fits e.graphManager.graph.nodes

variable {e e' : Engine σ} {l : List PacketEvent}

theorem fitting_resetRunState (e : Engine σ) : e.resetRunState.Fitting :=
  ⟨by simp [resetRunState], Nat.zero_le _, fun _ => rfl, by simp [resetRunState]⟩

/-- Markers are added. -/
theorem Fitting.leaves (h : e.Fitting) (hs : e'.setting = e.setting) (hl : e.Leaves e' l)
    (hfit : ∀ ev ∈ l, ev.Fits e.graphManager.graph.nodes) : e'.Fitting := by
  have hc : e'.conditions = e.conditions := congrArg Setting.conditions hs
  have hm : e'.graphManager = e.graphManager := congrArg Setting.graphManager hs
  have hflights : e'.inFlightPackets = e.inFlightPackets := congrArg Links.inFlightPackets hl.links
  have hchaos : e'.chaosDropRemaining = e.chaosDropRemaining :=
    congrArg Links.chaosDropRemaining hl.links
  refine ⟨?_, hchaos ▸ h.burst, fun hoff => hchaos.trans (h.calm (hc ▸ hoff)), fun ev hev => ?_⟩
  · rw [hflights, hc, hm]
    exact h.flights
  · rw [hl.packetEvents, List.mem_append] at hev
    rw [hm]
    exact hev.elim (h.markers ev) (hfit ev)

section Draws
variable [RandomSource σ]

/-! ### The draws -/

theorem sampleLinkDelay_drawn (h : 0 ≤ e.conditions.delayMultiplier) (d : Int) :
    ∃ t delayed random, e.sampleLinkDelay d = ((t, delayed), { e with random }) ∧
      d * e.conditions.delayMultiplier ≤ t ∧
      t ≤ (d + 80) * e.conditions.delayMultiplier +
        (if e.conditions.chaosMode then 850 else 0) ∧
      delayed = decide (d * (135/100 : ℚ) < t) := by
  have hjitter : ∀ g : σ, _ ∧ _ :=
    fun g => RandomSource.uniform_range (a := 0) (b := 80 * e.conditions.delayMultiplier) g
      (by positivity)
  have hspike : ∀ g : σ, _ ∧ _ :=
    fun g => RandomSource.uniform_range (a := 250) (b := 850) g (by norm_num)
  unfold sampleLinkDelay drawUniform drawRandom
  dsimp only
  split
  · split
    · have hj := hjitter e.random
      have hs := hspike (RandomSource.random (RandomSource.uniform 0
        (80 * e.conditions.delayMultiplier) e.random).2).2
      refine ⟨_, _, _, rfl, ?_, ?_, rfl⟩
      · linarith [hj.1, hs.1]
      · linarith [hj.2, hs.2]
    · refine ⟨_, _, _, rfl, ?_, ?_, rfl⟩
      · linarith [(hjitter e.random).1]
      · linarith [(hjitter e.random).2]
  · refine ⟨_, _, _, rfl, ?_, ?_, rfl⟩
    · linarith [(hjitter e.random).1]
    · linarith [(hjitter e.random).2]

theorem shouldDropPacket_burst (h : e.chaosDropRemaining ≤ 2)
    (hcalm : e.conditions.chaosMode = false → e.chaosDropRemaining = 0) :
    ∃ dropped random chaosDropRemaining,
      e.shouldDropPacket = (dropped, { e with random, chaosDropRemaining }) ∧
        chaosDropRemaining ≤ 2 ∧
        (e.conditions.chaosMode = false → chaosDropRemaining = 0) := by
  unfold shouldDropPacket drawInt drawRandom
  dsimp only
  split
  · rename_i hc
    split
    · exact ⟨_, _, _, rfl, by omega, fun hoff => absurd hc (by simp [hoff])⟩
    · split
      · exact ⟨_, _, _, rfl, (RandomSource.randint_range (a := 1) (b := 2) _ (by norm_num)).2,
          fun hoff => absurd hc (by simp [hoff])⟩
      · exact ⟨_, _, _, rfl, h, hcalm⟩
  · exact ⟨_, _, _, rfl, h, hcalm⟩

/-! ### Launches -/

theorem Fitting.putOnLink (h : e.Fitting) (hc : 0 ≤ e.conditions.delayMultiplier) {a b d : Int}
    (hd : e.graphManager.getEdgeDelay a b = .ok d) (p : Packet) :
    (e.putOnLink p a b d).Fitting := by
  obtain ⟨t, delayed, g, hdelay, hleast, hmost, hlate⟩ := sampleLinkDelay_drawn hc d
  obtain ⟨dropped, g', n, hdrop, hburst, hcalm⟩ :=
    shouldDropPacket_burst (e := { e with random := g }) h.burst h.calm
  unfold Engine.putOnLink
  rw [hdelay]
  dsimp only
  rw [hdrop]
  dsimp only
  refine ⟨fun f hf => ?_, hburst, hcalm, h.markers⟩
  rcases List.mem_append.mp hf with hf | hf
  · exact h.flights f hf
  · obtain rfl := List.mem_singleton.mp hf
    exact ⟨d, hd, ⟨hleast, hmost, hlate⟩, le_rfl⟩

/-- The copy goes after the packet. -/
theorem Fitting.injectDuplicateFlight (h : e.Fitting) (hc : 0 ≤ e.conditions.delayMultiplier)
    {a b d : Int} (hd : e.graphManager.getEdgeDelay a b = .ok d) (p : Packet) :
    (e.injectDuplicateFlight p a b d).Fitting := by
  have hcounted : Fitting { e with stats := { e.stats with
      packetsSent := e.stats.packetsSent + 1
      duplicatePackets := e.stats.duplicatePackets + 1 } } :=
    ⟨h.flights, h.burst, h.calm, h.markers⟩
  exact hcounted.putOnLink hc hd p

theorem setting_putOnLink (e : Engine σ) (p : Packet) (a b d : Int) :
    (e.putOnLink p a b d).setting = e.setting := by
  obtain ⟨f, g, n, -, h⟩ := e.putOnLink_spec p a b d
  rw [h]
  rfl

theorem Fitting.launchLink (h : e.Fitting) (hc : 0 ≤ e.conditions.delayMultiplier) {a b : Int}
    {p : Packet} (hl : e.launchLink p a b = .ok e') : e'.Fitting := by
  rw [Engine.launchLink, bind_eq_ok] at hl
  obtain ⟨d, hd, hl⟩ := hl
  have hput := h.putOnLink hc hd p
  have hset := setting_putOnLink e p a b d
  generalize e.putOnLink p a b d = e₁ at hl hput hset
  have hc₁ : e₁.conditions = e.conditions := congrArg Setting.conditions hset
  have hm₁ : e₁.graphManager = e.graphManager := congrArg Setting.graphManager hset
  dsimp only at hl
  split at hl
  · obtain ⟨x, g, hdraw⟩ := drawRandom_spec e₁
    rw [hdraw] at hl
    dsimp only [makePacket] at hl
    split at hl
    · cases hl
      refine Fitting.injectDuplicateFlight ?_ (hc₁ ▸ hc) (hm₁ ▸ hd) _
      exact ⟨hput.flights, hput.burst, hput.calm, hput.markers⟩
    · cases hl
      exact ⟨hput.flights, hput.burst, hput.calm, hput.markers⟩
  · cases hl
    exact hput

/-- A pass of a router. -/
theorem Fitting.dispatchRouter (h : e.Fitting) (hfit : e.setting.Fit)
    (hc : 0 ≤ e.conditions.delayMultiplier) {id : Int} (hd : e.dispatchRouter id = .ok e') :
    e'.Fitting := by
  obtain ⟨r, hr, ⟨-, rfl⟩ | ⟨p, queue, -, -, ⟨value, -, rfl⟩ | ⟨hop, -, hl⟩⟩⟩ :=
    dispatchRouter_cases hd
  · exact h
  · refine ⟨h.flights, h.burst, h.calm, fun ev hev => ?_⟩
    rcases List.mem_append.mp hev with hev | hev
    · exact h.markers ev hev
    · obtain rfl := List.mem_singleton.mp hev
      have hwiring : e.setting.routers.get? id = some r.wiring := by
        show (e.routers.map fun _ r => r.wiring).get? id = _
        rw [Dict.get?_map, hr]
        rfl
      obtain ⟨tables, hrouted⟩ := hfit.routed
      have hid : r.routerId = id := (hrouted.router id r.wiring hwiring).1
      have hmem : r.routerId ∈ e.graphManager.graph.nodes := by
        rw [hid]
        exact hrouted.keys ▸ Dict.mem_keys_of_get? hwiring
      exact
        { node := by simp, endNode := by simp, delivered := by simp, drop := by simp
          startNode := fun v hv => Option.some.inj hv ▸ hmem
          ttlMs := ⟨by norm_num, le_rfl⟩ }
  · exact Fitting.launchLink (e := e.takeHead id r queue) ⟨h.flights, h.burst, h.calm, h.markers⟩
      hc hl

theorem Fitting.dispatchRouters (h : e.Fitting) (hfit : e.setting.Fit)
    (hc : 0 ≤ e.conditions.delayMultiplier) (hd : e.dispatchRouters = .ok e') :
    e'.Fitting ∧ e'.setting = e.setting :=
  foldlM_invariant (P := fun x => x.Fitting ∧ x.setting = e.setting)
    (fun x _ x' _ hx ⟨hfitting, hset⟩ => by
      have hconditions : x.conditions = e.conditions := congrArg Setting.conditions hset
      refine ⟨hfitting.dispatchRouter (hset ▸ hfit) (hconditions ▸ hc) hx, ?_⟩
      exact (dispatchRouter_steps hx).frame.1.trans hset) hd ⟨h, rfl⟩

/-! ### Updates -/

omit [RandomSource σ] in
/-- A flight ends: a marker is left, and no more. -/
theorem Fitting.advanceFlight (h : e.Fitting) (hgood : e.graphManager.Good) {dt : ℚ}
    {f : InFlightPacket} (hf : f ∈ e.inFlightPackets) {kept kept' : List InFlightPacket}
    (ha : Engine.advanceFlight dt (kept, e) f = .ok (kept', e')) :
    e'.Fitting ∧ e'.inFlightPackets = e.inFlightPackets := by
  have hends : f.startNode ∈ e.graphManager.graph.nodes ∧ f.endNode ∈ e.graphManager.graph.nodes :=
    let ⟨_, hd, _⟩ := h.flights f hf
    hgood.wf.delay_mem (GraphManager.getEdgeDelay_eq_ok.mp hd)
  have hset : e'.setting = e.setting := by
    have hs : Net.Steps (advancing (kept, e) [f]).toNet (advancing (kept', e') []).toNet :=
      advanceFlight_steps ha
    exact hs.frame.1
  unfold Engine.advanceFlight at ha
  dsimp only at ha
  split at ha
  · cases ha
    exact ⟨h, rfl⟩
  · split at ha
    · cases ha
      refine ⟨⟨h.flights, h.burst, h.calm, fun ev hev => ?_⟩, rfl⟩
      rcases List.mem_append.mp hev with hev | hev
      · exact h.markers ev hev
      · obtain rfl := List.mem_singleton.mp hev
        exact
          { node := by simp, delivered := by simp, drop := by simp
            startNode := fun v hv => Option.some.inj hv ▸ hends.1
            endNode := fun v hv => Option.some.inj hv ▸ hends.2
            ttlMs := ⟨by norm_num, le_rfl⟩ }
    · rw [bind_eq_ok] at ha
      obtain ⟨e₁, h₁, ha⟩ := ha
      cases ha
      have hleaves := handleArrival_leaves h₁
      refine ⟨h.leaves hset hleaves fun ev hev => ?_, congrArg Links.inFlightPackets hleaves.links⟩
      dsimp only at hev
      split at hev
      · obtain rfl := List.mem_singleton.mp hev
        exact
          { node := fun v hv => Option.some.inj hv ▸ hends.2
            startNode := by simp [deliveryMarker], endNode := by simp [deliveryMarker]
            drop := by simp [deliveryMarker], delivered := by simp [deliveryMarker]
            ttlMs := by norm_num [deliveryMarker] }
      · cases hev

omit [RandomSource σ] in
theorem Fitting.advanceInFlightPackets (h : e.Fitting) (hgood : e.graphManager.Good) {dt : ℚ}
    (hdt : 0 ≤ dt) (ha : e.advanceInFlightPackets dt = .ok e') :
    e'.Fitting ∧ ∀ f ∈ e'.inFlightPackets, 0 < f.remainingTimeMs := by
  rw [Engine.advanceInFlightPackets, bind_eq_ok] at ha
  obtain ⟨⟨kept, e₁⟩, h₁, ha⟩ := ha
  cases ha
  have hkept : ∀ f ∈ kept, f ∈ e.inFlightPackets.map (·.aged dt) ∧ 0 < f.remainingTimeMs := by
    have : kept = (e.inFlightPackets.map (·.aged dt)).filter (0 < ·.remainingTimeMs) :=
      advanceFlights_kept h₁
    simp [this, List.mem_filter]
  have hset : e₁.setting = e.setting := by
    have hs := advanceFlights_steps h₁
    exact hs.frame.1
  have hc : e₁.conditions = e.conditions := congrArg Setting.conditions hset
  have hm : e₁.graphManager = e.graphManager := congrArg Setting.graphManager hset
  obtain ⟨hfit, hflights⟩ : e₁.Fitting ∧ e₁.inFlightPackets = e.inFlightPackets :=
    (foldlM_invariant (P := fun st : List InFlightPacket × Engine σ => st.2.setting = e.setting ∧
      st.2.Fitting ∧ st.2.inFlightPackets = e.inFlightPackets)
      (fun st f st' hf hst hkeep => by
        obtain ⟨hs, hx, hl⟩ := hkeep
        have hmanager : st.2.graphManager = e.graphManager := congrArg Setting.graphManager hs
        obtain ⟨hx', hl'⟩ := hx.advanceFlight (hmanager ▸ hgood) (hl ▸ hf) hst
        have hsteps : Net.Steps (advancing st [f]).toNet (advancing st' []).toNet :=
          advanceFlight_steps hst
        exact ⟨hsteps.frame.1.trans hs, hx', hl'.trans hl⟩) h₁ ⟨rfl, h, rfl⟩).2
  refine ⟨⟨fun f hf => ?_, hfit.burst, hfit.calm, hfit.markers⟩, fun f hf => (hkept f hf).2⟩
  obtain ⟨g, hg, rfl⟩ := List.mem_map.mp (hkept f hf).1
  obtain ⟨d, hd, hdrawn, hle⟩ := h.flights g hg
  show InFlightPacket.Fits e₁.conditions e₁.graphManager _
  rw [hc, hm]
  exact ⟨d, hd, ⟨hdrawn.least, hdrawn.most, hdrawn.delayed⟩, (sub_le_self _ hdt).trans hle⟩

omit [RandomSource σ] in
/-- Markers age, and are cleared when their time is up. -/
theorem Fitting.updatePacketEvents (h : e.Fitting) {dt : ℚ} (hdt : 0 ≤ dt) :
    (e.updatePacketEvents dt).Fitting := by
  refine ⟨h.flights, h.burst, h.calm, fun ev hev => ?_⟩
  obtain ⟨hev, hpos⟩ := List.mem_filter.mp hev
  obtain ⟨ev', hev', rfl⟩ := List.mem_map.mp hev
  have hfit := h.markers ev' hev'
  exact { hfit with ttlMs := ⟨of_decide_eq_true hpos, (sub_le_self _ hdt).trans hfit.ttlMs.2⟩ }

omit [RandomSource σ] in
theorem checkFinished_eq (e : Engine σ) : e.checkFinished = { e with
    running := e.checkFinished.running
    completed := e.checkFinished.completed
    stats := e.checkFinished.stats } := by
  unfold checkFinished finishRun
  split_ifs <;> rfl

/-- **What one update keeps.** -/
theorem Fitting.update (h : e.Fitting) (hflying : ∀ f ∈ e.inFlightPackets, 0 < f.remainingTimeMs)
    (hfit : e.setting.Fit) (hc : 0 ≤ e.conditions.delayMultiplier) {dt : ℚ} (hdt : 0 ≤ dt)
    (hu : e.update dt = .ok e') :
    e'.Fitting ∧ ∀ f ∈ e'.inFlightPackets, 0 < f.remainingTimeMs := by
  have haged := h.updatePacketEvents hdt
  cases hrun : e.running with
  | false =>
      rw [update_idle dt hrun] at hu
      cases hu
      exact ⟨haged, hflying⟩
  | true =>
      obtain ⟨e₁, e₂, e₃, h₁, h₂, h₃, rfl⟩ := (update_eq_ok hrun).mp hu
      have hset : e₁.setting = e.setting := (runDueEvents_steps (e := e.ticked dt) h₁).frame.1
      have hticked : (e.ticked dt).Fitting :=
        ⟨haged.flights, haged.burst, haged.calm, haged.markers⟩
      have hfit₁ := hticked.leaves hset (runDueEvents_leaves h₁) (by simp)
      have hconditions : e₁.conditions = e.conditions := congrArg Setting.conditions hset
      obtain ⟨hfit₂, hset₂⟩ := hfit₁.dispatchRouters (hset ▸ hfit) (hconditions ▸ hc) h₂
      have hmanager : e₂.graphManager = e.graphManager :=
        congrArg Setting.graphManager (hset₂.trans hset)
      obtain ⟨hfit₃, hflying₃⟩ := hfit₂.advanceInFlightPackets (hmanager ▸ hfit.good) hdt h₃
      rw [checkFinished_eq]
      exact ⟨⟨hfit₃.flights, hfit₃.burst, hfit₃.calm, hfit₃.markers⟩, hflying₃⟩

/-! ### Sessions -/

/-- Every operation but a start and an update ends with a reset. -/
theorem perform_reset {op : Operation} (hstart : op ≠ .startRun) (hupdate : ∀ dt, op ≠ .update dt)
    (h : e.perform op = .ok e') : ∃ x : Engine σ, x.resetRunState = e' := by
  cases op with
  | startRun => exact absurd rfl hstart
  | update dt => exact absurd rfl (hupdate dt)
  | cycleTopology =>
      have h := mapError_eq_ok.mp h
      simp only [cycleTopology, bind_eq_ok, leaving_eq_ok] at h
      obtain ⟨m, -, e₁, -, h⟩ := h
      exact ⟨e₁, Except.ok.inj h⟩
  | toggleSdn =>
      have h := mapError_eq_ok.mp h
      simp only [toggleSdn, bind_eq_ok, leaving_eq_ok] at h
      obtain ⟨e₁, -, h⟩ := h
      exact ⟨e₁, Except.ok.inj h⟩
  | resetRunState keepMode =>
      rw [← Except.ok.inj h, resetRunState_keepMode]
      exact ⟨_, rfl⟩
  | _ => exact ⟨_, Except.ok.inj h⟩

/-- The keyboard moves the conditions within their bounds. -/
theorem perform_inRange {op : Operation} (hc : e.conditions.InRange) (h : e.perform op = .ok e') :
    e'.conditions.InRange := by
  cases op with
  | startRun =>
      have hs : e'.setting = e.setting := congrArg Net.setting (startRun_toNet h)
      have : e'.conditions = e.conditions := congrArg Setting.conditions hs
      exact this ▸ hc
  | update dt =>
      have : e'.conditions = e.conditions := congrArg Setting.conditions (update_setting h)
      exact this ▸ hc
  | cycleTopology =>
      have h := mapError_eq_ok.mp h
      simp only [cycleTopology, bind_eq_ok, leaving_eq_ok] at h
      obtain ⟨m, -, e₁, hr, h⟩ := h
      obtain ⟨tables, -, rfl⟩ := rebuildRouters_eq_ok.mp hr
      cases h
      exact hc
  | toggleSdn =>
      have h := mapError_eq_ok.mp h
      simp only [toggleSdn, bind_eq_ok, leaving_eq_ok] at h
      obtain ⟨e₁, hr, h⟩ := h
      obtain ⟨tables, -, rfl⟩ := rebuildRouters_eq_ok.mp hr
      cases h
      exact hc
  | toggleDuplicates =>
      cases h
      refine ⟨hc.lossRate, hc.delayMultiplier, ?_⟩
      have hrate : e.toggleDuplicates.conditions.duplicateRate =
          if e.conditions.duplicateRate = 0 then 5/100 else 0 := rfl
      rw [hrate]
      split <;> norm_num
  | adjustLossRate delta =>
      cases h
      exact ⟨⟨le_min (by norm_num) (le_max_left _ _), min_le_left _ _⟩, hc.delayMultiplier,
        hc.duplicateRate⟩
  | adjustDelayMultiplier delta =>
      cases h
      exact ⟨hc.lossRate, ⟨le_min (by norm_num) (le_max_left _ _), min_le_left _ _⟩,
        hc.duplicateRate⟩
  | setMode mode => cases h; exact hc
  | toggleMode => cases h; exact hc
  | toggleChaos => cases h; exact ⟨hc.lossRate, hc.delayMultiplier, hc.duplicateRate⟩
  | toggleTrafficProfile => cases h; exact hc
  | resetRunState keepMode => cases h; exact hc

omit [RandomSource σ] in
/-- A run starts with nothing on the links and nothing marked. -/
theorem fitting_startRun (h : e.startRun = .ok e') :
    e'.Fitting ∧ ∀ f ∈ e'.inFlightPackets, 0 < f.remainingTimeMs := by
  obtain ⟨hmarkers, hlinks⟩ := startRun_leaves h
  have hflights : e'.inFlightPackets = [] := congrArg Links.inFlightPackets hlinks
  have hchaos : e'.chaosDropRemaining = 0 := congrArg Links.chaosDropRemaining hlinks
  exact ⟨⟨by simp [hflights], by simp [hchaos], fun _ => hchaos, by simp [hmarkers]⟩,
    by simp [hflights]⟩

/-- What an operation keeps of an engine that is fit. -/
theorem Fitting.perform (h : e.Fitting) (hflying : ∀ f ∈ e.inFlightPackets, 0 < f.remainingTimeMs)
    (hfit : e.setting.Fit) (hc : 0 ≤ e.conditions.delayMultiplier) {op : Operation}
    (hop : op.Forward) (hp : e.perform op = .ok e') :
    e'.Fitting ∧ ∀ f ∈ e'.inFlightPackets, 0 < f.remainingTimeMs := by
  by_cases hstart : op = .startRun
  · subst hstart
    exact fitting_startRun hp
  · by_cases hupdate : ∃ dt, op = .update dt
    · obtain ⟨dt, rfl⟩ := hupdate
      exact h.update hflying hfit hc hop hp
    · obtain ⟨x, rfl⟩ := perform_reset hstart (fun dt heq => hupdate ⟨dt, heq⟩) hp
      exact ⟨fitting_resetRunState x, by simp [resetRunState]⟩

theorem Run.fitting {e₀ : Engine σ} (hfit : e₀.setting.Fit)
    (hc : 0 ≤ e₀.conditions.delayMultiplier) (h : Run e₀ e) :
    e.Fitting ∧ ∀ f ∈ e.inFlightPackets, 0 < f.remainingTimeMs := by
  induction h with
  | start h => exact fitting_startRun h
  | @update e e' dt hr hdt hu ih =>
      have hset := hr.setting_eq
      have hconditions : e.conditions = e₀.conditions := congrArg Setting.conditions hset
      exact ih.1.update ih.2 (hset ▸ hfit) (hconditions ▸ hc) hdt hu

theorem session_fitting {ops : List Operation} (hready : e.Ready (.cycleTopology ∈ ops))
    (hc : e.conditions.InRange) (h : e.Fitting)
    (hflying : ∀ f ∈ e.inFlightPackets, 0 < f.remainingTimeMs) (hops : ∀ op ∈ ops, op.Forward)
    (hs : e.session ops = .ok e') :
    e'.conditions.InRange ∧ e'.Fitting ∧ ∀ f ∈ e'.inFlightPackets, 0 < f.remainingTimeMs :=
  (foldlM_invariant (P := fun x : Engine σ => x.Ready (.cycleTopology ∈ ops) ∧
    x.conditions.InRange ∧ x.Fitting ∧ ∀ f ∈ x.inFlightPackets, 0 < f.remainingTimeMs)
    (fun x op x' hop hx ⟨hr, hrange, hfit, hfly⟩ => by
      obtain ⟨y, hy, hr'⟩ := perform_total hr (fun hcycle => hcycle ▸ hop) (hr.paced _)
      obtain rfl : y = x' := Except.ok.inj (hy.symm.trans hx)
      exact ⟨hr', perform_inRange hrange hx,
        hfit.perform hfly hr.fit hrange.nonneg (hops op hop) hx⟩)
    hs ⟨hready, hc, h, hflying⟩).2

omit [RandomSource σ] in
/-- A preset is set up with nothing on the links. -/
theorem setup_fitting {e₀ : Engine σ} {name : String} (hc : e₀.conditions.InRange)
    (hsetup : e₀.setupTopology (some name) = .ok e) :
    e.Ready True ∧ e.conditions.InRange ∧ e.Fitting ∧
      ∀ f ∈ e.inFlightPackets, 0 < f.remainingTimeMs := by
  have hname : name ∈ GraphManager.getTopologyNames := by
    obtain ⟨spec, hspec, -⟩ := (setupTopology_preset hsetup).1.preset
    exact Dict.mem_keys_of_get? hspec
  obtain ⟨x, hx, hfit, hplaced⟩ := preset_setup_total e₀ hname
  obtain rfl : x = e := Except.ok.inj (hx.symm.trans hsetup)
  refine ⟨⟨hfit, hplaced, fun _ => ⟨name, (setupTopology_preset hsetup).1⟩⟩, ?_⟩
  simp only [setupTopology, bind_eq_ok, leaving_eq_ok] at hx
  obtain ⟨m, -, y, hr, hx⟩ := hx
  obtain ⟨tables, -, rfl⟩ := rebuildRouters_eq_ok.mp hr
  cases hx
  exact ⟨hc, fitting_resetRunState _, by simp [resetRunState]⟩

/-- **What is on the links and what is marked**, in every state of a session on a preset. -/
theorem session_traffic {e₀ e₁ : Engine σ} {name : String} {ops : List Operation}
    (hc : e₀.conditions.InRange) (hsetup : e₀.setupTopology (some name) = .ok e₁)
    (hops : ∀ op ∈ ops, op.Forward) (h : e₁.session ops = .ok e) :
    e.conditions.InRange ∧ e.Fitting ∧ ∀ f ∈ e.inFlightPackets, 0 < f.remainingTimeMs := by
  obtain ⟨hready, hrange, hfit, hflying⟩ := setup_fitting hc hsetup
  exact session_fitting ⟨hready.fit, hready.placed, fun _ => hready.loaded trivial⟩ hrange hfit
    hflying hops h

theorem session_traffic_campus : ∃ e, (Steady.engine "Campus Backbone" .tcp).session
    [.toggleChaos, .adjustDelayMultiplier (1/10), .startRun, .update 16, .update 170] = .ok e ∧
      ∀ f ∈ e.inFlightPackets, f.Fits e.conditions e.graphManager := by
  obtain ⟨e, he⟩ := exists_ok (x := (Steady.engine "Campus Backbone" .tcp).session
    [.toggleChaos, .adjustDelayMultiplier (1/10), .startRun, .update 16, .update 170])
    (by decide +kernel)
  have hrange : (Steady.fresh .tcp).conditions.InRange := by
    constructor <;> norm_num [Steady.fresh]
  exact ⟨e, he, (session_traffic hrange (Steady.setup_eq (by decide +kernel))
    (by simp [Operation.Forward]) he).2.1.flights⟩

end Draws

end Engine

end PacketSim
