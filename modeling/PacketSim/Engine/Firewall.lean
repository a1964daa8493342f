import PacketSim.Engine.Configuration

/-!
# Engine — Firewall

Which data packets the firewall stops.  A set of nodes *confines* the run if it holds the source, no
router in it sends a data packet on to a node outside, and the destination is outside
(`Setting.Confined`).  Then no step of the network takes a data packet out of the set
(`Confined.step`), and nothing is ever delivered (`Run.confined`).

With SDN on and blocked traffic, the nodes of the route up to the firewall are such a set, in the
bottleneck and in the ring.  In the campus the route does not meet the firewall.

* `firewall_blocks_iff`: the presets in which the firewall blocks the blocked traffic.
-/

namespace PacketSim
open Lib

/-- The nodes of `S` confine the data packets of the run. -/
structure Setting.Confined (s : Setting) (S : List Int) : Prop where
  source : s.source ∈ S
  destination : s.destination ∉ S
  hop : ∀ v ∈ S, ∀ r, s.routers.get? v = some r → ∀ p hop, p.packetType = .data →
    p.dstPort = s.trafficPort → p.destination = s.destination → r.Chooses p hop → hop ∈ S

/-- The packet is in the set, or on the way to a node of it. -/
def Place.In (S : List Int) : Place → Prop
  | .queue v => v ∈ S
  | .link _ b => b ∈ S

namespace Net

/-- The data packets are in the set. -/
structure Confined (n : Net) (S : List Int) : Prop where
  setting : n.setting.Confined S
  held : ∀ x ∈ n.held, x.2.packetType = .data → x.1.In S ∧
    x.2.dstPort = n.setting.trafficPort ∧ x.2.destination = n.setting.destination
  delivered : n.delivered = ∅

theorem confined_start {s : Setting} {S : List Int} (h : s.Confined S) : (start s).Confined S where
  setting := h
  held x hx := by simp [start, atRest] at hx
  delivered := rfl

/-- Packets may move within the set, and be copied there. -/
theorem Confined.moved {n : Net} {S : List Int} (h : n.Confined S)
    {held : Multiset (Place × Packet)} {nextPacketId : ℕ} {stats : RunStats}
    (hm : ∀ x ∈ held, x.2.packetType = .data → x.1.In S ∧
      x.2.dstPort = n.setting.trafficPort ∧ x.2.destination = n.setting.destination) :
    Confined { n with held, nextPacketId, stats } S :=
  { h with held := hm }

theorem Confined.transmit {n : Net} {S : List Int} {M : Multiset Event} {k : ℕ} {re : Bool}
    (h : n.Confined S) : (Net.transmit { n with pending := M } k re).Confined S := by
  refine ⟨by rw [setting_transmit]; exact h.setting, fun x hx hd => ?_, ?_⟩
  · rw [held_transmit] at hx
    rw [setting_transmit]
    rcases Multiset.mem_cons.mp hx with rfl | hx
    · exact ⟨h.setting.source, rfl, rfl⟩
    · exact h.held x hx hd
  · rw [delivered_transmit]
    exact h.delivered

theorem Confined.arrive {n : Net} {S : List Int} {x : Place × Packet}
    {M : Multiset (Place × Packet)} {p : Packet} (h : n.Confined S) (hheld : n.held = x ::ₘ M) :
    (n.arrive M p).Confined S :=
  { h with held := fun y hy => h.held y (mem_rest hheld hy) }

theorem Confined.accept {n : Net} {S : List Int} (h : n.Confined S) (k : ℕ) :
    (n.accept k).Confined S := by
  rw [accept_eq n k]
  exact { h with }

/-- **No step takes a data packet out of the set.** -/
theorem Confined.step {n n' : Net} {S : List Int} (h : n.Confined S) (hs : Step n n') :
    n'.Confined S := by
  cases hs with
  | ignore _ _ _ => exact { h with }
  | send _ _ _ _ => exact h.transmit
  | resend _ _ _ _ _ _ _ => exact h.transmit
  | block hheld _ _ => exact h.moved fun x hx => h.held x (mem_rest hheld hx)
  | lose hheld => exact h.moved fun x hx => h.held x (mem_rest hheld hx)
  | launch hheld hr hhop _ =>
      refine h.moved fun x hx hd => ?_
      rcases Multiset.mem_cons.mp hx with rfl | hx
      · obtain ⟨hin, hport, hdst⟩ := h.held _ (mem_head hheld) hd
        exact ⟨h.setting.hop _ hin _ hr _ _ hd hport hdst hhop, hport, hdst⟩
      · exact h.held x (mem_rest hheld hx) hd
  | @launchTwice _ _ _ p _ _ hheld hr hhop _ =>
      refine h.moved fun x hx hd => ?_
      have hp := h.held _ (mem_head hheld)
      rcases Multiset.mem_cons.mp hx with rfl | hx
      · obtain ⟨hin, hport, hdst⟩ := hp hd
        exact ⟨h.setting.hop _ hin _ hr p _ hd hport hdst hhop, rfl, hdst⟩
      · rcases Multiset.mem_cons.mp hx with rfl | hx
        · obtain ⟨hin, hport, hdst⟩ := hp hd
          exact ⟨h.setting.hop _ hin _ hr p _ hd hport hdst hhop, hport, hdst⟩
        · exact h.held x (mem_rest hheld hx) hd
  | relay hheld _ =>
      refine h.moved fun x hx hd => ?_
      have hp := h.held _ (mem_head hheld)
      rcases Multiset.mem_cons.mp hx with rfl | hx
      · exact hp hd
      · exact h.held x (mem_rest hheld hx) hd
  | receive hheld hp =>
      -- the link would lead to the destination, which is outside
      obtain ⟨hin, -, hdst⟩ := h.held _ (mem_head hheld) hp
      exact absurd (hdst ▸ hin) h.setting.destination
  | ignoreAck hheld _ _ => exact h.arrive hheld
  | accept hheld _ _ _ => exact (h.arrive hheld).accept _

theorem Run.confined {s : Setting} {S : List Int} {n : Net} (hs : s.Confined S) (h : Run s n) :
    n.Confined S := by
  induction h with
  | start => exact confined_start hs
  | tick _ _ _ ih => exact { ih with }
  | step _ _ hs ih => exact ih.step hs
  | finish _ _ ih => exact { ih with }

end Net

/-! ### The firewall's set -/

/-- The graph's default source is in `S`, the destination is not, and every table in `S`, but that
of the firewall, leads from `S` to `S`. -/
def GraphManager.screens (m : GraphManager) (firewallRouter : Option Int) (S : List Int) : Bool :=
  m.defaultSource ∈ S && m.defaultDestination ∉ S &&
    m.buildForwardingTables.toOption.all fun tables => S.all fun v =>
      firewallRouter = some v ||
        ((tables.get? v).bind (·.get? m.defaultDestination)).all (· ∈ S)

/-- The firewall drops the blocked data packets, whatever its table. -/
theorem applyRules_firewall {id : Int} {table : Dict Int Int} {p : Packet}
    (hd : p.packetType = .data) (hport : p.dstPort = 80) :
    (routerAt true (some id) id table).applyRules p = some ⟨.drop, none⟩ := by
  simp [Router.applyRules, routerAt, firewallRules, hd, hport]

theorem Setting.confined_of_screens {s : Setting} {S : List Int} (hw : s.Wired)
    (hsdn : s.useSdn = true) (hport : s.trafficPort = 80)
    (hsrc : s.source = s.graphManager.defaultSource)
    (hdst : s.destination = s.graphManager.defaultDestination)
    (h : s.graphManager.screens (firewallNodes.get? s.graphManager.currentTopologyName) S = true) :
    s.Confined S := by
  obtain ⟨tables, htables, hrouters⟩ := hw
  simp only [GraphManager.screens, htables, Except.toOption, Option.all_some, Bool.and_eq_true,
    decide_eq_true_eq, List.all_eq_true, Bool.or_eq_true] at h
  obtain ⟨⟨hin, hout⟩, hall⟩ := h
  refine ⟨hsrc ▸ hin, hdst ▸ hout, fun v hv r hr p hop hd hp hpd hchoose => ?_⟩
  rw [hrouters, routersFrom, Dict.get?_map, hsdn] at hr
  obtain ⟨table, htable, rfl⟩ := Option.map_eq_some_iff.mp hr
  rcases hall v hv with hfw | hnext
  · rw [hfw] at hchoose
    rcases hchoose with ⟨hnone, -⟩ | hsome
    · rw [applyRules_firewall hd (hp.trans hport)] at hnone
      cases hnone
    · rw [applyRules_firewall hd (hp.trans hport)] at hsome
      cases hsome
  · rcases hchoose with ⟨-, hnext'⟩ | hsome
    · have hentry : table.get? s.graphManager.defaultDestination = some hop := by
        rw [← hdst, ← hpd]
        simp only [Router.nextHop, routerAt] at hnext'
        split at hnext'
        · cases hnext'
          assumption
        · cases hnext'
      rw [htable, Option.bind_some, hentry, Option.all_some] at hnext
      exact of_decide_eq_true hnext
    · have := applyRules_routerAt hsome
      cases this

/-! ### Sessions -/

namespace Engine

variable {σ : Type}

/-- The engine is at rest or in a run. -/
def Reached (e : Engine σ) : Prop :=
  e.toNet = Net.atRest e.setting ∨ Net.Run e.setting e.toNet

theorem update_reached [RandomSource σ] {e e' : Engine σ} {dt : ℚ} (hdt : 0 ≤ dt)
    (h : e.update dt = .ok e') (hr : e.Reached) : e'.Reached := by
  cases hrun : e.running with
  | false =>
      rw [update_idle dt hrun] at h
      cases h
      exact hr
  | true =>
      rcases hr with hrest | hr
      · have : (Net.atRest e.setting).running = true := hrest ▸ hrun
        cases this
      · have := update_run hdt h hr
        rw [← update_setting h] at this
        exact .inr this

theorem reached_resetRunState (e : Engine σ) : e.resetRunState.Reached :=
  .inl (by rw [resetRunState_setting]; exact resetRunState_toNet e)

theorem setupTopology_reached {e e' : Engine σ} {name : Option String}
    (h : e.setupTopology name = .ok e') : e'.Reached := by
  simp only [setupTopology, bind_eq_ok, leaving_eq_ok] at h
  obtain ⟨m, -, e₁, -, h⟩ := h
  cases h
  exact reached_resetRunState _

theorem perform_reached [RandomSource σ] {e e' : Engine σ} {op : Operation} (hop : op.Forward)
    (h : e.perform op = .ok e') (hr : e.Reached) : e'.Reached := by
  cases op with
  | startRun =>
      have hn := startRun_toNet h
      have hs : e'.setting = e.setting := congrArg Net.setting hn
      exact .inr (by rw [hn, hs]; exact .start)
  | update dt => exact update_reached hop h hr
  | cycleTopology =>
      have h := mapError_eq_ok.mp h
      simp only [cycleTopology, bind_eq_ok, leaving_eq_ok] at h
      obtain ⟨m, -, e₁, -, h⟩ := h
      cases h
      exact reached_resetRunState _
  | toggleSdn =>
      have h := mapError_eq_ok.mp h
      simp only [toggleSdn, bind_eq_ok, leaving_eq_ok] at h
      obtain ⟨e₁, -, h⟩ := h
      cases h
      exact reached_resetRunState _
  | setMode mode => cases h; exact reached_resetRunState _
  | toggleMode => cases h; exact reached_resetRunState _
  | toggleChaos => cases h; exact reached_resetRunState _
  | toggleDuplicates => cases h; exact reached_resetRunState _
  | toggleTrafficProfile => cases h; exact reached_resetRunState _
  | adjustLossRate delta => cases h; exact reached_resetRunState _
  | adjustDelayMultiplier delta => cases h; exact reached_resetRunState _
  | resetRunState keepMode =>
      cases h
      rw [resetRunState_keepMode]
      exact reached_resetRunState _

/-- Every state of a session is at rest or in a run. -/
theorem session_reached [RandomSource σ] {e e' : Engine σ} {ops : List Operation}
    (hops : ∀ op ∈ ops, op.Forward) (h : e.session ops = .ok e') (hr : e.Reached) : e'.Reached :=
  foldlM_invariant (P := Reached) (fun _ op _ hop h hr => perform_reached (hops op hop) h hr) h hr

/-- The nodes of the route up to the firewall. -/
def screen (name : String) : List Int := if name = "Redundant Ring" then [5, 4] else [0, 1, 2]

theorem screens_preset {name : String} {spec : TopologySpec}
    (h : topologyPresets.get? name = some spec) (hne : name ≠ "Campus Backbone") :
    (GraphManager.preset spec).screens (firewallNodes.get? name) (screen name) = true := by
  rcases GraphManager.presets_cases h with ⟨rfl, -⟩ | ⟨rfl, rfl⟩ | ⟨rfl, rfl⟩
  · exact absurd rfl hne
  · decide +kernel
  · decide +kernel

/-- Blocked traffic is not delivered in the bottleneck and the ring, in any state of a session with
SDN on. -/
theorem session_blocked [RandomSource σ] {e₀ e₁ e : Engine σ} {name : String}
    {ops : List Operation} (hname : name ≠ "Campus Backbone")
    (hsetup : e₀.setupTopology (some name) = .ok e₁)
    (hops : ∀ op ∈ ops, op.Forward) (hcycle : .cycleTopology ∉ ops)
    (h : e₁.session ops = .ok e) (hsdn : e.useSdn = true) (hport : e.trafficPort = 80) :
    e.deliveredSequences = ∅ := by
  obtain ⟨hl, hsrc, hdst⟩ := session_preset hsetup hcycle h
  obtain ⟨spec, hspec, hpreset⟩ := hl.preset
  have hconf : e.setting.Confined (screen name) := by
    refine Setting.confined_of_screens hl.wired hsdn hport hsrc hdst ?_
    show e.graphManager.screens (firewallNodes.get? e.graphManager.currentTopologyName) _ = true
    rw [hpreset, GraphManager.preset_name hspec]
    exact screens_preset hspec hname
  rcases session_reached hops h (setupTopology_reached hsetup) with hrest | hrun
  · exact congrArg Net.delivered hrest
  · exact (hrun.confined hconf).delivered

end Engine

/-! ### The presets -/

/-- `SimulationEngine` with SDN on and blocked traffic. -/
def Steady.blocked (mode : Mode) : Engine Steady :=
  { fresh mode with useSdn := true, trafficPort := 80 }

namespace Engine

/-- With SDN on and blocked traffic, nothing is delivered in any session on the preset, whatever the
draws. -/
def Blocks (name : String) : Prop :=
  ∀ (σ : Type) [RandomSource σ] (e₀ e₁ e : Engine σ) (ops : List Operation),
    e₀.setupTopology (some name) = .ok e₁ → (∀ op ∈ ops, op.Forward) → .cycleTopology ∉ ops →
      e₁.session ops = .ok e → e.useSdn = true → e.trafficPort = 80 → e.deliveredSequences = ∅

/-- In the campus the route is 0, 2, 4, 5 and the firewall is at 3. -/
theorem campus_delivers (mode : Mode) : ∃ e₁ e,
    (Steady.blocked mode).setupTopology (some "Campus Backbone") = .ok e₁ ∧
      e₁.session [.startRun, .update 700, .update 700, .update 700] = .ok e ∧ e.useSdn = true ∧
        e.trafficPort = 80 ∧ e.deliveredSequences ≠ ∅ := by
  have hsetup := eq_ok_getD (x := (Steady.blocked mode).setupTopology (some "Campus Backbone"))
    (by cases mode <;> decide +kernel) (Steady.blocked mode)
  obtain ⟨e, he, hcheck⟩ := exists_ok_and (x := (((Steady.blocked mode).setupTopology
      (some "Campus Backbone")).toOption.getD (Steady.blocked mode)).session
        [.startRun, .update 700, .update 700, .update 700])
    (f := fun e => e.useSdn = true ∧ e.trafficPort = 80 ∧ e.deliveredSequences ≠ ∅)
    (by cases mode <;> decide +kernel)
  exact ⟨_, e, hsetup, he, of_decide_eq_true hcheck⟩

theorem not_blocks_campus : ¬ Blocks "Campus Backbone" := by
  intro hall
  obtain ⟨e₁, e, hsetup, h, hsdn, hport, hne⟩ := campus_delivers .udp
  exact hne (hall Steady _ e₁ e _ hsetup (by simp [Operation.Forward]) (by simp) h hsdn hport)

/-- **What the firewall blocks.**  The blocked traffic of a preset, exactly when the preset is not
the campus. -/
theorem firewall_blocks_iff (name : String) : Blocks name ↔ name ≠ "Campus Backbone" := by
  constructor
  · rintro hall rfl
    exact not_blocks_campus hall
  · intro hne σ _ e₀ e₁ e ops hsetup hops hcycle h hsdn hport
    exact session_blocked hne hsetup hops hcycle h hsdn hport

theorem campus_not_blocked : ¬ ∀ name ∈ GraphManager.getTopologyNames, Blocks name :=
  fun hall => not_blocks_campus (hall _ (by decide +kernel))

end Engine

end PacketSim
