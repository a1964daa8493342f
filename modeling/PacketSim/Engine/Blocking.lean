import PacketSim.Engine.Routing
import PacketSim.Engine.Firewall

/-!
# Engine — Blocking

What one firewall router does to blocked traffic, wherever it stands.  The routers are those of
`build_demo_sdn_routers` (`Setting.Guarded`); the firewall drops every data packet that would leave
it, so a data packet that has met it stands there still (`Net.Screened`).  If the firewall is on the
way from source to destination, the nodes up to it confine the data packets.

* `applyRules_demo`: the rules of `build_demo_sdn_routers`.
* `Screened.step`: one step of the network.
* `Engine.blocked_stays`: every state of every run.
-/

namespace PacketSim
open Lib Lib.Dijkstra

/-! ### The routers -/

theorem get?_demo {tables : Dict Int (Dict Int Int)} {firewallRouter : Option Int} {delayMs : ℚ}
    {port : ℕ} {v : Int} {r : Router}
    (h : (buildDemoSdnRouters tables firewallRouter delayMs port).get? v = some r) :
    r.routerId = v ∧ tables.get? v = some r.forwardingTable ∧
      r.rules = if some v = firewallRouter then some (firewallRules port) else none := by
  rw [buildDemoSdnRouters, Dict.get?_map] at h
  obtain ⟨table, htable, rfl⟩ := Option.map_eq_some_iff.mp h
  split_ifs
  · exact ⟨rfl, htable, rfl⟩
  · exact ⟨rfl, htable, rfl⟩

/-- Only the firewall has a rule, and it drops the data packets to the blocked port. -/
theorem applyRules_demo {tables : Dict Int (Dict Int Int)} {firewallRouter : Option Int}
    {delayMs : ℚ} {port : ℕ} {v : Int} {r : Router}
    (h : (buildDemoSdnRouters tables firewallRouter delayMs port).get? v = some r) (p : Packet) :
    r.applyRules p = if some v = firewallRouter ∧ p.dstPort = port ∧ p.packetType = .data
      then some ⟨.drop, none⟩ else none := by
  rw [Router.applyRules, (get?_demo h).2.2]
  by_cases hv : some v = firewallRouter
  · by_cases hp : p.dstPort = port ∧ p.packetType = .data
    · simp [hv, firewallRules, hp]
    · rw [if_pos hv, if_neg fun hn => hp hn.2]
      have : ¬ (p.dstPort = port && p.packetType = .data) = true := by simpa using hp
      simp [firewallRules, this]
  · rw [if_neg hv, if_neg fun hn => hv hn.1]
    rfl

/-- The routers carry tables, and the one at `f` drops the data packets of the run. -/
structure Setting.Guarded (s : Setting) (tables : Dict Int (Dict Int Int)) (f : Int) : Prop where
  routed : s.Routed tables
  guard : ∀ r, s.routers.get? f = some r → ∀ p : Packet, p.packetType = .data →
    p.dstPort = s.trafficPort → r.applyRules p = some ⟨.drop, none⟩

theorem routed_demo {s : Setting} {tables : Dict Int (Dict Int Int)} {firewallRouter : Option Int}
    {delayMs : ℚ} {port : ℕ} (hgood : s.graphManager.Good)
    (htables : s.graphManager.buildForwardingTables = .ok tables)
    (hrouters : s.routers = buildDemoSdnRouters tables firewallRouter delayMs port)
    (hs : s.source ∈ s.graphManager.graph.nodes) (hd : s.destination ∈ s.graphManager.graph.nodes)
    (hne : s.source ≠ s.destination) : s.Routed tables where
  good := hgood
  built := htables
  keys := by rw [hrouters, buildDemoSdnRouters, Dict.keys_map, hgood.keys htables]
  router v r hr := by
    rw [hrouters] at hr
    exact ⟨(get?_demo hr).1, (get?_demo hr).2.1⟩
  rules v r p a hr ha := by
    rw [hrouters] at hr
    rw [applyRules_demo hr] at ha
    split_ifs at ha
    exact (Option.some.inj ha).symm
  source := hs
  destination := hd
  distinct := hne

theorem guarded_demo {s : Setting} {tables : Dict Int (Dict Int Int)} {f : Int} {delayMs : ℚ}
    (hgood : s.graphManager.Good) (htables : s.graphManager.buildForwardingTables = .ok tables)
    (hrouters : s.routers = buildDemoSdnRouters tables (some f) delayMs s.trafficPort)
    (hs : s.source ∈ s.graphManager.graph.nodes) (hd : s.destination ∈ s.graphManager.graph.nodes)
    (hne : s.source ≠ s.destination) : s.Guarded tables f where
  routed := routed_demo hgood htables hrouters hs hd hne
  guard r hr p hp hport := by
    rw [hrouters] at hr
    rw [applyRules_demo hr, if_pos ⟨rfl, hport, hp⟩]

/-- The link that a data packet of the run is put on does not start at the firewall. -/
theorem Setting.Guarded.passes {s : Setting} {tables : Dict Int (Dict Int Int)} {f v hop : Int}
    (h : s.Guarded tables f) {r : Router} (hr : s.routers.get? v = some r) {p : Packet}
    (hd : p.packetType = .data) (hport : p.dstPort = s.trafficPort) (hhop : r.Chooses p hop)
    (a b : Int) (hab : Place.link r.routerId hop = .link a b) : a ≠ f := by
  rintro rfl
  cases hab
  rw [(h.routed.router v r hr).1] at h
  have hdrop := h.guard r hr p hd hport
  rcases hhop with ⟨hnone, -⟩ | hsome
  · rw [hdrop] at hnone
    cases hnone
  · rw [hdrop] at hsome
    cases hsome

/-- A firewall on the forwarding path, before its end, confines the data packets. -/
theorem Setting.Guarded.confined {s : Setting} {tables : Dict Int (Dict Int Int)} {f : Int}
    (h : s.Guarded tables f) {moves : ℕ} {p : List Int}
    (hpath : GraphManager.forwardingPath tables s.destination moves s.source = some p)
    (hf : f ∈ p) (hne : f ≠ s.destination) : ∃ S, s.Confined S := by
  obtain ⟨S, hsrc, hdst, hnext⟩ := follow_cut hne hpath hf
  refine ⟨S, hsrc, hdst, fun v hv r hr q hop hq hport hqd hhop => ?_⟩
  have hvf : v ≠ f := (h.routed.router v r hr).1 ▸ h.passes hr hq hport hhop r.routerId hop rfl
  obtain ⟨x, hx, hentry⟩ := hnext v hv hvf
  rcases hhop with ⟨-, hchosen⟩ | hrule
  · rw [h.routed.nextHop hr, hqd, hentry] at hchosen
    cases hchosen
    exact hx
  · cases h.routed.rules v r q _ hr hrule

/-! ### Packets that met the firewall -/

namespace Net

/-- A data packet that has met the firewall stands there, and is not on a link. -/
structure Screened (f : Int) (n : Net) : Prop where
  held : ∀ x ∈ n.held, x.2.packetType = .data → x.2.dstPort = n.setting.trafficPort ∧
    f ∉ x.2.routeHistory.dropLast ∧ ∀ a b, x.1 = .link a b → a ≠ f
  arrived : ∀ p t, .arrived p t ∈ n.history → p.packetType = .data → f ∉ p.routeHistory.dropLast

variable {tables : Dict Int (Dict Int Int)} {m : GraphManager} {f : Int} {n n' : Net}

theorem screened_start {s : Setting} : (start s).Screened f where
  held x hx := by simp [start, atRest] at hx
  arrived p t hp := by simp [start, atRest] at hp

theorem Screened.moved (h : n.Screened f) {held : Multiset (Place × Packet)} {nextPacketId : ℕ}
    {stats : RunStats}
    (hm : ∀ x ∈ held, x.2.packetType = .data → x.2.dstPort = n.setting.trafficPort ∧
      f ∉ x.2.routeHistory.dropLast ∧ ∀ a b, x.1 = .link a b → a ≠ f) :
    Screened f { n with held, nextPacketId, stats } :=
  { h with held := hm }

theorem Screened.transmit (h : n.Screened f) {M : Multiset Event} {k : ℕ} {re : Bool} :
    (Net.transmit { n with pending := M } k re).Screened f := by
  refine ⟨fun x hx hd => ?_, fun p t hp => ?_⟩
  · rw [held_transmit] at hx
    rw [setting_transmit]
    rcases Multiset.mem_cons.mp hx with rfl | hx
    · exact ⟨rfl, by simp [newPacket], nofun⟩
    · exact h.held x hx hd
  · rw [history_transmit] at hp
    exact h.arrived p t ((List.mem_cons.mp hp).resolve_left nofun)

/-- What the receiver sends is no data packet. -/
theorem Screened.receive (h : n.Screened f) (k : ℕ) : (n.receive k).Screened f := by
  by_cases hm : n.setting.mode = .tcp
  · rw [receive_tcp n k hm]
    refine ⟨fun x hx hd => ?_, h.arrived⟩
    rcases Multiset.mem_cons.mp hx with rfl | hx
    · cases hd
    · exact h.held x hx hd
  · rw [receive_udp n k hm]
    exact ⟨h.held, h.arrived⟩

theorem Screened.accept (h : n.Screened f) (k : ℕ) : (n.accept k).Screened f := by
  have harrived : ∀ p t, .arrived p t ∈ HistoryEntry.acknowledged k n.clock :: n.history →
      p.packetType = .data → f ∉ p.routeHistory.dropLast :=
    fun p t hp => h.arrived p t ((List.mem_cons.mp hp).resolve_left nofun)
  rw [accept_eq n k]
  exact ⟨h.held, harrived⟩

/-- A data packet at the end of a link has not met the firewall before. -/
theorem Screened.hop (h : n.Screened f) (hc : n.Follows tables (Packet.OnRoute m)) {a b : Int}
    {p : Packet} (hp : (.link a b, p) ∈ n.held) (hd : p.packetType = .data) :
    p.dstPort = n.setting.trafficPort ∧ f ∉ (p.arriveAt b).routeHistory.dropLast := by
  obtain ⟨hport, hbefore, hlink⟩ := h.held _ hp hd
  obtain ⟨hcourse, hcur, -⟩ := hc.held _ hp
  refine ⟨hport, ?_⟩
  -- the history grows by `b`, and before that it ends with `a`, which is not the firewall
  have hsplit : p.routeHistory = p.routeHistory.dropLast ++ [a] :=
    (List.dropLast_append_getLast? a (hcur ▸ hcourse.ends)).symm
  rw [Packet.arriveAt, List.dropLast_concat]
  intro hf
  rw [hsplit] at hf
  rcases List.mem_append.mp hf with hf | hf
  · exact hbefore hf
  · exact hlink a b rfl (List.mem_singleton.mp hf).symm

theorem Screened.arrive (h : n.Screened f) (hc : n.Follows tables (Packet.OnRoute m)) {a : Int}
    {p : Packet}
    {M : Multiset (Place × Packet)} (hheld : n.held = (.link a p.destination, p) ::ₘ M) :
    (n.arrive M (p.arriveAt p.destination)).Screened f where
  held x hx := h.held x (mem_rest hheld hx)
  arrived q t hq hd := by
    rcases List.mem_cons.mp hq with heq | hq
    · cases heq
      exact (h.hop hc (mem_head hheld) hd).2
    · exact h.arrived q t hq hd

/-- **No step takes a data packet past the firewall.** -/
theorem Screened.step (h : n.Screened f) (hc : n.Follows tables (Packet.OnRoute m))
    (hg : n.setting.Guarded tables f) (hs : Step n n') : n'.Screened f := by
  cases hs with
  | ignore _ _ _ => exact { h with }
  | send _ _ _ _ => exact h.transmit
  | resend _ _ _ _ _ _ _ => exact h.transmit
  | block hheld _ _ => exact h.moved fun x hx => h.held x (mem_rest hheld hx)
  | lose hheld => exact h.moved fun x hx => h.held x (mem_rest hheld hx)
  | launch hheld hr hhop _ =>
      refine h.moved fun x hx hd => ?_
      rcases Multiset.mem_cons.mp hx with rfl | hx
      · obtain ⟨hport, hbefore, -⟩ := h.held _ (mem_head hheld) hd
        exact ⟨hport, hbefore, hg.passes hr hd hport hhop⟩
      · exact h.held x (mem_rest hheld hx) hd
  | @launchTwice v hop _ p M r hheld hr hhop _ =>
      have hp := h.held _ (mem_head hheld)
      have hstart := fun hd => hg.passes hr hd (hp hd).1 hhop
      refine h.moved fun x hx hd => ?_
      rcases Multiset.mem_cons.mp hx with rfl | hx
      · -- the copy has its packet's history, and the run's port
        exact ⟨rfl, (hp hd).2.1, hstart hd⟩
      · rcases Multiset.mem_cons.mp hx with rfl | hx
        · exact ⟨(hp hd).1, (hp hd).2.1, hstart hd⟩
        · exact h.held x (mem_rest hheld hx) hd
  | relay hheld hb =>
      refine h.moved fun x hx hd => ?_
      rcases Multiset.mem_cons.mp hx with rfl | hx
      · obtain ⟨hport, hbefore⟩ := h.hop hc (mem_head hheld) hd
        exact ⟨hport, hbefore, nofun⟩
      · exact h.held x (mem_rest hheld hx) hd
  | receive hheld _ => exact (h.arrive hc hheld).receive _
  | ignoreAck hheld _ _ => exact h.arrive hc hheld
  | accept hheld _ _ _ => exact (h.arrive hc hheld).accept _

theorem Run.screened {s : Setting} (hs : s.Guarded tables f) (h : Run s n) : n.Screened f := by
  induction h with
  | start => exact screened_start
  | tick _ _ _ ih => exact { ih with }
  | step hr _ hstep ih =>
      exact ih.step (hr.follows hs.routed hs.routed.carries_onRoute) (hr.setting ▸ hs) hstep
  | finish _ _ ih => exact { ih with }

end Net

/-! ### Runs of the engine -/

namespace Engine

variable {σ : Type}

theorem wiring_demo {tables : Dict Int (Dict Int Int)} {firewallRouter : Option Int} {delayMs : ℚ}
    {port : ℕ} :
    (buildDemoSdnRouters tables firewallRouter delayMs port).map (fun _ r => r.wiring) =
      buildDemoSdnRouters tables firewallRouter delayMs port := by
  rw [buildDemoSdnRouters, Dict.map_map]
  refine Dict.map_congr fun x _ => ?_
  split_ifs
  · rfl
  · rfl

/-- A router of the engine applies the rules that its wiring has. -/
theorem applyRules_setting {e : Engine σ} {v : Int} {r : Router}
    (hr : e.routers.get? v = some r) :
    ∃ r', e.setting.routers.get? v = some r' ∧ ∀ p, r.applyRules p = r'.applyRules p :=
  ⟨_, router_toNet hr, fun _ => rfl⟩

/-- **Blocked data never gets past the firewall.**  The routers are those of
`build_demo_sdn_routers` over a connected graph with positive delays, the traffic goes to the
blocked port, and the endpoints are distinct.  In every state of every run no data packet is on a
link that starts at the firewall; no data packet, queued, in flight or arrived, has the firewall in
its history but at its end; and no rule applies to an acknowledgement.  If the firewall is on the
forwarding path and is not its end, nothing is delivered. -/
theorem blocked_stays [RandomSource σ] {e₀ e : Engine σ} {tables : Dict Int (Dict Int Int)}
    {f : Int} {delayMs : ℚ} (hgood : e₀.graphManager.Good)
    (htables : e₀.graphManager.buildForwardingTables = .ok tables)
    (hrouters : e₀.setting.routers = buildDemoSdnRouters tables (some f) delayMs e₀.trafficPort)
    (hs : e₀.source ∈ e₀.graphManager.graph.nodes)
    (hd : e₀.destination ∈ e₀.graphManager.graph.nodes) (hne : e₀.source ≠ e₀.destination)
    (h : Run e₀ e) :
    (∀ x ∈ e.inFlightPackets, x.packet.packetType = .data → x.startNode ≠ f) ∧
      (∀ p ∈ e.packets, p.packetType = .data → f ∉ p.routeHistory.dropLast) ∧
      (∀ p t, .arrived p t ∈ e.history → p.packetType = .data → f ∉ p.routeHistory.dropLast) ∧
      (∀ v r, e.routers.get? v = some r → ∀ p : Packet, p.packetType = .ack →
        r.applyRules p = none) ∧
      (∀ moves p,
        GraphManager.forwardingPath tables e₀.destination moves e₀.source = some p → f ∈ p →
          f ≠ e₀.destination → e.deliveredSequences = ∅) := by
  have hguard : e₀.setting.Guarded tables f := guarded_demo hgood htables hrouters hs hd hne
  have hn : e.toNet.Screened f := h.toNet.screened hguard
  refine ⟨fun x hx hdata => (hn.held _ (mem_flight hx) hdata).2.2 _ _ rfl, fun p hp hdata => ?_,
    hn.arrived, fun v r hr p hack => ?_, fun moves p hpath hf hfd => ?_⟩
  · obtain ⟨place, hplace⟩ := mem_packets.mp hp
    exact (hn.held _ hplace hdata).2.1
  · obtain ⟨r', hr', happly⟩ := applyRules_setting hr
    rw [show e.setting = e₀.setting from h.toNet.setting, hrouters] at hr'
    rw [happly, applyRules_demo hr', if_neg]
    rintro ⟨-, -, hdata⟩
    cases hack.symm.trans hdata
  · obtain ⟨S, hS⟩ := hguard.confined hpath hf hfd
    exact (h.toNet.confined hS).delivered

/-- The engine with blocked traffic, and `build_demo_sdn_routers` with the firewall `f`. -/
def guarded (e : Engine σ) (f : Int) : Engine σ :=
  { e with
    trafficPort := 80
    routers := buildDemoSdnRouters (e.graphManager.buildForwardingTables.toOption.getD .empty)
      (some f) processingDelayMs }

/-- In the ring the firewall 4 is on the way from 5 to 2. -/
theorem blocked_stays_ring : ∃ e,
    ((Steady.engine "Redundant Ring" .tcp).guarded 4).ticks [0, 100, 100, 500, 500] = .ok e ∧
      (∀ x ∈ e.inFlightPackets, x.packet.packetType = .data → x.startNode ≠ 4) ∧
      (∀ p ∈ e.packets, p.packetType = .data → 4 ∉ p.routeHistory.dropLast) ∧
      e.deliveredSequences = ∅ := by
  have hstays : ∀ (e₁ e : Engine Steady), e₁.setting.Fit → Run (e₁.guarded 4) e →
      4 ≠ e₁.destination → (GraphManager.forwardingPath
        (e₁.graphManager.buildForwardingTables.toOption.getD .empty) e₁.destination 5 e₁.source) =
          some [5, 4, 2] →
      (∀ x ∈ e.inFlightPackets, x.packet.packetType = .data → x.startNode ≠ 4) ∧
        (∀ p ∈ e.packets, p.packetType = .data → 4 ∉ p.routeHistory.dropLast) ∧
        e.deliveredSequences = ∅ := by
    intro e₁ e hfit hrun hne hpath
    obtain ⟨tables, htables, -⟩ := hfit.wired
    have htables' := eq_ok_getD (x := e₁.graphManager.buildForwardingTables)
      (by rw [show e₁.graphManager.buildForwardingTables = .ok tables from htables]; rfl) .empty
    obtain ⟨hflight, hpackets, -, -, hblocked⟩ :=
      blocked_stays (show (e₁.guarded 4).graphManager.Good from hfit.good) htables' wiring_demo
        hfit.source hfit.destination hfit.distinct hrun
    exact ⟨hflight, hpackets, hblocked 5 _ hpath (by simp) hne⟩
  obtain ⟨e, he⟩ := exists_ok
    (x := ((Steady.engine "Redundant Ring" .tcp).guarded 4).ticks [0, 100, 100, 500, 500])
    (by decide +kernel)
  exact ⟨e, he, hstays _ e (steady_fit (by decide +kernel) .tcp) (.of_ticks (by simp) he)
    (by decide +kernel) (by decide +kernel)⟩

end Engine

end PacketSim
