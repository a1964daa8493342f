import PacketSim.Engine.Totality

/-!
# Engine — Routing

Every packet travels along the tables, original or copy, data or acknowledgement.  What a packet
says of its way, and where it is held (`Place.Along`), hold at injection and are kept by every step
of the network (`Net.Follows.step`): a router chooses the entry of its table; a link takes the
packet to that entry; and a copy begins where its packet stands, with its packet's history.

Of any tables this says that the packet came along links (`Packet.OnRoute`); of tables whose entries
start shortest walks, that it came the shortest way (`Packet.OnCourse`).

* `Packet.OnCourse.of_walk`: a walk that a shortest walk begins with meets no node twice.
* `Packet.OnCourse.arriveAt`: one hop.
* `Engine.run_onCourse`: every state of every run where the routes of least rounded sum start as
  shortest routes do; `Engine.run_rounds`: a run where they do not.
-/

namespace PacketSim
open Lib Lib.Dijkstra

/-- The packet has come from its source to where it stands along links. -/
structure Packet.OnRoute (m : GraphManager) (p : Packet) : Prop where
  source : p.source ∈ m.graph.nodes
  destination : p.destination ∈ m.graph.nodes
  starts : p.routeHistory.head? = some p.source
  ends : p.routeHistory.getLast? = some p.currentNode
  walk : ∃ c, Walk m.graph.delay p.source p.currentNode p.routeHistory c

/-- The packet has come from its source along a walk that a shortest walk to its destination begins
with, and has met no node twice. -/
structure Packet.OnCourse (m : GraphManager) (p : Packet) : Prop where
  source : p.source ∈ m.graph.nodes
  destination : p.destination ∈ m.graph.nodes
  starts : p.routeHistory.head? = some p.source
  ends : p.routeHistory.getLast? = some p.currentNode
  nodup : p.routeHistory.Nodup
  course : ∃ c d, Walk m.graph.delay p.source p.currentNode p.routeHistory c ∧
    Shortest m.graph.delay p.currentNode p.destination d ∧
    Shortest m.graph.delay p.source p.destination (c + d)

namespace Packet

variable {m : GraphManager} {p : Packet}

theorem OnRoute.of_walk (hs : p.source ∈ m.graph.nodes) (hd : p.destination ∈ m.graph.nodes)
    {c : Int} (hwalk : Walk m.graph.delay p.source p.currentNode p.routeHistory c) :
    p.OnRoute m where
  source := hs
  destination := hd
  starts := hwalk.head?
  ends := hwalk.getLast?
  walk := ⟨c, hwalk⟩

theorem OnRoute.current (hm : m.Good) (h : p.OnRoute m) : p.currentNode ∈ m.graph.nodes := by
  obtain ⟨c, hwalk⟩ := h.walk
  exact hm.wf.walk_subset hwalk h.source hwalk.right_mem

theorem OnCourse.of_walk (hm : m.Good) (hs : p.source ∈ m.graph.nodes)
    (hd : p.destination ∈ m.graph.nodes) {c d : Int}
    (hwalk : Walk m.graph.delay p.source p.currentNode p.routeHistory c)
    (hrest : Shortest m.graph.delay p.currentNode p.destination d)
    (hall : Shortest m.graph.delay p.source p.destination (c + d)) : p.OnCourse m where
  source := hs
  destination := hd
  starts := hwalk.head?
  ends := hwalk.getLast?
  nodup := hwalk.nodup_of_shortest hm.positive hrest hall
  course := ⟨c, d, hwalk, hrest, hall⟩

theorem OnCourse.current (hm : m.Good) (h : p.OnCourse m) : p.currentNode ∈ m.graph.nodes := by
  obtain ⟨c, d, hwalk, -, -⟩ := h.course
  exact hm.wf.walk_subset hwalk h.source hwalk.right_mem

/-- A packet at its source. -/
theorem onCourse_new (hm : m.Good) (hs : p.source ∈ m.graph.nodes)
    (hd : p.destination ∈ m.graph.nodes) (hcur : p.currentNode = p.source)
    (hhist : p.routeHistory = [p.source]) : p.OnCourse m := by
  obtain ⟨q, c', hq⟩ := hm.connected _ hs _ hd
  obtain ⟨c, hc⟩ := exists_shortest hm.positive.nonneg hq
  refine .of_walk hm hs hd (c := 0) (d := c) ?_ (hcur ▸ hc) ((zero_add c).symm ▸ hc)
  rw [hcur, hhist]
  exact .single _

/-- **One hop.**  The entry of the table lies on a shortest walk, so the walk so far and the hop
begin one. -/
theorem OnCourse.arriveAt (hm : m.Good) (h : p.OnCourse m) {tables : Dict Int (Dict Int Int)}
    (hdesc : Descends m.graph.delay m.graph.nodes.toFinset
      (GraphManager.tableEntry tables p.destination) p.destination)
    (hne : p.currentNode ≠ p.destination) {b : Int}
    (hb : GraphManager.tableEntry tables p.destination p.currentNode = some b) :
    (p.arriveAt b).OnCourse m := by
  obtain ⟨c, d, hwalk, hrest, hall⟩ := h.course
  obtain ⟨x, -, hx, a, c', ha, hx', hall'⟩ :=
    hdesc p.currentNode (List.mem_toFinset.mpr (h.current hm)) hne
  -- the hop is the table's, and what is left after it is `d` less the link
  obtain rfl := Option.some.inj (hb.symm.trans hx)
  obtain rfl := hrest.unique hall'
  refine .of_walk (p := p.arriveAt b) hm h.source h.destination (hwalk.concat ha) hx' ?_
  rw [add_assoc]
  exact hall

end Packet

/-! ### What packets keep along the tables -/

/-- A property of packets that holds at their sources, of copies and past each hop of the tables. -/
structure Setting.Carries (s : Setting) (tables : Dict Int (Dict Int Int)) (P : Packet → Prop) :
    Prop where
  new : ∀ p : Packet, p.source ∈ s.graphManager.graph.nodes →
    p.destination ∈ s.graphManager.graph.nodes → p.currentNode = p.source →
      p.routeHistory = [p.source] → P p
  copy : ∀ p q : Packet, P p → q.source = p.source → q.destination = p.destination →
    q.currentNode = p.currentNode → q.routeHistory = p.routeHistory → P q
  hop : ∀ (p : Packet) (b : Int), P p → p.currentNode ≠ p.destination →
    GraphManager.tableEntry tables p.destination p.currentNode = some b → P (p.arriveAt b)

/-- Packets stay on links. -/
theorem Setting.Routed.carries_onRoute {s : Setting} {tables : Dict Int (Dict Int Int)}
    (h : s.Routed tables) : s.Carries tables (Packet.OnRoute s.graphManager) where
  new p hs hd hcur hhist := .of_walk hs hd (c := 0) (by rw [hcur, hhist]; exact .single _)
  copy p q hp hs hd hcur hhist := by
    obtain ⟨c, hwalk⟩ := hp.walk
    exact .of_walk (c := c) (hs ▸ hp.source) (hd ▸ hp.destination) (by rwa [hs, hcur, hhist])
  hop p b hp hne hb := by
    obtain ⟨x, a, hx, ha, -⟩ := h.entry (hp.current h.good) hp.destination hne
    obtain rfl := Option.some.inj (hb.symm.trans hx)
    obtain ⟨c, hwalk⟩ := hp.walk
    exact .of_walk (p := p.arriveAt b) hp.source hp.destination (hwalk.concat ha)

/-- Where the tables start shortest walks, packets stay on course. -/
theorem Setting.Routed.carries_onCourse {s : Setting} {tables : Dict Int (Dict Int Int)}
    (h : s.Routed tables) (hstarts : s.graphManager.StartsShortest) :
    s.Carries tables (Packet.OnCourse s.graphManager) where
  new p hs hd hcur hhist := Packet.onCourse_new h.good hs hd hcur hhist
  copy p q hp hs hd hcur hhist := by
    obtain ⟨c, d, hwalk, hrest, hall⟩ := hp.course
    exact .of_walk (c := c) (d := d) h.good (hs ▸ hp.source) (hd ▸ hp.destination)
      (by rwa [hs, hcur, hhist]) (by rwa [hcur, hd]) (by rwa [hs, hd])
  hop p b hp hne hb := hp.arriveAt h.good
    (GraphManager.descends_of_built h.good.wf h.good.positive hstarts h.built hp.destination) hne hb

/-- The place is on the packet's way: the queue of the node where it stands, or the link from there
to the next node of the tables. -/
def Place.Along (tables : Dict Int (Dict Int Int)) (p : Packet) : Place → Prop
  | .queue v => p.currentNode = v ∧ v ≠ p.destination
  | .link a b => p.currentNode = a ∧ a ≠ p.destination ∧
      GraphManager.tableEntry tables p.destination a = some b

namespace Net

/-- The packets are along the tables, and have kept what is carried. -/
structure Follows (tables : Dict Int (Dict Int Int)) (P : Packet → Prop) (n : Net) : Prop where
  routed : n.setting.Routed tables
  carries : n.setting.Carries tables P
  held : ∀ x ∈ n.held, P x.2 ∧ x.1.Along tables x.2
  arrived : ∀ p t, .arrived p t ∈ n.history → P p ∧ p.currentNode = p.destination

variable {tables : Dict Int (Dict Int Int)} {P : Packet → Prop} {n n' : Net}

theorem follows_start {s : Setting} (h : s.Routed tables) (hP : s.Carries tables P) :
    (start s).Follows tables P where
  routed := h
  carries := hP
  held x hx := by simp [start, atRest] at hx
  arrived p t hp := by simp [start, atRest] at hp

/-- Packets may move along their ways, and be copied there. -/
theorem Follows.moved (h : n.Follows tables P) {held : Multiset (Place × Packet)}
    {nextPacketId : ℕ} {stats : RunStats} (hm : ∀ x ∈ held, P x.2 ∧ x.1.Along tables x.2) :
    Follows tables P { n with held, nextPacketId, stats } :=
  { h with held := hm }

theorem Follows.transmit (h : n.Follows tables P) {M : Multiset Event} {k : ℕ} {re : Bool} :
    (Net.transmit { n with pending := M } k re).Follows tables P := by
  refine ⟨by rw [setting_transmit]; exact h.routed, by rw [setting_transmit]; exact h.carries,
    fun x hx => ?_, fun p t hp => ?_⟩
  · rw [held_transmit] at hx
    rcases Multiset.mem_cons.mp hx with rfl | hx
    · exact ⟨h.carries.new _ h.routed.source h.routed.destination rfl rfl, rfl, h.routed.distinct⟩
    · exact h.held x hx
  · rw [history_transmit] at hp
    exact h.arrived p t ((List.mem_cons.mp hp).resolve_left nofun)

theorem Follows.receive (h : n.Follows tables P) (k : ℕ) : (n.receive k).Follows tables P := by
  by_cases hm : n.setting.mode = .tcp
  · rw [receive_tcp n k hm]
    refine ⟨h.routed, h.carries, fun x hx => ?_, h.arrived⟩
    rcases Multiset.mem_cons.mp hx with rfl | hx
    · exact ⟨h.carries.new _ h.routed.destination h.routed.source rfl rfl, rfl,
        h.routed.distinct.symm⟩
    · exact h.held x hx
  · rw [receive_udp n k hm]
    exact ⟨h.routed, h.carries, h.held, h.arrived⟩

theorem Follows.accept (h : n.Follows tables P) (k : ℕ) : (n.accept k).Follows tables P := by
  have harrived : ∀ p t, .arrived p t ∈ HistoryEntry.acknowledged k n.clock :: n.history →
      P p ∧ p.currentNode = p.destination :=
    fun p t hp => h.arrived p t ((List.mem_cons.mp hp).resolve_left nofun)
  rw [accept_eq n k]
  exact ⟨h.routed, h.carries, h.held, harrived⟩

/-- A packet on a link reaches the other end. -/
theorem Follows.hop (h : n.Follows tables P) {a b : Int} {p : Packet}
    (hp : (.link a b, p) ∈ n.held) : P (p.arriveAt b) := by
  obtain ⟨hP, hcur, hne, hentry⟩ := h.held _ hp
  exact h.carries.hop p b hP (hcur ▸ hne) (hcur ▸ hentry)

theorem Follows.arrive (h : n.Follows tables P) {a : Int} {p : Packet}
    {M : Multiset (Place × Packet)} (hheld : n.held = (.link a p.destination, p) ::ₘ M) :
    (n.arrive M (p.arriveAt p.destination)).Follows tables P where
  routed := h.routed
  carries := h.carries
  held x hx := h.held x (mem_rest hheld hx)
  arrived q t hq := by
    rcases List.mem_cons.mp hq with heq | hq
    · cases heq
      exact ⟨h.hop (mem_head hheld), rfl⟩
    · exact h.arrived q t hq

/-- What a router chooses is the entry of its table. -/
theorem Follows.chosen (h : n.Follows tables P) {v hop : Int} {p : Packet} {r : Router}
    (hr : n.setting.routers.get? v = some r) (hp : (.queue v, p) ∈ n.held)
    (hhop : r.Chooses p hop) : P p ∧ (Place.link r.routerId hop).Along tables p := by
  obtain ⟨hP, hcur, hne⟩ := h.held _ hp
  have hid : r.routerId = v := (h.routed.router v r hr).1
  rcases hhop with ⟨-, hnext⟩ | hrule
  · exact ⟨hP, hid ▸ hcur, hid ▸ hne, hid ▸ (h.routed.nextHop hr).mp hnext⟩
  · cases h.routed.rules v r p _ hr hrule

/-- **Every step keeps packets along the tables.** -/
theorem Follows.step (h : n.Follows tables P) (hs : Step n n') : n'.Follows tables P := by
  cases hs with
  | ignore _ _ _ => exact { h with }
  | send _ _ _ _ => exact h.transmit
  | resend _ _ _ _ _ _ _ => exact h.transmit
  | block hheld _ _ => exact h.moved fun x hx => h.held x (mem_rest hheld hx)
  | lose hheld => exact h.moved fun x hx => h.held x (mem_rest hheld hx)
  | launch hheld hr hhop _ =>
      have hnext := h.chosen hr (mem_head hheld) hhop
      refine h.moved fun x hx => ?_
      rcases Multiset.mem_cons.mp hx with rfl | hx
      · exact hnext
      · exact h.held x (mem_rest hheld hx)
  | @launchTwice v hop _ p M r hheld hr hhop _ =>
      have hnext := h.chosen hr (mem_head hheld) hhop
      refine h.moved fun x hx => ?_
      rcases Multiset.mem_cons.mp hx with rfl | hx
      · -- the copy stands where its packet stands, and has its history
        exact ⟨h.carries.copy p _ hnext.1 rfl rfl hnext.2.1.symm rfl, rfl, hnext.2.2⟩
      · rcases Multiset.mem_cons.mp hx with rfl | hx
        · exact hnext
        · exact h.held x (mem_rest hheld hx)
  | relay hheld hb =>
      have hhop := h.hop (mem_head hheld)
      refine h.moved fun x hx => ?_
      rcases Multiset.mem_cons.mp hx with rfl | hx
      · exact ⟨hhop, rfl, hb⟩
      · exact h.held x (mem_rest hheld hx)
  | receive hheld _ => exact (h.arrive hheld).receive _
  | ignoreAck hheld _ _ => exact h.arrive hheld
  | accept hheld _ _ _ => exact (h.arrive hheld).accept _

theorem Run.follows {s : Setting} (hs : s.Routed tables) (hP : s.Carries tables P)
    (h : Run s n) : n.Follows tables P := by
  induction h with
  | start => exact follows_start hs hP
  | tick _ _ _ ih => exact { ih with }
  | step _ _ hs ih => exact ih.step hs
  | finish _ _ ih => exact { ih with }

end Net

/-! ### Runs of the engine -/

namespace Engine

variable {σ : Type}

/-- The link of a flight, and the entry of the table at its start. -/
theorem along_link {e : Engine σ} {tables : Dict Int (Dict Int Int)}
    (h : e.toNet.Follows tables (Packet.OnCourse e.graphManager)) {a b : Int} {p : Packet}
    (hp : (.link a b, p) ∈ e.toNet.held) :
    p.currentNode = a ∧ (∃ c, e.graphManager.graph.delay a b = some c) ∧
      ∃ r, e.routers.get? a = some r ∧ r.nextHop p.destination = .ok b := by
  obtain ⟨hcourse, hcur, hne, hentry⟩ := h.held _ hp
  have ha : a ∈ e.graphManager.graph.nodes := hcur ▸ hcourse.current h.routed.good
  obtain ⟨x, c, hx, hc, -⟩ := h.routed.entry ha hcourse.destination hne
  obtain rfl := Option.some.inj (hentry.symm.trans hx)
  have hkeys : a ∈ e.routers.keys := by
    have := h.routed.keys ▸ ha
    rwa [show e.toNet.setting.routers = e.routers.map fun _ r => r.wiring from rfl,
      Dict.keys_map] at this
  obtain ⟨r, hr⟩ := Dict.mem_keys.mp hkeys
  exact ⟨hcur, ⟨c, hc⟩, r, hr, (h.routed.nextHop (router_toNet hr)).mpr hentry⟩

/-- A packet on course that stands at its destination has come the shortest way. -/
theorem course_arrived {m : GraphManager} (hm : m.Good) {p : Packet} (h : p.OnCourse m)
    (hp : p.currentNode = p.destination) :
    p.routeHistory.length - 1 ≤ m.graph.nodes.length - 1 ∧
      ∃ c, Walk m.graph.delay p.source p.destination p.routeHistory c ∧
        ∀ q c', Walk m.graph.delay p.source p.destination q c' → c ≤ c' := by
  obtain ⟨c, d, hwalk, hrest, hall⟩ := h.course
  have hlen : p.routeHistory.length ≤ m.graph.nodes.length :=
    List.Subperm.length_le (h.nodup.subperm (hm.wf.walk_subset hwalk h.source))
  rw [hp] at hwalk hrest
  obtain rfl := hrest.unique (shortest_self hm.positive.nonneg)
  rw [add_zero] at hall
  exact ⟨Nat.sub_le_sub_right hlen 1, c, hwalk, hall.2⟩

/-- Every packet travels along a shortest path.  A queued packet stands at its router, which is not
its destination; a packet in flight stands at the start of a link, which leads to the entry of the
table there; the history of each of them is a walk from its source to where it stands, with no
node twice, whose delays and the least delay from there add up to the least delay from source to
destination; and a packet that arrived has crossed at most `|nodes| - 1` links, on a route of least
total delay. -/
structure TravelsShortest (e : Engine σ) : Prop where
  queued : ∀ v r, e.routers.get? v = some r → ∀ p ∈ r.queue,
    p.currentNode = v ∧ v ≠ p.destination ∧ p.OnCourse e.graphManager
  flying : ∀ f ∈ e.inFlightPackets, f.packet.currentNode = f.startNode ∧
    (∃ c, e.graphManager.graph.delay f.startNode f.endNode = some c) ∧
    (∃ r, e.routers.get? f.startNode = some r ∧ r.nextHop f.packet.destination = .ok f.endNode) ∧
    f.packet.OnCourse e.graphManager
  arrived : ∀ p t, .arrived p t ∈ e.history →
    p.routeHistory.length - 1 ≤ e.graphManager.graph.nodes.length - 1 ∧
    ∃ c, Walk e.graphManager.graph.delay p.source p.destination p.routeHistory c ∧
      ∀ q c', Walk e.graphManager.graph.delay p.source p.destination q c' → c ≤ c'

/-- **Every packet travels along a shortest path**, in every state of every run over a connected
graph with positive delays, between distinct endpoints, if the routes of least rounded sum start as
shortest routes do. -/
theorem run_onCourse [RandomSource σ] {e₀ e : Engine σ} (h₀ : e₀.setting.Fit)
    (hstarts : e₀.graphManager.StartsShortest) (h : Run e₀ e) : e.TravelsShortest := by
  obtain ⟨tables, hrouted⟩ := h₀.routed
  have hset : e.setting = e₀.setting := h.toNet.setting
  have hmanager : e₀.graphManager = e.graphManager := (congrArg Setting.graphManager hset).symm
  have hn : e.toNet.Follows tables (Packet.OnCourse e.graphManager) :=
    hmanager ▸ h.toNet.follows hrouted (hrouted.carries_onCourse hstarts)
  refine ⟨fun v r hr p hp => ?_, fun f hf => ?_, fun p t hp => ?_⟩
  · obtain ⟨hcourse, hcur, hne⟩ := hn.held _ (mem_queue hr hp)
    exact ⟨hcur, hne, hcourse⟩
  · obtain ⟨hcur, hedge, hhop⟩ := along_link hn (mem_flight hf)
    exact ⟨hcur, hedge, hhop, (hn.held _ (mem_flight hf)).1⟩
  · obtain ⟨hcourse, hcur⟩ := hn.arrived p t hp
    exact course_arrived hn.routed.good hcourse hcur

theorem run_onCourse_ring : ∃ e,
    (Steady.engine "Redundant Ring" .tcp).ticks [0, 100, 100, 100] = .ok e ∧
      e.TravelsShortest := by
  obtain ⟨e, he⟩ := exists_ok (x := (Steady.engine "Redundant Ring" .tcp).ticks [0, 100, 100, 100])
    (by decide +kernel)
  have hname : "Redundant Ring" ∈ GraphManager.getTopologyNames := by decide +kernel
  have hfit := steady_fit hname .tcp
  have hsetup : (Steady.fresh .tcp).setupTopology (some "Redundant Ring") =
      .ok (Steady.engine "Redundant Ring" .tcp) := Steady.setup_eq (by decide +kernel)
  obtain ⟨spec, hspec, hpreset⟩ := (setupTopology_preset hsetup).1.preset
  have hstarts : (Steady.engine "Redundant Ring" .tcp).graphManager.StartsShortest := by
    have hgood := GraphManager.preset_good hspec
    rw [hpreset]
    exact (GraphManager.preset_small hspec).startsShortest hgood.wf hgood.positive
  exact ⟨e, he, run_onCourse hfit hstarts (.of_ticks (by simp) he)⟩

/-! ### A run that is not shortest -/

/-- An engine that holds `wide`. -/
def wideFresh : Engine Steady := { graphManager := .wide, random := {} }

/-- The same, set up. -/
def wideEngine : Engine Steady := wideFresh.setupTopology.toOption.getD wideFresh

theorem wideEngine_fit : wideEngine.setting.Fit ∧ wideEngine.graphManager = .wide := by
  have hgood : GraphManager.wide.Good := ⟨GraphManager.wf_createGraph _ _ _,
    GraphManager.wide_connected.1, GraphManager.wide_connected.2⟩
  obtain ⟨e, he, hfit, -⟩ := setupTopology_total (e := wideFresh) none rfl hgood
    (exists_ok (by decide +kernel)) (by decide +kernel) (by decide +kernel) (by decide +kernel)
  have hwide : wideEngine = e := by rw [wideEngine, he]; rfl
  simp only [setupTopology, bind_eq_ok, leaving_eq_ok] at he
  obtain ⟨m, hm, e₁, h₁, he⟩ := he
  obtain ⟨tables, -, rfl⟩ := rebuildRouters_eq_ok.mp h₁
  cases hm
  cases he
  exact ⟨hwide ▸ hfit, hwide ▸ rfl⟩

/-- Between nodes that no link joins, a walk takes two. -/
theorem two_le_of_apart {m : GraphManager} (hpos : m.graph.PositiveDelays) {s t c : Int}
    {p : List Int} (hne : s ≠ t) (hno : m.graph.delay s t = none)
    (h : Walk m.graph.delay s t p c) : 2 ≤ c := by
  cases h with
  | single => exact absurd rfl hne
  | cons ha t =>
      have h₁ := hpos _ _ _ ha
      cases t with
      | single => rw [hno] at ha; cases ha
      | cons hb t =>
          have h₂ := hpos _ _ _ hb
          have h₃ := t.nonneg hpos.nonneg
          omega

/-- **A run that is not shortest.**  On `wide`, from 0 to 4, a packet goes to 1 first. -/
theorem run_rounds : wideEngine.setting.Fit ∧
    ∃ e, wideEngine.ticks [2 ^ 53 + 1000] = .ok e ∧ ¬ e.TravelsShortest := by
  obtain ⟨hfit, hwide⟩ := wideEngine_fit
  obtain ⟨e, he, hcheck⟩ := exists_ok_and (x := wideEngine.ticks [2 ^ 53 + 1000])
    (f := fun e => (e.routers.get? 1).any fun r => r.queue.any fun p =>
      p.source = 0 && p.destination = 4 && p.routeHistory = [0, 1]) (by decide +kernel)
  refine ⟨hfit, e, he, fun h => ?_⟩
  have hmanager : e.graphManager = .wide := by
    have hrun : Run wideEngine e := .of_ticks (by norm_num) he
    exact (congrArg Setting.graphManager hrun.toNet.setting).trans hwide
  obtain ⟨r, hr, hcheck⟩ := (Option.any_eq_true ..).mp hcheck
  obtain ⟨p, hp, hcheck⟩ := List.any_eq_true.mp hcheck
  simp only [Bool.and_eq_true, decide_eq_true_eq] at hcheck
  obtain ⟨⟨hsrc, hdst⟩, hhist⟩ := hcheck
  obtain ⟨hcur, -, hcourse⟩ := h.queued 1 r hr p hp
  obtain ⟨c, d, hwalk, ⟨⟨q, hrest⟩, -⟩, -, hall⟩ := hcourse.course
  rw [hmanager, hsrc, hcur, hhist] at hwalk
  rw [hmanager, hcur, hdst] at hrest
  rw [hmanager, hsrc, hdst] at hall
  -- the rest of the way weighs at least 2, but by 3 the whole way weighs `2 ^ 53 + 1`
  have hlink : Walk GraphManager.wide.graph.delay 0 1 [0, 1] (2 ^ 53 + 0) :=
    .cons (by decide +kernel) (.single 1)
  have hshort : Walk GraphManager.wide.graph.delay 0 4 [0, 3, 4] (2 ^ 53 + (1 + 0)) :=
    .cons (by decide +kernel) (.cons (by decide +kernel) (.single 4))
  have htwo := two_le_of_apart GraphManager.wide_connected.1 (by decide) (by decide +kernel) hrest
  have hle := hall _ _ hshort
  rw [hwalk.unique hlink] at hle
  omega

end Engine

end PacketSim
