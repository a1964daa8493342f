import PacketSim.Engine.Configuration

/-!
# Engine — Placement

Why every lookup finds its key.  Under a sound setting, a packet stands in the queue of a router
that exists and is not its destination, or on a link to a router that exists, and pending events
have distinct ids (`Net.Placed`); every step of the network keeps that (`Placed.step`).  A setting
is sound if its routers are wired to a good graph and the endpoints are distinct nodes of it
(`Setting.Fit.sound`).
-/

namespace PacketSim
open Lib Lib.Dijkstra

/-- The routers can carry a packet from any of them to any other. -/
structure Setting.Sound (s : Setting) : Prop where
  source : s.source ∈ s.routers.keys
  destination : s.destination ∈ s.routers.keys
  distinct : s.source ≠ s.destination
  routerId : ∀ v r, s.routers.get? v = some r → r.routerId = v
  rules : ∀ v r p a, s.routers.get? v = some r → r.applyRules p = some a → a.actionType = .drop
  hop : ∀ v r d, s.routers.get? v = some r → d ∈ s.routers.keys → v ≠ d →
    ∃ hop ∈ s.routers.keys, r.nextHop d = .ok hop ∧ ∃ c, s.graphManager.getEdgeDelay v hop = .ok c

/-- The place suits the packet. -/
def Place.Fits (s : Setting) (p : Packet) : Place → Prop
  | .queue v => v ∈ s.routers.keys ∧ v ≠ p.destination
  | .link _ b => b ∈ s.routers.keys

namespace Net

/-! ### Event ids -/

/-- The pending events have distinct ids, below the next. -/
def Ordered (n : Net) : Prop := Numbered Event.eventId n.pending n.nextEventId

theorem Ordered.pop {n : Net} {M : Multiset Event} {ev : Event} (h : n.Ordered)
    (hev : n.pending = ev ::ₘ M) : Numbered Event.eventId M n.nextEventId := by
  rw [Ordered, hev] at h
  exact h.tail

theorem Ordered.transmit [Clock] {n : Net} {M : Multiset Event} {ev : Event} (h : n.Ordered)
    (hev : n.pending = ev ::ₘ M) (k : ℕ) (re : Bool) :
    (Net.transmit { n with pending := M } k re).Ordered := by
  by_cases hm : n.setting.mode = .tcp
  · rw [transmit_tcp { n with pending := M } k re hm]
    exact (h.pop hev).new rfl
  · rw [transmit_udp { n with pending := M } k re hm]
    exact h.pop hev

theorem Ordered.receive {n : Net} (h : n.Ordered) (k : ℕ) : (n.receive k).Ordered := by
  by_cases hm : n.setting.mode = .tcp
  · rw [receive_tcp n k hm]
    exact h
  · rw [receive_udp n k hm]
    exact h

theorem Ordered.accept [Clock] {n : Net} (h : n.Ordered) (k : ℕ) : (n.accept k).Ordered := by
  by_cases hg : n.setting.packetGoal ≤ k + 1
  · rw [accept_last n k hg]
    exact h
  · rw [accept_next n k hg]
    exact Numbered.new h rfl

theorem Ordered.step [Clock] {n n' : Net} (h : n.Ordered) (hs : Step n n') : n'.Ordered := by
  cases hs with
  | ignore hev => exact h.pop hev
  | send hev => exact h.transmit hev _ _
  | resend hev => exact h.transmit hev _ _
  | @receive a p M =>
      have harrive : (n.arrive M (p.arriveAt p.destination)).Ordered := h
      exact harrive.receive _
  | @accept a p M =>
      have harrive : (n.arrive M (p.arriveAt p.destination)).Ordered := h
      exact harrive.accept _
  | _ => exact h

theorem Ordered.steps [Clock] {n n' : Net} (h : n.Ordered) (hs : Steps n n') : n'.Ordered := by
  induction hs with
  | refl => exact h
  | tail _ hs ih => exact ih.step hs

/-- The events a run starts with have the ids from 1 on. -/
theorem numbered_start [Clock] (s : Setting) :
    Numbered Event.eventId (start s).pending (start s).nextEventId := by
  show Numbered Event.eventId (firstEvents s) (1 + (firstEvents s).card)
  rw [firstEvents]
  split
  · rw [Multiset.card_map, Multiset.card_range]
    exact .range (by exact fun _ => rfl) s.packetGoal
  · exact Numbered.zero.new rfl

/-! ### Places -/

/-- Everything held fits its place, and the events pending are numbered apart. -/
structure Placed (n : Net) : Prop where
  sound : n.setting.Sound
  fits : ∀ x ∈ n.held, x.2.destination ∈ n.setting.routers.keys ∧ x.1.Fits n.setting x.2
  events : Numbered Event.eventId n.pending n.nextEventId

theorem placed_atRest {s : Setting} (h : s.Sound) : (atRest s).Placed where
  sound := h
  fits x hx := by simp [atRest] at hx
  events := .zero

theorem placed_start [Clock] {s : Setting} (h : s.Sound) : (start s).Placed where
  sound := h
  fits x hx := by simp [start, atRest] at hx
  events := numbered_start s

/-- Packets may move to places that suit them, and be copied there. -/
theorem Placed.moved {n : Net} (h : n.Placed) {held : Multiset (Place × Packet)} {nextPacketId : ℕ}
    {stats : RunStats} (hm : ∀ x ∈ held, x.2.destination ∈ n.setting.routers.keys ∧
      x.1.Fits n.setting x.2) : Placed { n with held, nextPacketId, stats } :=
  { h with fits := hm }

theorem Placed.transmit [Clock] {n : Net} {M : Multiset Event} {ev : Event} {k : ℕ} {re : Bool}
    (h : n.Placed) (hev : n.pending = ev ::ₘ M) :
    (Net.transmit { n with pending := M } k re).Placed := by
  have hevents := Ordered.transmit h.events hev k re
  have hfits : ∀ x ∈ (Place.queue n.setting.source, n.newPacket n.setting.source
      n.setting.destination .data k none re) ::ₘ n.held,
      x.2.destination ∈ n.setting.routers.keys ∧ x.1.Fits n.setting x.2 := by
    intro x hx
    rcases Multiset.mem_cons.mp hx with rfl | hx
    · exact ⟨h.sound.destination, h.sound.source, h.sound.distinct⟩
    · exact h.fits x hx
  by_cases hm : n.setting.mode = .tcp
  · rw [transmit_tcp { n with pending := M } k re hm] at hevents ⊢
    exact ⟨h.sound, hfits, hevents⟩
  · rw [transmit_udp { n with pending := M } k re hm] at hevents ⊢
    exact ⟨h.sound, hfits, hevents⟩

theorem Placed.receive {n : Net} (h : n.Placed) (k : ℕ) : (n.receive k).Placed := by
  by_cases hm : n.setting.mode = .tcp
  · rw [receive_tcp n k hm]
    refine ⟨h.sound, fun x hx => ?_, h.events⟩
    rcases Multiset.mem_cons.mp hx with rfl | hx
    · exact ⟨h.sound.source, h.sound.destination, h.sound.distinct.symm⟩
    · exact h.fits x hx
  · rw [receive_udp n k hm]
    exact ⟨h.sound, h.fits, h.events⟩

theorem Placed.accept [Clock] {n : Net} (h : n.Placed) (k : ℕ) : (n.accept k).Placed := by
  have hevents := Ordered.accept h.events k
  by_cases hg : n.setting.packetGoal ≤ k + 1
  · rw [accept_last n k hg] at hevents ⊢
    exact ⟨h.sound, h.fits, hevents⟩
  · rw [accept_next n k hg] at hevents ⊢
    exact ⟨h.sound, h.fits, hevents⟩

theorem Placed.arrive {n : Net} {x : Place × Packet} {M : Multiset (Place × Packet)} {p : Packet}
    (h : n.Placed) (hheld : n.held = x ::ₘ M) : (n.arrive M p).Placed :=
  ⟨h.sound, fun y hy => h.fits y (mem_rest hheld hy), h.events⟩

/-- A router that chooses a hop chooses a router, and there is a link to it. -/
theorem Placed.chosen {n : Net} (h : n.Placed) {v hop : Int} {p : Packet} {r : Router}
    (hr : n.setting.routers.get? v = some r) (hp : (.queue v, p) ∈ n.held)
    (hhop : r.Chooses p hop) : hop ∈ n.setting.routers.keys := by
  rcases hhop with ⟨-, hnext⟩ | hrule
  · obtain ⟨hdst, -, hne⟩ := h.fits _ hp
    obtain ⟨hop', hmem, hnext', -⟩ := h.sound.hop v r p.destination hr hdst hne
    rw [hnext] at hnext'
    cases hnext'
    exact hmem
  · cases h.sound.rules v r p _ hr hrule

/-- **Every step keeps packets and events in their places.** -/
theorem Placed.step [Clock] {n n' : Net} (h : n.Placed) (hs : Step n n') : n'.Placed := by
  cases hs with
  | ignore hev _ _ => exact { h with events := Ordered.pop (n := n) h.events hev }
  | send hev _ _ _ => exact h.transmit hev
  | resend hev _ _ _ _ _ _ => exact h.transmit hev
  | block hheld _ _ => exact h.moved fun x hx => h.fits x (mem_rest hheld hx)
  | lose hheld => exact h.moved fun x hx => h.fits x (mem_rest hheld hx)
  | launch hheld hr hhop _ =>
      have hdst := (h.fits _ (mem_head hheld)).1
      have hmem := h.chosen hr (mem_head hheld) hhop
      refine h.moved fun x hx => ?_
      rcases Multiset.mem_cons.mp hx with rfl | hx
      · exact ⟨hdst, hmem⟩
      · exact h.fits x (mem_rest hheld hx)
  | launchTwice hheld hr hhop _ =>
      have hdst := (h.fits _ (mem_head hheld)).1
      have hmem := h.chosen hr (mem_head hheld) hhop
      refine h.moved fun x hx => ?_
      rcases Multiset.mem_cons.mp hx with rfl | hx
      · exact ⟨hdst, hmem⟩
      · rcases Multiset.mem_cons.mp hx with rfl | hx
        · exact ⟨hdst, hmem⟩
        · exact h.fits x (mem_rest hheld hx)
  | relay hheld hb =>
      obtain ⟨hdst, hmem⟩ := h.fits _ (mem_head hheld)
      refine h.moved fun x hx => ?_
      rcases Multiset.mem_cons.mp hx with rfl | hx
      · exact ⟨hdst, hmem, hb⟩
      · exact h.fits x (mem_rest hheld hx)
  | receive hheld _ => exact (h.arrive hheld).receive _
  | ignoreAck hheld _ _ => exact h.arrive hheld
  | accept hheld _ _ _ => exact (h.arrive hheld).accept _

theorem Placed.tick [Clock] {n : Net} (h : n.Placed) (dt : ℚ) : (n.tick dt).Placed := { h with }

theorem Placed.later [Clock] {n n' : Net} (h : n.Placed) (hs : Later n n') : n'.Placed := by
  induction hs with
  | refl => exact h
  | tail _ hs ih =>
      rcases hs with hs | ⟨dt, -, rfl⟩
      · exact ih.step hs
      · exact ih.tick dt

theorem Placed.steps [Clock] {n n' : Net} (h : n.Placed) (hs : Steps n n') : n'.Placed :=
  h.later (Relation.ReflTransGen.mono (fun _ _ => Or.inl) _ _ hs)

theorem Placed.finish {n : Net} (h : n.Placed) : n.finish.Placed := { h with }

end Net

/-! ### Fit settings -/

/-- The routers have the tables of a good graph, their rules only drop, and the endpoints are
distinct nodes of the graph. -/
structure Setting.Routed (s : Setting) (tables : Dict Int (Dict Int Int)) : Prop where
  good : s.graphManager.Good
  built : s.graphManager.buildForwardingTables = .ok tables
  keys : s.routers.keys = s.graphManager.graph.nodes
  router : ∀ v r, s.routers.get? v = some r →
    r.routerId = v ∧ tables.get? v = some r.forwardingTable
  rules : ∀ v r p a, s.routers.get? v = some r → r.applyRules p = some a → a = ⟨.drop, none⟩
  source : s.source ∈ s.graphManager.graph.nodes
  destination : s.destination ∈ s.graphManager.graph.nodes
  distinct : s.source ≠ s.destination

/-- The entries of the tables are neighbours. -/
theorem Setting.Routed.entry {s : Setting} {tables : Dict Int (Dict Int Int)}
    (h : s.Routed tables) {v d : Int} (hv : v ∈ s.graphManager.graph.nodes)
    (hd : d ∈ s.graphManager.graph.nodes) (hne : v ≠ d) :
    ∃ x a, GraphManager.tableEntry tables d v = some x ∧
      s.graphManager.graph.delay v x = some a ∧ x ∈ s.graphManager.graph.nodes := by
  obtain ⟨x, -, -, a, hx, -, ha, hmem⟩ :=
    GraphManager.chosen_of_built h.good.wf h.good.positive h.built hv hd hne
  exact ⟨x, a, hx, ha, hmem⟩

/-- `next_hop` reads the tables. -/
theorem Setting.Routed.nextHop {s : Setting} {tables : Dict Int (Dict Int Int)}
    (h : s.Routed tables) {v d hop : Int} {r : Router} (hr : s.routers.get? v = some r) :
    r.nextHop d = .ok hop ↔ GraphManager.tableEntry tables d v = some hop := by
  rw [GraphManager.tableEntry, (h.router v r hr).2, Option.bind_some, Router.nextHop]
  cases r.forwardingTable.get? d <;> simp

theorem Setting.Routed.sound {s : Setting} {tables : Dict Int (Dict Int Int)}
    (h : s.Routed tables) : s.Sound where
  source := h.keys ▸ h.source
  destination := h.keys ▸ h.destination
  distinct := h.distinct
  routerId v r hr := (h.router v r hr).1
  rules v r p a hr ha := by rw [h.rules v r p a hr ha]
  hop v r d hr hd hne := by
    have hv : v ∈ s.graphManager.graph.nodes := h.keys ▸ Dict.mem_keys_of_get? hr
    obtain ⟨x, a, hentry, ha, hx⟩ := h.entry hv (h.keys ▸ hd) hne
    exact ⟨x, h.keys ▸ hx, (h.nextHop hr).mpr hentry, a, GraphManager.getEdgeDelay_eq_ok.mpr ha⟩

/-- The routers are wired to a good graph, and the endpoints are distinct nodes of it. -/
structure Setting.Fit (s : Setting) : Prop where
  good : s.graphManager.Good
  wired : s.Wired
  source : s.source ∈ s.graphManager.graph.nodes
  destination : s.destination ∈ s.graphManager.graph.nodes
  distinct : s.source ≠ s.destination

theorem Setting.Fit.routed {s : Setting} (h : s.Fit) : ∃ tables, s.Routed tables := by
  obtain ⟨tables, htables, hrouters⟩ := h.wired
  have hget : ∀ v r, s.routers.get? v = some r → ∃ table, tables.get? v = some table ∧
      routerAt s.useSdn (firewallNodes.get? s.graphManager.currentTopologyName) v table = r := by
    intro v r hr
    rw [hrouters, routersFrom, Dict.get?_map] at hr
    exact Option.map_eq_some_iff.mp hr
  refine ⟨tables, h.good, htables, ?_, fun v r hr => ?_, fun v r p a hr ha => ?_, h.source,
    h.destination, h.distinct⟩
  · rw [hrouters, routersFrom, Dict.keys_map, h.good.keys htables]
  · obtain ⟨table, htable, rfl⟩ := hget v r hr
    exact ⟨rfl, htable⟩
  · obtain ⟨table, -, rfl⟩ := hget v r hr
    exact applyRules_routerAt ha

theorem Setting.Fit.sound {s : Setting} (h : s.Fit) : s.Sound :=
  h.routed.elim fun _ hr => hr.sound

end PacketSim
