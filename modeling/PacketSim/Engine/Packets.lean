import PacketSim.Engine.Configuration
import PacketSim.Engine.Ledger
import PacketSim.Lib.Walks

/-!
# Engine — Packets

What the records of a run's packets say.  A packet is made by the sender, by the receiver, or by a
link that repeats another one; it is then carried about with nothing changed but the node it stands
at and its history (`Packet.body`).

* `Net.Made`: the bodies of the packets that a run has made so far.  Every packet in the network,
  and every packet that arrived, has one of them; no two have one id; and a copy agrees with the one
  it was copied from, whatever has become of that since.
* `Net.Tracked`: the history of a packet leads over links from its source to where it stands.
* `Net.Run.known`: no two packets share an id, those that arrived among them.
* `Engine.run_packets`: all of this, in every state of every run.
-/

namespace PacketSim
open Lib History

/-- The packet of an arrival. -/
def HistoryEntry.arrival? : HistoryEntry → Option Packet
  | .arrived p _ => some p
  | _ => none

namespace Packet

/-- The packet without what changes on its way. -/
def body (p : Packet) : Packet := { p with currentNode := 0, routeHistory := [] }

/-- The packet is one that the sender or the receiver makes in a run of `s`, or a copy of such. -/
structure Genuine (s : Setting) (p : Packet) : Prop where
  session : p.sessionId = s.sessionId
  protocol : p.protocol = s.mode
  port : p.dstPort = s.trafficPort
  data : p.packetType = .data → p.source = s.source ∧ p.destination = s.destination ∧
    p.ackFor = none ∧ p.sequence < s.packetGoal
  ack : p.packetType = .ack → s.mode = .tcp ∧ p.source = s.destination ∧
    p.destination = s.source ∧ p.ackFor = some p.sequence ∧ p.retransmission = false
  resent : p.retransmission = true → s.mode = .tcp
  copy : p.duplicate = true ↔ p.duplicatedFrom ≠ none
  older : ∀ j, p.duplicatedFrom = some j → j < p.packetId

/-- The history of the packet starts at its source, ends at the node it stands at, and goes from one
node to the next over a link. -/
structure Tracked (m : GraphManager) (p : Packet) : Prop where
  starts : p.routeHistory.head? = some p.source
  ends : p.routeHistory.getLast? = some p.currentNode
  walk : ∃ c, Walk m.graph.delay p.source p.currentNode p.routeHistory c

/-- The packets carry the same message between the same nodes. -/
structure SameMessage (p q : Packet) : Prop where
  source : p.source = q.source
  destination : p.destination = q.destination
  packetType : p.packetType = q.packetType
  sequence : p.sequence = q.sequence
  ackFor : p.ackFor = q.ackFor
  retransmission : p.retransmission = q.retransmission

variable {s : Setting} {m : GraphManager} {p q : Packet}

theorem genuine_body : p.body.Genuine s ↔ p.Genuine s :=
  ⟨fun ⟨h₁, h₂, h₃, h₄, h₅, h₆, h₇, h₈⟩ => ⟨h₁, h₂, h₃, h₄, h₅, h₆, h₇, h₈⟩,
    fun ⟨h₁, h₂, h₃, h₄, h₅, h₆, h₇, h₈⟩ => ⟨h₁, h₂, h₃, h₄, h₅, h₆, h₇, h₈⟩⟩

theorem sameMessage_body : p.body.SameMessage q.body ↔ p.SameMessage q :=
  ⟨fun ⟨h₁, h₂, h₃, h₄, h₅, h₆⟩ => ⟨h₁, h₂, h₃, h₄, h₅, h₆⟩,
    fun ⟨h₁, h₂, h₃, h₄, h₅, h₆⟩ => ⟨h₁, h₂, h₃, h₄, h₅, h₆⟩⟩

theorem Tracked.of_walk {c : Int}
    (h : Walk m.graph.delay p.source p.currentNode p.routeHistory c) : p.Tracked m :=
  ⟨h.head?, h.getLast?, c, h⟩

end Packet

/-- Where a packet stands that is held in a queue or on a link, which is one of the topology. -/
def Place.Stands (m : GraphManager) (p : Packet) : Place → Prop
  | .queue node => p.currentNode = node
  | .link startNode endNode =>
      p.currentNode = startNode ∧ ∃ d, m.getEdgeDelay startNode endNode = .ok d

/-- One hop. -/
theorem Packet.Tracked.arriveAt {m : GraphManager} {p : Packet} {a b : Int} (h : p.Tracked m)
    (hs : (Place.link a b).Stands m p) : (p.arriveAt b).Tracked m := by
  obtain ⟨c, hwalk⟩ := h.walk
  obtain ⟨hcur, d, hd⟩ := hs
  rw [hcur] at hwalk
  exact .of_walk (p := p.arriveAt b) (hwalk.concat (GraphManager.getEdgeDelay_eq_ok.mp hd))

/-- The routers of a rebuild have their own ids. -/
theorem Setting.Wired.routerId {s : Setting} (h : s.Wired) :
    ∀ v r, s.routers.get? v = some r → r.routerId = v := by
  intro v r hr
  obtain ⟨tables, -, hrouters⟩ := h
  rw [hrouters, routersFrom, Dict.get?_map] at hr
  obtain ⟨table, -, rfl⟩ := Option.map_eq_some_iff.mp hr
  rfl

namespace Net

variable {s : Setting} {n n' : Net} {K : Set Packet}

/-- The packet is in the network, or has arrived. -/
def Sees (n : Net) (p : Packet) : Prop :=
  (∃ place, (place, p) ∈ n.held) ∨ ∃ t, .arrived p t ∈ n.history

/-! ### Histories -/

/-- Packets are where their histories lead. -/
structure Tracked (n : Net) : Prop where
  held : ∀ x ∈ n.held, x.2.Tracked n.setting.graphManager ∧
    x.1.Stands n.setting.graphManager x.2
  arrived : ∀ p t, .arrived p t ∈ n.history →
    p.Tracked n.setting.graphManager ∧ p.currentNode = p.destination

theorem tracked_start (s : Setting) : (start s).Tracked where
  held x hx := by simp [start, atRest] at hx
  arrived p t h := by simp [start, atRest] at h

/-- A packet joins at its source. -/
theorem Tracked.transmit (h : n.Tracked) (M : Multiset Event) (k : ℕ) (re : Bool) :
    (Net.transmit { n with pending := M } k re).Tracked := by
  constructor
  · rw [held_transmit, setting_transmit]
    intro x hx
    rcases Multiset.mem_cons.mp hx with rfl | hx
    · exact ⟨.of_walk (.single _), rfl⟩
    · exact h.held x hx
  · rw [history_transmit, setting_transmit]
    intro p t hp
    exact h.arrived p t ((List.mem_cons.mp hp).resolve_left nofun)

theorem Tracked.arrive (h : n.Tracked) {a : Int} {p : Packet} {M : Multiset (Place × Packet)}
    (hheld : n.held = (.link a p.destination, p) ::ₘ M) :
    (n.arrive M (p.arriveAt p.destination)).Tracked where
  held x hx := h.held x (mem_rest hheld hx)
  arrived q t hq := by
    rcases List.mem_cons.mp hq with heq | hq
    · cases heq
      obtain ⟨htracked, hstands⟩ := h.held _ (mem_head hheld)
      exact ⟨htracked.arriveAt hstands, rfl⟩
    · exact h.arrived q t hq

theorem Tracked.receive (h : n.Tracked) (k : ℕ) : (n.receive k).Tracked := by
  by_cases hm : n.setting.mode = .tcp
  · rw [receive_tcp n k hm]
    refine ⟨fun x hx => ?_, h.arrived⟩
    rcases Multiset.mem_cons.mp hx with rfl | hx
    · exact ⟨.of_walk (.single _), rfl⟩
    · exact h.held x hx
  · rw [receive_udp n k hm]
    exact ⟨h.held, h.arrived⟩

theorem Tracked.accept (h : n.Tracked) (k : ℕ) : (n.accept k).Tracked := by
  rw [accept_eq n k]
  exact ⟨h.held, fun p t hp => h.arrived p t ((List.mem_cons.mp hp).resolve_left nofun)⟩

/-- **One step**, where the routers have their own ids. -/
theorem Tracked.step (hids : ∀ v r, n.setting.routers.get? v = some r → r.routerId = v)
    (h : n.Tracked) (hs : Step n n') : n'.Tracked := by
  cases hs with
  | ignore _ _ _ => exact ⟨h.held, h.arrived⟩
  | @send _ M k _ _ _ _ => exact h.transmit M k false
  | @resend _ M k _ _ _ _ _ _ _ => exact h.transmit M k true
  | block hheld _ _ => exact ⟨fun x hx => h.held x (mem_rest hheld hx), h.arrived⟩
  | lose hheld => exact ⟨fun x hx => h.held x (mem_rest hheld hx), h.arrived⟩
  | @launch node hop d p M r hheld hr _ hd =>
      refine ⟨fun x hx => ?_, h.arrived⟩
      rcases Multiset.mem_cons.mp hx with rfl | hx
      · obtain ⟨htracked, hcur⟩ := h.held _ (mem_head hheld)
        exact ⟨htracked, (hids node r hr).symm ▸ hcur, d, hd⟩
      · exact h.held x (mem_rest hheld hx)
  | @launchTwice node hop d p M r hheld hr _ hd =>
      obtain ⟨htracked, hcur⟩ := h.held _ (mem_head hheld)
      have hcur : p.currentNode = r.routerId := (hids node r hr).symm ▸ hcur
      refine ⟨fun x hx => ?_, h.arrived⟩
      rcases Multiset.mem_cons.mp hx with rfl | hx
      · obtain ⟨c, hwalk⟩ := htracked.walk
        rw [hcur] at hwalk
        exact ⟨.of_walk (p := n.copyOf p r.routerId) hwalk, rfl, d, hd⟩
      · rcases Multiset.mem_cons.mp hx with rfl | hx
        · exact ⟨htracked, hcur, d, hd⟩
        · exact h.held x (mem_rest hheld hx)
  | relay hheld _ =>
      refine ⟨fun x hx => ?_, h.arrived⟩
      rcases Multiset.mem_cons.mp hx with rfl | hx
      · obtain ⟨htracked, hstands⟩ := h.held _ (mem_head hheld)
        exact ⟨htracked.arriveAt hstands, rfl⟩
      · exact h.held x (mem_rest hheld hx)
  | receive hheld _ => exact (h.arrive hheld).receive _
  | ignoreAck hheld _ _ => exact h.arrive hheld
  | accept hheld _ _ _ => exact (h.arrive hheld).accept _

theorem Run.tracked (hids : ∀ v r, s.routers.get? v = some r → r.routerId = v) (h : Run s n) :
    n.Tracked := by
  induction h with
  | start => exact tracked_start s
  | tick _ _ _ ih => exact ⟨ih.held, ih.arrived⟩
  | step h _ hs ih => exact ih.step (h.setting.symm ▸ hids) hs
  | finish _ _ ih => exact ⟨ih.held, ih.arrived⟩

/-! ### What was made so far -/

/-- The states that a run passes through from `m` on. -/
inductive Onward (m : Net) : Net → Prop where
  | refl : Onward m m
  | tick {n : Net} {dt : ℚ} (h : Onward m n) (hrun : n.running = true) (hdt : 0 ≤ dt) :
      Onward m (n.tick dt)
  | step {n n' : Net} (h : Onward m n) (hrun : n.running = true) (hs : Step n n') : Onward m n'
  | finish {n : Net} (h : Onward m n) (hrun : n.running = true) : Onward m n.finish

theorem Run.onward {m : Net} (h : Run s m) (ho : Onward m n) : Run s n := by
  induction ho with
  | refl => exact h
  | tick _ hrun hdt ih => exact ih.tick hrun hdt
  | step _ hrun hs ih => exact ih.step hrun hs
  | finish _ hrun ih => exact ih.finish hrun

theorem Run.from_start (h : Run s n) : Onward (Net.start s) n := by
  induction h with
  | start => exact .refl
  | tick _ hrun hdt ih => exact ih.tick hrun hdt
  | step _ hrun hs ih => exact ih.step hrun hs
  | finish _ hrun ih => exact ih.finish hrun

/-- `K` has the bodies of the packets made so far in a run of `s`.  Each is of a packet that was in
the network at some moment of the run, no two have one id, and each copy has its original. -/
structure Made (s : Setting) (K : Set Packet) (n : Net) : Prop where
  seen : ∀ p, n.Sees p → p.body ∈ K
  born : ∀ q ∈ K, ∃ m, Run s m ∧ Onward m n ∧ ∃ x ∈ m.held, x.2.body = q
  genuine : ∀ q ∈ K, q.Genuine s
  lt : ∀ q ∈ K, q.packetId < n.nextPacketId
  unique : ∀ q ∈ K, ∀ q' ∈ K, q.packetId = q'.packetId → q = q'
  copies : ∀ q ∈ K, ∀ j, q.duplicatedFrom = some j →
    ∃ q' ∈ K, q'.packetId = j ∧ q.SameMessage q'

theorem made_start (s : Setting) : Made s ∅ (start s) where
  seen p hp := by
    obtain ⟨place, hp⟩ | ⟨t, hp⟩ := hp
    · simp [start, atRest] at hp
    · simp [start, atRest] at hp
  born := by simp
  genuine := by simp
  lt := by simp
  unique := by simp
  copies := by simp

/-- What is seen after a step, read off the packets held and arrived. -/
theorem sees_of {P : Packet → Prop}
    (hheld : ∀ x ∈ n'.held, P x.2 ∨ ∃ y ∈ n.held, x.2.body = y.2.body)
    (harrived : ∀ q t, .arrived q t ∈ n'.history →
      .arrived q t ∈ n.history ∨ ∃ y ∈ n.held, q.body = y.2.body) :
    ∀ q, n'.Sees q → P q ∨ ∃ q', n.Sees q' ∧ q.body = q'.body := by
  have hsees : ∀ {q : Packet}, (∃ y ∈ n.held, q.body = y.2.body) →
      ∃ q', n.Sees q' ∧ q.body = q'.body := fun ⟨y, hy, heq⟩ => ⟨y.2, .inl ⟨y.1, hy⟩, heq⟩
  rintro q (⟨place, hq⟩ | ⟨t, hq⟩)
  · exact (hheld _ hq).imp_right hsees
  · refine .inr ?_
    rcases harrived q t hq with hq | hq
    · exact ⟨q, .inr ⟨t, hq⟩, rfl⟩
    · exact hsees hq

/-- Packets may move about, arrive and leave. -/
theorem Made.moved (h : Made s K n) (ho : ∀ m, Onward m n → Onward m n')
    (hid : n'.nextPacketId = n.nextPacketId)
    (hheld : ∀ x ∈ n'.held, ∃ y ∈ n.held, x.2.body = y.2.body)
    (harrived : ∀ q t, .arrived q t ∈ n'.history →
      .arrived q t ∈ n.history ∨ ∃ y ∈ n.held, q.body = y.2.body) : Made s K n' where
  seen p hp := by
    have hold : ∃ q, n.Sees q ∧ p.body = q.body :=
      (sees_of (P := fun _ => False) (fun x hx => .inr (hheld x hx)) harrived p hp).resolve_left id
    obtain ⟨q, hq, heq⟩ := hold
    exact heq ▸ h.seen q hq
  born q hq := by
    obtain ⟨m, hm, hon, hx⟩ := h.born q hq
    exact ⟨m, hm, ho m hon, hx⟩
  genuine := h.genuine
  lt q hq := hid ▸ h.lt q hq
  unique := h.unique
  copies := h.copies

/-- A packet with the next id joins. -/
theorem Made.join (h : Made s K n) (ho : ∀ m, Onward m n → Onward m n') (hr : Run s n')
    {place : Place} {p : Packet} (hmem : (place, p) ∈ n'.held) (hp : p.Genuine s)
    (hid : p.packetId = n.nextPacketId) (hnext : n'.nextPacketId = n.nextPacketId + 1)
    (hcopy : ∀ j, p.duplicatedFrom = some j → ∃ q ∈ K, q.packetId = j ∧ p.body.SameMessage q)
    (hheld : ∀ x ∈ n'.held, x.2 = p ∨ ∃ y ∈ n.held, x.2.body = y.2.body)
    (harrived : ∀ q t, .arrived q t ∈ n'.history →
      .arrived q t ∈ n.history ∨ ∃ y ∈ n.held, q.body = y.2.body) :
    Made s (insert p.body K) n' where
  seen q hq := by
    rcases sees_of (P := (· = p)) hheld harrived q hq with rfl | ⟨q', hq', heq⟩
    · exact Set.mem_insert _ _
    · exact Set.mem_insert_of_mem _ (heq ▸ h.seen q' hq')
  born q hq := by
    rcases hq with rfl | hq
    · exact ⟨n', hr, .refl, _, hmem, rfl⟩
    · obtain ⟨m, hm, hon, hx⟩ := h.born q hq
      exact ⟨m, hm, ho m hon, hx⟩
  genuine q hq := by
    rcases hq with rfl | hq
    · exact Packet.genuine_body.mpr hp
    · exact h.genuine q hq
  lt q hq := by
    rcases hq with rfl | hq
    · rw [hnext, show p.body.packetId = n.nextPacketId from hid]
      exact Nat.lt_succ_self _
    · exact hnext ▸ (h.lt q hq).trans (Nat.lt_succ_self _)
  unique q hq q' hq' heq := by
    have hnew : ∀ q ∈ K, q.packetId ≠ p.body.packetId := fun q hq he =>
      absurd (h.lt q hq) (by rw [he, show p.body.packetId = n.nextPacketId from hid]; simp)
    rcases hq with rfl | hq <;> rcases hq' with rfl | hq'
    · rfl
    · exact absurd heq.symm (hnew q' hq')
    · exact absurd heq (hnew q hq)
    · exact h.unique q hq q' hq' heq
  copies q hq j hj := by
    have hold : ∃ q' ∈ K, q'.packetId = j ∧ q.SameMessage q' := by
      rcases hq with rfl | hq
      · exact hcopy j hj
      · exact h.copies q hq j hj
    obtain ⟨q', hq', hid', hsame⟩ := hold
    exact ⟨q', Set.mem_insert_of_mem _ hq', hid', hsame⟩


/-- The sender's packet. -/
theorem genuine_data (n : Net) {k : ℕ} {re : Bool} (hk : k < n.setting.packetGoal)
    (hre : re = true → n.setting.mode = .tcp) :
    (n.newPacket n.setting.source n.setting.destination .data k none re).Genuine n.setting where
  session := rfl
  protocol := rfl
  port := rfl
  data _ := ⟨rfl, rfl, rfl, hk⟩
  ack := nofun
  resent := hre
  copy := by simp [newPacket]
  older j hj := by simp [newPacket] at hj

/-- The receiver's packet. -/
theorem genuine_ack (n : Net) (k : ℕ) (hm : n.setting.mode = .tcp) :
    (n.newPacket n.setting.destination n.setting.source .ack k (some k) false).Genuine
      n.setting where
  session := rfl
  protocol := rfl
  port := rfl
  data := nofun
  ack _ := ⟨hm, rfl, rfl, rfl, rfl⟩
  resent := nofun
  copy := by simp [newPacket]
  older j hj := by simp [newPacket] at hj

theorem Made.transmit (h : Made s K n) (hr : Run s n) {M : Multiset Event} {k : ℕ} {re : Bool}
    (ho : ∀ m, Onward m n → Onward m (Net.transmit { n with pending := M } k re))
    (hr' : Run s (Net.transmit { n with pending := M } k re)) (hk : k < n.setting.packetGoal)
    (hre : re = true → n.setting.mode = .tcp) :
    ∃ K', K ⊆ K' ∧ Made s K' (Net.transmit { n with pending := M } k re) := by
  refine ⟨_, Set.subset_insert _ _, h.join ho hr' (held_transmit _ _ _ ▸ Multiset.mem_cons_self _ _)
    (hr.setting ▸ genuine_data n hk hre) rfl (nextPacketId_transmit _ _ _)
    (by simp [newPacket]) (fun x hx => ?_) fun q t hq => ?_⟩
  · rw [held_transmit] at hx
    rcases Multiset.mem_cons.mp hx with rfl | hx
    · exact .inl rfl
    · exact .inr ⟨x, hx, rfl⟩
  · rw [history_transmit] at hq
    exact .inl ((List.mem_cons.mp hq).resolve_left (by simp))

/-- A link repeats a packet. -/
theorem Made.launchTwice (h : Made s K n) (hr : Run s n) {x : Place × Packet} {a b : Int}
    {M : Multiset (Place × Packet)} (hheld : n.held = x ::ₘ M)
    (ho : ∀ m, Onward m n → Onward m (Net.launchTwice { n with held := M } a b x.2))
    (hr' : Run s (Net.launchTwice { n with held := M } a b x.2)) :
    ∃ K', K ⊆ K' ∧ Made s K' (Net.launchTwice { n with held := M } a b x.2) := by
  have hx : x.2.body ∈ K := h.seen x.2 (.inl ⟨x.1, mem_head hheld⟩)
  have hgenuine := Packet.genuine_body.mp (h.genuine _ hx)
  have hset := hr.setting
  refine ⟨_, Set.subset_insert _ _, h.join ho hr' (p := n.copyOf x.2 a)
    (Multiset.mem_cons_self _ _) ?_ rfl rfl (fun j hj => ?_) (fun y hy => ?_)
      fun q t hq => .inl hq⟩
  · exact
      { session := congrArg Setting.sessionId hset
        protocol := congrArg Setting.mode hset
        port := congrArg Setting.trafficPort hset
        data := hgenuine.data, ack := hgenuine.ack, resent := hgenuine.resent
        copy := by simp [copyOf]
        older := fun j hj => Option.some.inj hj ▸ h.lt x.2.body hx }
  · exact ⟨_, hx, Option.some.inj hj, ⟨rfl, rfl, rfl, rfl, rfl, rfl⟩⟩
  · rcases Multiset.mem_cons.mp hy with rfl | hy
    · exact .inl rfl
    · rcases Multiset.mem_cons.mp hy with rfl | hy
      · exact .inr ⟨x, mem_head hheld, rfl⟩
      · exact .inr ⟨y, mem_rest hheld hy, rfl⟩

/-- A data packet arrives, and is acknowledged in TCP mode. -/
theorem Made.receive (h : Made s K n) (hr : Run s n) {a : Int} {p : Packet}
    {M : Multiset (Place × Packet)} {k : ℕ} (hheld : n.held = (.link a p.destination, p) ::ₘ M)
    (ho : ∀ m, Onward m n → Onward m ((n.arrive M (p.arriveAt p.destination)).receive k))
    (hr' : Run s ((n.arrive M (p.arriveAt p.destination)).receive k)) :
    ∃ K', K ⊆ K' ∧ Made s K' ((n.arrive M (p.arriveAt p.destination)).receive k) := by
  have harrived : ∀ q t, .arrived q t ∈
      HistoryEntry.arrived (p.arriveAt p.destination) n.clock :: n.history →
        .arrived q t ∈ n.history ∨ ∃ y ∈ n.held, q.body = y.2.body := by
    intro q t hq
    rcases List.mem_cons.mp hq with heq | hq
    · cases heq
      exact .inr ⟨_, mem_head hheld, rfl⟩
    · exact .inl hq
  by_cases hm : n.setting.mode = .tcp
  · have hack := genuine_ack n k hm
    rw [receive_tcp (n.arrive M (p.arriveAt p.destination)) k hm] at ho hr' ⊢
    refine ⟨_, Set.subset_insert _ _, h.join ho hr' (Multiset.mem_cons_self _ _) (hr.setting ▸ hack)
      rfl rfl (by simp [newPacket]) (fun x hx => ?_) harrived⟩
    rcases Multiset.mem_cons.mp hx with rfl | hx
    · exact .inl rfl
    · exact .inr ⟨x, mem_rest hheld hx, rfl⟩
  · rw [receive_udp (n.arrive M (p.arriveAt p.destination)) k hm] at ho ⊢
    exact ⟨K, subset_rfl, h.moved ho rfl (fun x hx => ⟨x, mem_rest hheld hx, rfl⟩) harrived⟩

/-- **One step.** -/
theorem Made.step (h : Made s K n) (hr : Run s n) (hrun : n.running = true) (hs : Step n n') :
    ∃ K', K ⊆ K' ∧ Made s K' n' := by
  have ho : ∀ m, Onward m n → Onward m n' := fun m hm => hm.step hrun hs
  have hr' : Run s n' := hr.step hrun hs
  cases hs with
  | ignore _ _ _ => exact ⟨K, subset_rfl, h.moved ho rfl (fun x hx => ⟨x, hx, rfl⟩) fun _ _ => .inl⟩
  | send _ _ _ hk => exact h.transmit hr ho hr' hk (by simp)
  | resend _ _ _ _ _ haw hk =>
      refine h.transmit hr ho hr' hk fun _ => ?_
      rw [hr.setting]
      cases hm : s.mode with
      | tcp => rfl
      | udp => cases haw.symm.trans (hr.queued hm).awaiting
  | block hheld _ _ => exact ⟨K, subset_rfl, h.moved ho rfl
      (fun x hx => ⟨x, mem_rest hheld hx, rfl⟩) fun _ _ => .inl⟩
  | lose hheld => exact ⟨K, subset_rfl, h.moved ho rfl
      (fun x hx => ⟨x, mem_rest hheld hx, rfl⟩) fun _ _ => .inl⟩
  | launch hheld _ _ _ =>
      refine ⟨K, subset_rfl, h.moved ho rfl (fun x hx => ?_) fun _ _ => .inl⟩
      rcases Multiset.mem_cons.mp hx with rfl | hx
      · exact ⟨_, mem_head hheld, rfl⟩
      · exact ⟨x, mem_rest hheld hx, rfl⟩
  | launchTwice hheld _ _ _ => exact h.launchTwice hr hheld ho hr'
  | relay hheld _ =>
      refine ⟨K, subset_rfl, h.moved ho rfl (fun x hx => ?_) fun _ _ => .inl⟩
      rcases Multiset.mem_cons.mp hx with rfl | hx
      · exact ⟨_, mem_head hheld, rfl⟩
      · exact ⟨x, mem_rest hheld hx, rfl⟩
  | receive hheld _ => exact h.receive hr hheld ho hr'
  | ignoreAck hheld _ _ =>
      refine ⟨K, subset_rfl, h.moved ho rfl (fun x hx => ⟨x, mem_rest hheld hx, rfl⟩)
        fun q t hq => ?_⟩
      rcases List.mem_cons.mp hq with heq | hq
      · cases heq
        exact .inr ⟨_, mem_head hheld, rfl⟩
      · exact .inl hq
  | @accept a p M k hheld _ _ _ =>
      rw [accept_eq (n.arrive M (p.arriveAt p.destination)) k] at ho ⊢
      refine ⟨K, subset_rfl, h.moved ho rfl (fun x hx => ⟨x, mem_rest hheld hx, rfl⟩)
        fun q t hq => ?_⟩
      rcases List.mem_cons.mp ((List.mem_cons.mp hq).resolve_left nofun) with heq | hq
      · cases heq
        exact .inr ⟨_, mem_head hheld, rfl⟩
      · exact .inl hq

/-- What was made is remembered. -/
theorem Made.onward (h : Made s K n) (hr : Run s n) (ho : Onward n n') :
    ∃ K', K ⊆ K' ∧ Made s K' n' := by
  induction ho with
  | refl => exact ⟨K, subset_rfl, h⟩
  | tick hon hrun hdt ih =>
      obtain ⟨K', hK, h'⟩ := ih
      exact ⟨K', hK, h'.moved (fun m hm => hm.tick hrun hdt) rfl (fun x hx => ⟨x, hx, rfl⟩)
        fun _ _ => .inl⟩
  | step hon hrun hs ih =>
      obtain ⟨K', hK, h'⟩ := ih
      obtain ⟨K'', hK', h''⟩ := h'.step (hr.onward hon) hrun hs
      exact ⟨K'', hK.trans hK', h''⟩
  | finish hon hrun ih =>
      obtain ⟨K', hK, h'⟩ := ih
      exact ⟨K', hK, h'.moved (fun m hm => hm.finish hrun) rfl (fun x hx => ⟨x, hx, rfl⟩)
        fun _ _ => .inl⟩

theorem Run.made (h : Run s n) : ∃ K, Made s K n := by
  obtain ⟨K, -, hK⟩ := (made_start s).onward .start h.from_start
  exact ⟨K, hK⟩

theorem Run.genuine (h : Run s n) {p : Packet} (hp : n.Sees p) : p.Genuine s := by
  obtain ⟨K, hK⟩ := h.made
  exact Packet.genuine_body.mp (hK.genuine _ (hK.seen p hp))

/-- A packet seen again is the same, and a copy of a packet seen agrees with it. -/
theorem Run.unaltered {m : Net} (hm : Run s m) (ho : Onward m n) {p q : Packet} (hp : n.Sees p)
    (hq : m.Sees q) : (p.packetId = q.packetId → p.body = q.body) ∧
      (p.duplicatedFrom = some q.packetId → p.SameMessage q) := by
  obtain ⟨K, hK⟩ := hm.made
  obtain ⟨K', hsub, hK'⟩ := hK.onward hm ho
  have hp' := hK'.seen p hp
  have hq' := hsub (hK.seen q hq)
  refine ⟨fun hid => hK'.unique _ hp' _ hq' hid, fun hcopy => ?_⟩
  obtain ⟨q₁, hq₁, hid, hsame⟩ := hK'.copies _ hp' _ hcopy
  obtain rfl := hK'.unique _ hq₁ _ hq' hid
  exact Packet.sameMessage_body.mp hsame

/-- A copy has an original, which was in the network at some moment. -/
theorem Run.original (h : Run s n) {p : Packet} (hp : n.Sees p) {j : ℕ}
    (hj : p.duplicatedFrom = some j) : ∃ m, Run s m ∧ Onward m n ∧
      ∃ place q, (place, q) ∈ m.held ∧ q.packetId = j ∧ p.SameMessage q := by
  obtain ⟨K, hK⟩ := h.made
  obtain ⟨q', hq', hid, hsame⟩ := hK.copies _ (hK.seen p hp) j hj
  obtain ⟨m, hm, hon, x, hx, rfl⟩ := hK.born q' hq'
  exact ⟨m, hm, hon, x.1, x.2, hx, hid, Packet.sameMessage_body.mp hsame⟩

/-! ### Ids -/

/-- The packets in the network and those that have arrived. -/
def known (n : Net) : Multiset Packet :=
  n.held.map Prod.snd + ↑(n.history.filterMap HistoryEntry.arrival?)

theorem known_cons {x : Place × Packet} {M : Multiset (Place × Packet)}
    (hheld : n.held = x ::ₘ M) :
    n.known = x.2 ::ₘ (M.map Prod.snd + ↑(n.history.filterMap HistoryEntry.arrival?)) := by
  rw [known, hheld, Multiset.map_cons, Multiset.cons_add]

theorem known_transmit (n : Net) (k : ℕ) (re : Bool) : (n.transmit k re).known =
    n.newPacket n.setting.source n.setting.destination .data k none re ::ₘ n.known := by
  rw [known, held_transmit, history_transmit, Multiset.map_cons, Multiset.cons_add]
  rfl

/-- A packet that arrives is known as before. -/
theorem known_arrive (n : Net) (M : Multiset (Place × Packet)) (p : Packet) :
    (n.arrive M p).known =
      p ::ₘ (M.map Prod.snd + ↑(n.history.filterMap HistoryEntry.arrival?)) := by
  show M.map Prod.snd + ↑(p :: n.history.filterMap HistoryEntry.arrival?) = _
  rw [← Multiset.cons_coe, Multiset.add_cons]

theorem Numbered.arrive (h : Numbered Packet.packetId n.known n.nextPacketId) {a : Int}
    {p : Packet} {M : Multiset (Place × Packet)}
    (hheld : n.held = (.link a p.destination, p) ::ₘ M) :
    Numbered Packet.packetId (n.arrive M (p.arriveAt p.destination)).known n.nextPacketId := by
  rw [known_cons hheld] at h
  rw [known_arrive]
  exact h.swap rfl

/-- **One step** gives the next id to a packet that it makes, and none twice. -/
theorem known_step (h : Numbered Packet.packetId n.known n.nextPacketId) (hs : Step n n') :
    Numbered Packet.packetId n'.known n'.nextPacketId := by
  cases hs with
  | ignore _ _ _ => exact h
  | @send _ M k _ _ _ _ =>
      rw [known_transmit, nextPacketId_transmit]
      exact h.new rfl
  | @resend _ M k _ _ _ _ _ _ _ =>
      rw [known_transmit, nextPacketId_transmit]
      exact h.new rfl
  | block hheld _ _ =>
      rw [known_cons hheld] at h
      exact h.tail
  | lose hheld =>
      rw [known_cons hheld] at h
      exact h.tail
  | @launch node hop _ p M r hheld _ _ _ =>
      have hlink : ({ n with held := M }.launch r.routerId hop p).held =
          (.link r.routerId hop, p) ::ₘ M := rfl
      rw [known_cons hheld] at h
      rw [known_cons hlink]
      exact h
  | @launchTwice node hop _ p M r hheld _ _ _ =>
      have hlinks : ({ n with held := M }.launchTwice r.routerId hop p).held =
          (.link r.routerId hop, n.copyOf p r.routerId) ::ₘ (.link r.routerId hop, p) ::ₘ M := rfl
      rw [known_cons hheld] at h
      rw [known_cons hlinks, Multiset.map_cons, Multiset.cons_add]
      exact h.new rfl
  | @relay a b p M hheld _ =>
      rw [known_cons hheld] at h
      rw [known_cons (x := (.queue b, p.arriveAt b)) rfl]
      exact h.swap rfl
  | @receive a p M hheld _ =>
      have harrived := Numbered.arrive h hheld
      by_cases hm : n.setting.mode = .tcp
      · rw [receive_tcp (n.arrive M (p.arriveAt p.destination)) _ hm, known_cons rfl]
        exact harrived.new rfl
      · rw [receive_udp (n.arrive M (p.arriveAt p.destination)) _ hm]
        exact harrived
  | ignoreAck hheld _ _ => exact Numbered.arrive h hheld
  | @accept a p M k hheld _ _ _ =>
      rw [accept_eq (n.arrive M (p.arriveAt p.destination)) k]
      exact Numbered.arrive h hheld

theorem Run.known (h : Run s n) : Numbered Packet.packetId n.known n.nextPacketId := by
  induction h with
  | start => exact .zero
  | tick _ _ _ ih => exact ih
  | step _ _ hs ih => exact known_step ih hs
  | finish _ _ ih => exact ih

/-! ### Acknowledgements -/

/-- An acknowledgement on its way is for a sequence that arrived. -/
theorem Run.ack_delivered (h : Run s n) {x : Place × Packet} (hx : x ∈ n.held)
    (ht : x.2.packetType = .ack) : x.2.sequence ∈ n.delivered := by
  obtain ⟨hm, -, -, hack, -⟩ := (h.genuine (.inl ⟨x.1, hx⟩)).ack ht
  obtain ⟨ph, hph⟩ := h.holds hm
  obtain ⟨k, hk, heq⟩ := hph.acks x hx ht
  obtain rfl : x.2.sequence = k := Option.some.inj (hack.symm.trans heq)
  exact hk

/-- So is one that arrived. -/
theorem Run.arrived_ack (h : Run s n) : ∀ p t, .arrived p t ∈ n.history →
    p.packetType = .ack → p.sequence ∈ n.delivered := by
  induction h with
  | start =>
      intro p t hp
      cases hp
  | tick _ _ _ ih => exact ih
  | finish _ _ ih => exact ih
  | @step n n' h _ hs ih =>
      intro p t hp ht
      cases hs with
      | send _ _ _ _ =>
          rw [history_transmit] at hp
          rw [delivered_transmit]
          exact ih p t ((List.mem_cons.mp hp).resolve_left nofun) ht
      | resend _ _ _ _ _ _ _ =>
          rw [history_transmit] at hp
          rw [delivered_transmit]
          exact ih p t ((List.mem_cons.mp hp).resolve_left nofun) ht
      | @receive a q M hheld hq =>
          have hold : .arrived p t ∈ n.history := by
            have hcons : .arrived p t ∈
                HistoryEntry.arrived (q.arriveAt q.destination) n.clock :: n.history := by
              rwa [history_receive] at hp
            rcases List.mem_cons.mp hcons with heq | hcons
            · cases heq
              cases hq.symm.trans ht
            · exact hcons
          rw [delivered_receive]
          exact Finset.mem_insert_of_mem (ih p t hold ht)
      | @ignoreAck a q M hheld hq _ =>
          rcases List.mem_cons.mp hp with heq | hp
          · cases heq
            exact h.ack_delivered (mem_head hheld) hq
          · exact ih p t hp ht
      | @accept a q M k hheld hq _ _ =>
          rw [accept_eq (n.arrive M (q.arriveAt q.destination)) k] at hp ⊢
          rcases List.mem_cons.mp ((List.mem_cons.mp hp).resolve_left nofun) with heq | hp
          · cases heq
            exact h.ack_delivered (mem_head hheld) hq
          · exact ih p t hp ht
      | _ => exact ih p t hp ht

end Net

namespace Engine

variable {σ : Type}

theorem sees_iff {e : Engine σ} {p : Packet} :
    e.toNet.Sees p ↔ p ∈ e.packets ∨ ∃ t, .arrived p t ∈ e.history := by
  rw [Net.Sees, ← mem_packets]
  rfl

theorem Run.genuine [RandomSource σ] {e₀ e : Engine σ} (h : Run e₀ e) {p : Packet}
    (hp : p ∈ e.packets) : p.Genuine e₀.setting := h.toNet.genuine (sees_iff.mpr (.inl hp))

/-- What the packets of a run say that are queued, on a link or arrived.  Each is one made for this
run, its history leads over links from its source to where it is, and at every earlier moment the
packet with its id was the same but for that; a copy has an original, which was in the network at
some moment, and agrees with it wherever it was seen; an acknowledgement is for a sequence that was
delivered; and no two packets, in the network or arrived, share an id. -/
structure Vouched (e₀ e : Engine σ) : Prop where
  genuine : ∀ p, e.toNet.Sees p → p.Genuine e₀.setting
  tracked : ∀ p, e.toNet.Sees p → p.Tracked e₀.graphManager
  queued : ∀ v r, e.routers.get? v = some r → ∀ p ∈ r.queue, p.currentNode = v
  flying : ∀ f ∈ e.inFlightPackets, f.packet.currentNode = f.startNode
  arrived : ∀ p t, .arrived p t ∈ e.history → p.currentNode = p.destination
  unaltered : ∀ n, Net.Run e₀.setting n → n.Onward e.toNet → ∀ p q, e.toNet.Sees p → n.Sees q →
    (p.packetId = q.packetId → p.body = q.body) ∧
      (p.duplicatedFrom = some q.packetId → p.SameMessage q)
  original : ∀ p, e.toNet.Sees p → ∀ j, p.duplicatedFrom = some j →
    ∃ n, Net.Run e₀.setting n ∧ n.Onward e.toNet ∧
      ∃ place q, (place, q) ∈ n.held ∧ q.packetId = j ∧ p.SameMessage q
  acks : ∀ p, e.toNet.Sees p → p.packetType = .ack → p.sequence ∈ e.deliveredSequences
  distinct : ((e.packets ++ e.history.filterMap HistoryEntry.arrival?).map Packet.packetId).Nodup

/-- **What packets say**, in every state of every run of an engine that was set up. -/
theorem run_packets [RandomSource σ] {e₀ e : Engine σ} (hw : e₀.setting.Wired) (h : Run e₀ e) :
    Vouched e₀ e := by
  have hn := h.toNet
  have hset : e.toNet.setting = e₀.setting := hn.setting
  have hmanager : e.toNet.setting.graphManager = e₀.graphManager :=
    congrArg Setting.graphManager hset
  have htracked := hn.tracked hw.routerId
  exact
    { genuine := fun p hp => hn.genuine hp
      tracked := fun p hp => by
        rw [← hmanager]
        obtain ⟨place, hp⟩ | ⟨t, hp⟩ := hp
        · exact (htracked.held _ hp).1
        · exact (htracked.arrived p t hp).1
      queued := fun v r hr p hp => (htracked.held _ (mem_queue hr hp)).2
      flying := fun f hf => (htracked.held _ (mem_flight hf)).2.1
      arrived := fun p t hp => (htracked.arrived p t hp).2
      unaltered := fun n hr ho p q hp hq => hr.unaltered ho hp hq
      original := fun p hp j hj => hn.original hp hj
      acks := fun p hp ht => by
        obtain ⟨place, hp⟩ | ⟨t, hp⟩ := hp
        · exact hn.ack_delivered hp ht
        · exact hn.arrived_ack p t hp ht
      distinct := by
        have hids := hn.known.nodup
        rw [Net.known, ← packets_toNet, Multiset.coe_add, Multiset.map_coe] at hids
        exact Multiset.coe_nodup.mp hids }

theorem run_packets_ring : ∃ e, (Steady.engine "Redundant Ring" .tcp).ticks
    [16, 300, 300, 300] = .ok e ∧ Vouched (Steady.engine "Redundant Ring" .tcp) e := by
  obtain ⟨e, he⟩ := exists_ok (x := (Steady.engine "Redundant Ring" .tcp).ticks
    [16, 300, 300, 300]) (by decide +kernel)
  have hsetup : (Steady.fresh .tcp).setupTopology (some "Redundant Ring") =
      .ok (Steady.engine "Redundant Ring" .tcp) := Steady.setup_eq (by decide +kernel)
  have hloaded := (setupTopology_preset hsetup).1
  exact ⟨e, he, run_packets hloaded.wired (.of_ticks (by decide +kernel) he)⟩

end Engine

end PacketSim
