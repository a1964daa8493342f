import PacketSim.Engine.Links
import PacketSim.Lib.Numbered

/-!
# Engine — Network

What the engine is for, without its queues, its clockwork and its draws: a sender and a receiver
joined by an unordered network.  The network holds packets, each at a place: the queue of a router
or a link.  Events are pending, in no order.

`Net` is a state of this model and `Net.Step` its steps, one for each thing the engine can do to
the sender, the receiver or one held packet.  Which step comes next, which packet it takes, and
whether a link loses or repeats a packet are left open: that is where the engine's schedule and its
random draws went.  Steps take no time: the clock moves between them (`Net.tick`).
`Engine/Refinement.lean` shows that every `update` of the engine is a tick and a sequence of steps.
-/

namespace PacketSim
open Lib

/-- Where a packet is held. -/
inductive Place where
  | queue (node : Int)
  | link (startNode endNode : Int)
  deriving DecidableEq

/-- What no `update` changes: the routers, less their queues and gates, and the parameters. -/
structure Setting where
  graphManager : GraphManager
  routers : Dict Int Router
  conditions : NetworkConditions
  mode : Mode
  packetGoal : ℕ
  trafficPort : ℕ
  useSdn : Bool
  source : Int
  destination : Int
  sessionId : ℕ

/-- The network of a run: its setting, its clock, what is held where, and the sender's state. -/
structure Net where
  setting : Setting
  clock : ℚ
  running : Bool
  completed : Bool
  held : Multiset (Place × Packet)
  pending : Multiset Event
  nextEventId : ℕ
  nextPacketId : ℕ
  awaiting : Option ℕ
  token : ℕ
  delivered : Finset ℕ
  stats : RunStats
  history : List HistoryEntry

namespace Net

/-- An event is scheduled; a network has no order to compare callbacks by. -/
def schedule [Clock] (n : Net) (delayMs : ℚ) (callback : Callback) : Net :=
  { n with
    pending := ⟨Clock.after n.clock delayMs, n.nextEventId, callback⟩ ::ₘ n.pending
    nextEventId := n.nextEventId + 1 }

/-- The packet that `_make_packet` would make next. -/
def newPacket (n : Net) (source destination : Int) (packetType : PacketType) (sequence : ℕ)
    (ackFor : Option ℕ) (retransmission : Bool) : Packet :=
  { packetId := n.nextPacketId
    sessionId := n.setting.sessionId
    source, destination
    currentNode := source
    protocol := n.setting.mode
    packetType, sequence, ackFor
    dstPort := n.setting.trafficPort
    retransmission
    routeHistory := [source] }

/-- The copy of `p` that a link repeats. -/
def copyOf (n : Net) (p : Packet) (startNode : Int) : Packet :=
  { n.newPacket p.source p.destination p.packetType p.sequence p.ackFor p.retransmission with
    duplicate := true
    duplicatedFrom := some p.packetId
    currentNode := startNode
    routeHistory := p.routeHistory }

/-- A packet enters the network at its source. -/
def inject (n : Net) (p : Packet) : Net :=
  { n with
    held := (.queue p.source, p) ::ₘ n.held
    nextPacketId := n.nextPacketId + 1
    stats := { n.stats with
      packetsSent := n.stats.packetsSent + 1
      retransmissions := n.stats.retransmissions + p.retransmission.toNat
      duplicatePackets := n.stats.duplicatePackets + p.duplicate.toNat } }

/-- The sender transmits a sequence; in TCP mode it then awaits the acknowledgement, under a timer
with a new token. -/
def transmit [Clock] (n : Net) (sequence : ℕ) (retransmission : Bool) : Net :=
  let s := n.setting
  let n := n.inject (n.newPacket s.source s.destination .data sequence none retransmission)
  let n := { n with history := .transmitted sequence retransmission n.clock :: n.history }
  if s.mode = .tcp then
    { n with awaiting := some sequence, token := n.token + 1 }.schedule retransmissionTimeoutMs
      (.onTimeout sequence (n.token + 1))
  else n

/-- The receiver acknowledges a sequence. -/
def acknowledge (n : Net) (sequence : ℕ) : Net :=
  let s := n.setting
  let n := n.inject (n.newPacket s.destination s.source .ack sequence (some sequence) false)
  { n with stats := { n.stats with acknowledgements := n.stats.acknowledgements + 1 } }

/-- The sequence is counted as delivered, once. -/
def noteDelivered (n : Net) (sequence : ℕ) : Net :=
  if sequence ∈ n.delivered then n
  else
    { n with
      delivered := insert sequence n.delivered
      stats := { n.stats with
        completedSequences := insert sequence n.stats.completedSequences
        packetsDelivered := n.stats.packetsDelivered + 1 } }

/-- The receiver takes in a data packet. -/
def receive (n : Net) (sequence : ℕ) : Net :=
  let n := n.noteDelivered sequence
  if n.setting.mode = .tcp then n.acknowledge sequence else n

/-- The sender takes the acknowledgement it awaits. -/
def accept [Clock] (n : Net) (acked : ℕ) : Net :=
  let n := { n with awaiting := none, history := .acknowledged acked n.clock :: n.history }
  if n.setting.packetGoal ≤ acked + 1 then { n with completed := true }
  else n.schedule 150 (.sendData (acked + 1))

/-- The packets `held` stay, one other is lost. -/
def lose (n : Net) (held : Multiset (Place × Packet)) : Net :=
  { n with held, stats := { n.stats with packetsDropped := n.stats.packetsDropped + 1 } }

/-- The packets `held` stay, `p` arrives at its destination. -/
def arrive (n : Net) (held : Multiset (Place × Packet)) (p : Packet) : Net :=
  { n with held, history := .arrived p n.clock :: n.history }

/-- A packet is put on a link. -/
def launch (n : Net) (startNode endNode : Int) (p : Packet) : Net :=
  { n with held := (.link startNode endNode, p) ::ₘ n.held }

/-- A packet and a copy of it are put on a link. -/
def launchTwice (n : Net) (startNode endNode : Int) (p : Packet) : Net :=
  { n with
    held := (.link startNode endNode, n.copyOf p startNode) ::ₘ
      (.link startNode endNode, p) ::ₘ n.held
    nextPacketId := n.nextPacketId + 1
    stats := { n.stats with
      packetsSent := n.stats.packetsSent + 1
      duplicatePackets := n.stats.duplicatePackets + 1 } }

/-- Time passes. -/
def tick [Clock] (n : Net) (dt : ℚ) : Net := { n with clock := Clock.after n.clock dt }

/-- The callback changes nothing. -/
def Ignores (n : Net) : Callback → Prop
  | .sendData k => n.setting.packetGoal ≤ k
  | .onTimeout k token =>
      n.running = false ∨ n.completed = true ∨ n.awaiting ≠ some k ∨ token ≠ n.token ∨
        n.setting.packetGoal ≤ k

/-- What can happen in a network, one constructor for each kind of happening.  What a link draws is
left open. -/
inductive Step [Clock] : Net → Net → Prop where
  | ignore {n : Net} {ev : Event} {M : Multiset Event} (hev : n.pending = ev ::ₘ M)
      (hdue : ev.dueTime ≤ n.clock) (hi : n.Ignores ev.callback) : Step n { n with pending := M }
  | send {n : Net} {ev : Event} {M : Multiset Event} {k : ℕ} (hev : n.pending = ev ::ₘ M)
      (hdue : ev.dueTime ≤ n.clock) (hcb : ev.callback = .sendData k)
      (hk : k < n.setting.packetGoal) : Step n ({ n with pending := M }.transmit k false)
  | resend {n : Net} {ev : Event} {M : Multiset Event} {k : ℕ} (hev : n.pending = ev ::ₘ M)
      (hdue : ev.dueTime ≤ n.clock) (hcb : ev.callback = .onTimeout k n.token)
      (hrun : n.running = true) (hcomp : n.completed = false) (haw : n.awaiting = some k)
      (hk : k < n.setting.packetGoal) : Step n ({ n with pending := M }.transmit k true)
  | block {n : Net} {node : Int} {p : Packet} {M : Multiset (Place × Packet)} {r : Router}
      {value : Option Int} (hheld : n.held = (.queue node, p) ::ₘ M)
      (hr : n.setting.routers.get? node = some r) (hrule : r.applyRules p = some ⟨.drop, value⟩) :
      Step n (n.lose M)
  | launch {n : Net} {node hop d : Int} {p : Packet} {M : Multiset (Place × Packet)} {r : Router}
      (hheld : n.held = (.queue node, p) ::ₘ M) (hr : n.setting.routers.get? node = some r)
      (hhop : r.Chooses p hop) (hd : n.setting.graphManager.getEdgeDelay r.routerId hop = .ok d) :
      Step n ({ n with held := M }.launch r.routerId hop p)
  | launchTwice {n : Net} {node hop d : Int} {p : Packet} {M : Multiset (Place × Packet)}
      {r : Router} (hheld : n.held = (.queue node, p) ::ₘ M)
      (hr : n.setting.routers.get? node = some r) (hhop : r.Chooses p hop)
      (hd : n.setting.graphManager.getEdgeDelay r.routerId hop = .ok d) :
      Step n ({ n with held := M }.launchTwice r.routerId hop p)
  | lose {n : Net} {a b : Int} {p : Packet} {M : Multiset (Place × Packet)}
      (hheld : n.held = (.link a b, p) ::ₘ M) : Step n (n.lose M)
  | relay {n : Net} {a b : Int} {p : Packet} {M : Multiset (Place × Packet)}
      (hheld : n.held = (.link a b, p) ::ₘ M) (hb : b ≠ p.destination) :
      Step n { n with held := (.queue b, p.arriveAt b) ::ₘ M }
  | receive {n : Net} {a : Int} {p : Packet} {M : Multiset (Place × Packet)}
      (hheld : n.held = (.link a p.destination, p) ::ₘ M) (hp : p.packetType = .data) :
      Step n ((n.arrive M (p.arriveAt p.destination)).receive p.sequence)
  | ignoreAck {n : Net} {a : Int} {p : Packet} {M : Multiset (Place × Packet)}
      (hheld : n.held = (.link a p.destination, p) ::ₘ M) (hp : p.packetType = .ack)
      (hne : ∀ k, n.awaiting = some k → p.ackFor ≠ some k) :
      Step n (n.arrive M (p.arriveAt p.destination))
  | accept {n : Net} {a : Int} {p : Packet} {M : Multiset (Place × Packet)} {k : ℕ}
      (hheld : n.held = (.link a p.destination, p) ::ₘ M) (hp : p.packetType = .ack)
      (haw : n.awaiting = some k) (hack : p.ackFor = some k) :
      Step n ((n.arrive M (p.arriveAt p.destination)).accept k)

/-- A sequence of steps. -/
abbrev Steps [Clock] : Net → Net → Prop := Relation.ReflTransGen Step

/-- A sequence of steps and ticks. -/
abbrev Later [Clock] : Net → Net → Prop :=
  Relation.ReflTransGen fun n n' => Step n n' ∨ ∃ dt, 0 ≤ dt ∧ n' = n.tick dt

/-- The run is over. -/
def finish (n : Net) : Net :=
  { n with running := false, completed := true, stats := n.stats.markFinished n.clock }

/-- The events pending when a run starts. -/
def firstEvents [Clock] (s : Setting) : Multiset Event :=
  match s.mode with
  | .udp => (Multiset.range s.packetGoal).map fun k : ℕ =>
      ⟨Clock.after 0 (k * sendIntervalMs), 1 + k, .sendData k⟩
  | .tcp => {⟨Clock.after 0 0, 1, .sendData 0⟩}

/-- Nothing is held and nothing pending. -/
def atRest (s : Setting) : Net where
  setting := s
  clock := 0
  running := false
  completed := false
  held := 0
  pending := 0
  nextEventId := 1
  nextPacketId := 1
  awaiting := none
  token := 0
  delivered := ∅
  stats := {}
  history := []

/-- The state a run starts in. -/
def start [Clock] (s : Setting) : Net :=
  { atRest s with
    running := true
    stats := { startTimeMs := some 0 }
    pending := firstEvents s
    nextEventId := 1 + (firstEvents s).card }

/-- The states a run passes through: it takes steps, and time, until it finishes. -/
inductive Run [Clock] (s : Setting) : Net → Prop where
  | start : Run s (start s)
  | tick {n : Net} {dt : ℚ} (h : Run s n) (hrun : n.running = true) (hdt : 0 ≤ dt) :
      Run s (n.tick dt)
  | step {n n' : Net} (h : Run s n) (hrun : n.running = true) (hs : Step n n') : Run s n'
  | finish {n : Net} (h : Run s n) (hrun : n.running = true) : Run s n.finish

/-! ### What the operations do to each field -/

section Fields
variable [Clock] (n : Net) (k : ℕ) (re : Bool)

theorem transmit_udp (h : n.setting.mode ≠ .tcp) : n.transmit k re =
    { n.inject (n.newPacket n.setting.source n.setting.destination .data k none re) with
      history := .transmitted k re n.clock :: n.history } :=
  if_neg h

theorem transmit_tcp (h : n.setting.mode = .tcp) : n.transmit k re =
    { n.inject (n.newPacket n.setting.source n.setting.destination .data k none re) with
      history := .transmitted k re n.clock :: n.history
      awaiting := some k
      token := n.token + 1
      pending := ⟨Clock.after n.clock retransmissionTimeoutMs, n.nextEventId,
        .onTimeout k (n.token + 1)⟩ ::ₘ n.pending
      nextEventId := n.nextEventId + 1 } :=
  if_pos h

@[simp] theorem setting_transmit : (n.transmit k re).setting = n.setting := by
  unfold transmit; dsimp only; split <;> rfl

@[simp] theorem clock_transmit : (n.transmit k re).clock = n.clock := by
  unfold transmit; dsimp only; split <;> rfl

@[simp] theorem running_transmit : (n.transmit k re).running = n.running := by
  unfold transmit; dsimp only; split <;> rfl

@[simp] theorem completed_transmit : (n.transmit k re).completed = n.completed := by
  unfold transmit; dsimp only; split <;> rfl

@[simp] theorem held_transmit : (n.transmit k re).held =
    (.queue n.setting.source,
      n.newPacket n.setting.source n.setting.destination .data k none re) ::ₘ n.held := by
  unfold transmit; dsimp only; split <;> rfl

@[simp] theorem nextPacketId_transmit : (n.transmit k re).nextPacketId = n.nextPacketId + 1 := by
  unfold transmit; dsimp only; split <;> rfl

@[simp] theorem delivered_transmit : (n.transmit k re).delivered = n.delivered := by
  unfold transmit; dsimp only; split <;> rfl

@[simp] theorem history_transmit :
    (n.transmit k re).history = .transmitted k re n.clock :: n.history := by
  unfold transmit; dsimp only; split <;> rfl

@[simp] theorem stats_transmit : (n.transmit k re).stats = { n.stats with
    packetsSent := n.stats.packetsSent + 1
    retransmissions := n.stats.retransmissions + re.toNat } := by
  unfold transmit; dsimp only; split <;> rfl

omit [Clock] in
@[simp] theorem setting_noteDelivered : (n.noteDelivered k).setting = n.setting := by
  unfold noteDelivered; split <;> rfl

omit [Clock] in
theorem noteDelivered_eq : n.noteDelivered k = { n with
    delivered := insert k n.delivered
    stats := (n.noteDelivered k).stats } := by
  unfold noteDelivered
  split
  · rename_i hk
    rw [Finset.insert_eq_of_mem hk]
  · rfl

omit [Clock] in
/-- Receiving a sequence in UDP mode. -/
theorem receive_udp (h : n.setting.mode ≠ .tcp) : n.receive k = { n with
    delivered := insert k n.delivered
    stats := (n.noteDelivered k).stats } := by
  rw [receive, ← noteDelivered_eq]
  exact if_neg (by simpa using h)

omit [Clock] in
/-- Receiving a sequence in TCP mode. -/
theorem receive_tcp (h : n.setting.mode = .tcp) : n.receive k = { n with
    delivered := insert k n.delivered
    held := (.queue n.setting.destination,
      n.newPacket n.setting.destination n.setting.source .ack k (some k) false) ::ₘ n.held
    nextPacketId := n.nextPacketId + 1
    stats := { (n.noteDelivered k).stats with
      packetsSent := (n.noteDelivered k).stats.packetsSent + 1
      acknowledgements := (n.noteDelivered k).stats.acknowledgements + 1 } } := by
  rw [receive]
  simp only [setting_noteDelivered, h, if_true]
  rw [noteDelivered_eq]
  rfl

omit [Clock] in
@[simp] theorem setting_receive : (n.receive k).setting = n.setting := by
  by_cases h : n.setting.mode = .tcp
  · rw [receive_tcp n k h]
  · rw [receive_udp n k h]

omit [Clock] in
@[simp] theorem clock_receive : (n.receive k).clock = n.clock := by
  by_cases h : n.setting.mode = .tcp
  · rw [receive_tcp n k h]
  · rw [receive_udp n k h]

omit [Clock] in
@[simp] theorem running_receive : (n.receive k).running = n.running := by
  by_cases h : n.setting.mode = .tcp
  · rw [receive_tcp n k h]
  · rw [receive_udp n k h]

omit [Clock] in
@[simp] theorem history_receive : (n.receive k).history = n.history := by
  by_cases h : n.setting.mode = .tcp
  · rw [receive_tcp n k h]
  · rw [receive_udp n k h]

omit [Clock] in
@[simp] theorem delivered_receive : (n.receive k).delivered = insert k n.delivered := by
  by_cases h : n.setting.mode = .tcp
  · rw [receive_tcp n k h]
  · rw [receive_udp n k h]

theorem accept_last (h : n.setting.packetGoal ≤ k + 1) : n.accept k = { n with
    awaiting := none
    history := .acknowledged k n.clock :: n.history
    completed := true } :=
  if_pos h

theorem accept_next (h : ¬ n.setting.packetGoal ≤ k + 1) : n.accept k = { n with
    awaiting := none
    history := .acknowledged k n.clock :: n.history
    pending := ⟨Clock.after n.clock 150, n.nextEventId, .sendData (k + 1)⟩ ::ₘ n.pending
    nextEventId := n.nextEventId + 1 } :=
  if_neg h

/-- Whether another send is scheduled or the run completed, an accepted acknowledgement is noted. -/
theorem accept_eq : n.accept k = { n with
    awaiting := none
    history := .acknowledged k n.clock :: n.history
    completed := (n.accept k).completed
    pending := (n.accept k).pending
    nextEventId := (n.accept k).nextEventId } := by
  unfold accept; dsimp only; split <;> rfl

@[simp] theorem setting_accept : (n.accept k).setting = n.setting := by
  unfold accept; dsimp only; split <;> rfl

@[simp] theorem clock_accept : (n.accept k).clock = n.clock := by
  unfold accept; dsimp only; split <;> rfl

@[simp] theorem running_accept : (n.accept k).running = n.running := by
  unfold accept; dsimp only; split <;> rfl

omit [Clock] in
@[simp] theorem retransmissions_noteDelivered :
    (n.noteDelivered k).stats.retransmissions = n.stats.retransmissions := by
  unfold noteDelivered; split <;> rfl

omit [Clock] in
@[simp] theorem retransmissions_receive :
    (n.receive k).stats.retransmissions = n.stats.retransmissions := by
  unfold receive; dsimp only; split
  · exact retransmissions_noteDelivered n k
  · exact retransmissions_noteDelivered n k

@[simp] theorem retransmissions_accept :
    (n.accept k).stats.retransmissions = n.stats.retransmissions := by
  unfold accept; dsimp only; split <;> rfl

end Fields

/-- On the exact clock a TCP run starts with a send at 0. -/
theorem firstEvents_tcp {s : Setting} (hm : s.mode = .tcp) :
    firstEvents s = {⟨0, 1, .sendData 0⟩} := by
  rw [firstEvents, hm, Clock.after_exact, add_zero]

theorem mem_head {n : Net} {x : Place × Packet} {M : Multiset (Place × Packet)}
    (h : n.held = x ::ₘ M) : x ∈ n.held :=
  h ▸ Multiset.mem_cons_self x M

theorem mem_rest {n : Net} {x y : Place × Packet} {M : Multiset (Place × Packet)}
    (h : n.held = x ::ₘ M) (hy : y ∈ M) : y ∈ n.held :=
  h ▸ Multiset.mem_cons_of_mem hy

variable [Clock]

/-- A step changes neither the setting nor the clock nor whether the run is on. -/
theorem Step.frame {n n' : Net} (h : Step n n') :
    n'.setting = n.setting ∧ n'.clock = n.clock ∧ n'.running = n.running := by
  cases h <;> simp [Net.lose, arrive, Net.launch, Net.launchTwice]

/-- The token never falls, and while it stands the sender awaits nothing new. -/
theorem Step.later {n n' : Net} (h : Step n n') : n.token ≤ n'.token ∧
    (n'.token = n.token → n'.awaiting = n.awaiting ∨ n'.awaiting = none) := by
  have htransmit : ∀ (M : Multiset Event) (k : ℕ) (re : Bool),
      n.token ≤ (Net.transmit { n with pending := M } k re).token ∧
        ((Net.transmit { n with pending := M } k re).token = n.token →
          (Net.transmit { n with pending := M } k re).awaiting = n.awaiting ∨
            (Net.transmit { n with pending := M } k re).awaiting = none) := by
    intro M k re
    by_cases hm : n.setting.mode = .tcp
    · rw [transmit_tcp { n with pending := M } k re hm]
      exact ⟨Nat.le_succ _, fun h => absurd h (Nat.succ_ne_self _)⟩
    · rw [transmit_udp { n with pending := M } k re hm]
      exact ⟨le_rfl, fun _ => .inl rfl⟩
  cases h with
  | send _ _ _ _ => exact htransmit _ _ _
  | resend _ _ _ _ _ _ _ => exact htransmit _ _ _
  | @receive a p M _ _ =>
      by_cases hm : n.setting.mode = .tcp
      · rw [receive_tcp (n.arrive M (p.arriveAt p.destination)) p.sequence hm]
        exact ⟨le_rfl, fun _ => .inl rfl⟩
      · rw [receive_udp (n.arrive M (p.arriveAt p.destination)) p.sequence hm]
        exact ⟨le_rfl, fun _ => .inl rfl⟩
  | @accept a p M k _ _ _ _ =>
      rw [accept_eq (n.arrive M (p.arriveAt p.destination)) k]
      exact ⟨le_rfl, fun _ => .inr rfl⟩
  | _ => exact ⟨le_rfl, fun _ => .inl rfl⟩

theorem Later.quiet {n n' : Net} (h : Later n n') : n.token ≤ n'.token ∧
    (n'.token = n.token → n.awaiting = none → n'.awaiting = none) := by
  induction h with
  | refl => exact ⟨le_rfl, fun _ h => h⟩
  | tail _ hs ih =>
      rcases hs with hs | ⟨dt, -, rfl⟩
      · refine ⟨ih.1.trans hs.later.1, fun heq hnone => ?_⟩
        have htok := le_antisymm (heq ▸ hs.later.1) ih.1
        rcases hs.later.2 (heq.trans htok.symm) with h | h
        · exact h.trans (ih.2 htok hnone)
        · exact h
      · exact ih

/-- Steps change neither the setting nor the clock nor whether the run is on. -/
theorem Steps.frame {n n' : Net} (h : Steps n n') :
    n'.setting = n.setting ∧ n'.clock = n.clock ∧ n'.running = n.running := by
  induction h with
  | refl => exact ⟨rfl, rfl, rfl⟩
  | tail _ hs ih =>
      obtain ⟨hset, hclock, hrun⟩ := hs.frame
      exact ⟨hset.trans ih.1, hclock.trans ih.2.1, hrun.trans ih.2.2⟩

theorem Run.setting {s : Setting} {n : Net} (h : Run s n) : n.setting = s := by
  induction h with
  | start => rfl
  | tick _ _ _ ih => exact ih
  | step _ _ hs ih => exact hs.frame.1.trans ih
  | finish _ _ ih => exact ih

theorem Run.steps {s : Setting} {n n' : Net} (h : Run s n) (hrun : n.running = true)
    (hs : Steps n n') : Run s n' := by
  induction hs with
  | refl => exact h
  | tail hs h' ih => exact .step ih ((Steps.frame hs).2.2.trans hrun) h'

end Net

end PacketSim
