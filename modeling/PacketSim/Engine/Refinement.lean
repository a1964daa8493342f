import PacketSim.Engine.Network
import PacketSim.Lib.Except

/-!
# Engine — Refinement

Every `update` of the engine is a tick and a sequence of steps of the network model
(`update_steps`).

`toNet` forgets the order of the queues, the gates of the routers, the remaining times of the
flights, the generator and the markers.  Each method of the engine is followed by an equation for
`toNet` of what it returns; the three loops of `update` are then sequences of steps
(`runDueEvents_steps`, `dispatchRouters_steps`, `advanceInFlightPackets_steps`).  While the flights
advance, the network holds those kept so far and those still to come.
-/

namespace PacketSim
open Lib

/-- The part of a router that no `update` changes. -/
def Router.wiring (r : Router) : Router := { r with queue := [], nextAvailableTimeMs := 0 }

/-- The packets queued at a router, which stands at `node`. -/
def Router.heldAt (r : Router) (node : Int) : Multiset (Place × Packet) :=
  (r.queue : Multiset Packet).map fun p => (.queue node, p)

/-- A flight, as a network holds it. -/
def InFlightPacket.held (f : InFlightPacket) : Place × Packet :=
  (.link f.startNode f.endNode, f.packet)

namespace Engine

variable {σ : Type}

/-- What a run of the engine never changes. -/
def setting (e : Engine σ) : Setting where
  graphManager := e.graphManager
  routers := e.routers.map fun _ r => r.wiring
  conditions := e.conditions
  mode := e.mode
  packetGoal := e.packetGoal
  trafficPort := e.trafficPort
  useSdn := e.useSdn
  source := e.source
  destination := e.destination
  sessionId := e.sessionId

/-- The packets held in router queues. -/
def queued (e : Engine σ) : Multiset (Place × Packet) :=
  (e.routers.entries.map fun entry => entry.2.heldAt entry.1).sum

/-- The packets held in router queues and on links. -/
def held (e : Engine σ) : Multiset (Place × Packet) :=
  e.queued + (e.inFlightPackets.map InFlightPacket.held : List _)

/-- The engine as a state of the network model. -/
def toNet (e : Engine σ) : Net where
  setting := e.setting
  clock := e.currentTimeMs
  running := e.running
  completed := e.completed
  held := e.held
  pending := e.events.items
  nextEventId := e.nextEventId
  nextPacketId := e.nextPacketId
  awaiting := e.awaitingAck
  token := e.timeoutToken
  delivered := e.deliveredSequences
  stats := e.stats
  history := e.history

theorem packets_toNet (e : Engine σ) :
    (e.packets : Multiset Packet) = e.toNet.held.map Prod.snd := by
  have hq : ∀ l : List (Int × Router), (((l.map Prod.snd).flatMap Router.queue : List _) :
      Multiset Packet) =
        ((l.map fun entry : Int × Router => entry.2.heldAt entry.1).sum).map Prod.snd := by
    intro l
    induction l with
    | nil => rfl
    | cons x l ih =>
        rw [List.map_cons, List.flatMap_cons, ← Multiset.coe_add, ih, List.map_cons, List.sum_cons,
          Multiset.map_add, Router.heldAt, Multiset.map_map]
        simp
  show ((_ ++ _ : List Packet) : Multiset Packet) = (e.queued + _).map Prod.snd
  rw [← Multiset.coe_add, Multiset.map_add, Multiset.map_coe, List.map_map]
  exact congrArg (· + _) (hq e.routers.entries)

theorem mem_packets {e : Engine σ} {p : Packet} :
    p ∈ e.packets ↔ ∃ place, (place, p) ∈ e.toNet.held := by
  rw [← Multiset.mem_coe, packets_toNet, Multiset.mem_map]
  simp

/-! ### Routers -/

/-- What is held elsewhere, when one router changes. -/
theorem held_modify {e : Engine σ} {node : Int} {r : Router} (h : e.routers.get? node = some r) :
    ∃ M : Multiset (Place × Packet), e.held = M + r.heldAt node ∧
      ∀ f : Router → Router,
        held { e with routers := e.routers.modify node f } = M + (f r).heldAt node := by
  obtain ⟨l₁, l₂, he, hf⟩ := Dict.entries_modify h
  refine ⟨(l₁.map fun entry => entry.2.heldAt entry.1).sum +
    (l₂.map fun entry => entry.2.heldAt entry.1).sum +
      (e.inFlightPackets.map InFlightPacket.held : List _), ?_, fun f => ?_⟩
  · simp only [held, queued, he, List.map_append, List.map_cons, List.sum_append, List.sum_cons]
    abel
  · simp only [held, queued, hf f, List.map_append, List.map_cons, List.sum_append, List.sum_cons]
    abel

/-- A change to a router's queue or gate is no change to the wiring. -/
theorem wiring_modify {d : Dict Int Router} {node : Int} {r : Router} (h : d.get? node = some r)
    {f : Router → Router} (hf : (f r).wiring = r.wiring) :
    (d.modify node f).map (fun _ r => r.wiring) = d.map fun _ r => r.wiring :=
  Dict.map_modify h hf

/-- The network after a change to one router's queue or gate. -/
theorem toNet_modify {e : Engine σ} {node : Int} {r : Router} (h : e.routers.get? node = some r) :
    ∃ M : Multiset (Place × Packet), e.toNet.held = M + r.heldAt node ∧
      ∀ f : Router → Router, (f r).wiring = r.wiring →
        toNet { e with routers := e.routers.modify node f } =
          { e.toNet with held := M + (f r).heldAt node } := by
  obtain ⟨M, hM, hf⟩ := held_modify h
  refine ⟨M, hM, fun f hw => ?_⟩
  have hset : setting { e with routers := e.routers.modify node f } = e.setting := by
    simp only [setting, wiring_modify h hw]
  simp only [toNet, hset, hf]

theorem mem_queue {e : Engine σ} {v : Int} {r : Router} {p : Packet}
    (hr : e.routers.get? v = some r) (hp : p ∈ r.queue) : (.queue v, p) ∈ e.toNet.held := by
  obtain ⟨M, hM, -⟩ := toNet_modify hr
  rw [hM, Multiset.mem_add]
  exact .inr (Multiset.mem_map_of_mem (fun p => (Place.queue v, p)) (Multiset.mem_coe.mpr hp))

theorem mem_flight {e : Engine σ} {f : InFlightPacket} (hf : f ∈ e.inFlightPackets) :
    (.link f.startNode f.endNode, f.packet) ∈ e.toNet.held :=
  Multiset.mem_add.mpr (.inr (Multiset.mem_coe.mpr (List.mem_map_of_mem hf)))

theorem enqueue_toNet {e e' : Engine σ} {node : Int} {p : Packet}
    (h : e.enqueue node p = .ok e') :
    e'.toNet = { e.toNet with held := (.queue node, p) ::ₘ e.toNet.held } := by
  unfold enqueue at h
  split at h
  · cases h
  · rename_i r hr
    cases h
    obtain ⟨M, hM, hf⟩ := toNet_modify hr
    have hq : (r.enqueue p).heldAt node = (.queue node, p) ::ₘ r.heldAt node := by
      simp only [Router.heldAt, Router.enqueue, ← Multiset.coe_add, Multiset.map_add,
        Multiset.coe_singleton, Multiset.map_singleton]
      rw [add_comm, Multiset.singleton_add]
    rw [hf (·.enqueue p) rfl, hM, hq, Multiset.add_cons]

theorem router_toNet {e : Engine σ} {node : Int} {r : Router} (h : e.routers.get? node = some r) :
    e.toNet.setting.routers.get? node = some r.wiring := by
  simp [toNet, setting, h]

/-! ### Events and packets -/

theorem schedule_toNet [Clock] {e e' : Engine σ} {delayMs : ℚ} {callback : Callback}
    (h : e.schedule delayMs callback = .ok e') : e'.toNet = e.toNet.schedule delayMs callback := by
  unfold schedule at h
  dsimp only at h
  split at h
  · cases h
  · cases h
    simp [toNet, Net.schedule, Heap.coe_push, setting, held, queued]

theorem injectPacket_toNet {e e' : Engine σ} {p : Packet} (h : e.injectPacket p = .ok e') :
    e'.toNet = { e.toNet.inject p with nextPacketId := e.nextPacketId } := by
  rw [enqueue_toNet h]
  rfl

theorem sendData_toNet [Clock] {e e' : Engine σ} {k : ℕ} {re : Bool} (hk : k < e.packetGoal)
    (h : e.sendData k re = .ok e') : e'.toNet = e.toNet.transmit k re := by
  rw [sendData, if_neg (not_le.mpr hk)] at h
  dsimp only [makePacket] at h
  rw [bind_eq_ok] at h
  obtain ⟨e₁, h₁, h₂⟩ := h
  have hn := injectPacket_toNet h₁
  have hmode : e₁.mode = e.mode := congrArg (fun n : Net => n.setting.mode) hn
  have hclock : e₁.currentTimeMs = e.currentTimeMs := congrArg Net.clock hn
  rw [Net.transmit]
  by_cases hm : e.mode = .tcp
  · have htok : e₁.timeoutToken = e.timeoutToken := congrArg Net.token hn
    rw [if_pos (hmode.trans hm)] at h₂
    rw [if_pos (show e.toNet.setting.mode = .tcp from hm), schedule_toNet h₂]
    have : toNet { e₁ with
        history := .transmitted k re e₁.currentTimeMs :: e₁.history
        awaitingAck := some k
        timeoutToken := e₁.timeoutToken + 1 } =
      { e₁.toNet with
        history := .transmitted k re e₁.currentTimeMs :: e₁.toNet.history
        awaiting := some k
        token := e₁.timeoutToken + 1 } := rfl
    rw [this, hn, htok, hclock]
    rfl
  · rw [if_neg (by rw [hmode]; exact hm)] at h₂
    rw [if_neg (show e.toNet.setting.mode ≠ .tcp from hm)]
    cases h₂
    have : toNet { e₁ with history := .transmitted k re e₁.currentTimeMs :: e₁.history } =
      { e₁.toNet with history := .transmitted k re e₁.currentTimeMs :: e₁.toNet.history } := rfl
    rw [this, hn, hclock]
    rfl

theorem sendAck_toNet {e e' : Engine σ} {k : ℕ} (h : e.sendAck k = .ok e') :
    e'.toNet = e.toNet.acknowledge k := by
  rw [injectPacket_toNet h]
  rfl

/-! ### Callbacks -/

/-- A callback is ignored, sends, or resends. -/
theorem runCallback_cases [Clock] {e e' : Engine σ} {c : Callback} (h : e.runCallback c = .ok e') :
    (e.toNet.Ignores c ∧ e' = e) ∨
      (∃ k, c = .sendData k ∧ k < e.packetGoal ∧ e'.toNet = e.toNet.transmit k false) ∨
      (∃ k, c = .onTimeout k e.timeoutToken ∧ e.running = true ∧ e.completed = false ∧
        e.awaitingAck = some k ∧ k < e.packetGoal ∧ e'.toNet = e.toNet.transmit k true) := by
  cases c with
  | sendData k =>
      by_cases hk : k < e.packetGoal
      · exact .inr (.inl ⟨k, rfl, hk, sendData_toNet hk h⟩)
      · rw [runCallback, sendData, if_pos (not_lt.mp hk)] at h
        cases h
        exact .inl ⟨not_lt.mp hk, rfl⟩
  | onTimeout k token =>
      rw [runCallback, onTimeout] at h
      split at h
      · rename_i hr
        cases h
        simp only [Bool.or_eq_true, Bool.not_eq_true'] at hr
        exact .inl ⟨hr.elim .inl fun hc => .inr (.inl hc), rfl⟩
      · rename_i hr
        simp only [Bool.or_eq_true, Bool.not_eq_true', not_or, Bool.not_eq_false,
          Bool.not_eq_true] at hr
        split at h
        · rename_i ha
          cases h
          exact .inl ⟨ha.elim (fun ha => .inr (.inr (.inl ha)))
            fun ht => .inr (.inr (.inr (.inl ht))), rfl⟩
        · rename_i ha
          simp only [not_or, not_not] at ha
          obtain ⟨haw, rfl⟩ := ha
          by_cases hk : k < e.packetGoal
          · exact .inr (.inr ⟨k, rfl, hr.1, hr.2, haw, hk, sendData_toNet hk h⟩)
          · rw [sendData, if_pos (not_lt.mp hk)] at h
            cases h
            exact .inl ⟨.inr (.inr (.inr (.inr (not_lt.mp hk)))), rfl⟩

/-- What is pending, once an event is popped. -/
theorem pending_pop {e : Engine σ} {ev : Event} {events : Heap Event Event.Before}
    (h : e.events.pop? = some (ev, events)) :
    e.toNet.pending = ev ::ₘ (events.items : Multiset Event) := by
  show ((e.events.items : List Event) : Multiset Event) = _
  rw [Heap.pop?_eq_some.mp h, Multiset.cons_coe]

/-- Popping a due event and running its callback is one step. -/
theorem callback_step [Clock] {e e' : Engine σ} {ev : Event} {events : Heap Event Event.Before}
    (hpop : e.events.pop? = some (ev, events)) (hdue : ev.dueTime ≤ e.currentTimeMs)
    (h : runCallback { e with events } ev.callback = .ok e') : Net.Step e.toNet e'.toNet := by
  have hev := pending_pop hpop
  have hnet : toNet { e with events } = { e.toNet with pending := events.items } := rfl
  rcases runCallback_cases h with ⟨hi, rfl⟩ | ⟨k, hc, hk, hn⟩ | ⟨k, hc, hr, hcomp, ha, hk, hn⟩
  · exact .ignore hev hdue hi
  · rw [hn, hnet]
    exact .send hev hdue hc hk
  · rw [hn, hnet]
    exact .resend hev hdue hc hr hcomp ha hk

/-- The loop over the due events stops, or runs the callback of the first and goes on. -/
theorem runDueEvents_cases [Clock] {fuel : ℕ} {e e' : Engine σ} (h : runDueEvents fuel e = .ok e') :
    (e' = e ∧ ∀ ev events, e.events.pop? = some (ev, events) → ¬ ev.dueTime ≤ e.currentTimeMs) ∨
      ∃ fuel' ev events e₁, fuel = fuel' + 1 ∧ e.events.pop? = some (ev, events) ∧
        ev.dueTime ≤ e.currentTimeMs ∧ runCallback { e with events } ev.callback = .ok e₁ ∧
          runDueEvents fuel' e₁ = .ok e' := by
  unfold runDueEvents at h
  split at h
  · rename_i hpop
    cases h
    exact .inl ⟨rfl, fun ev events heq => by cases hpop.symm.trans heq⟩
  · rename_i ev events hpop
    split at h
    · rename_i hdue
      cases fuel with
      | zero => cases h
      | succ fuel =>
          dsimp only at h
          rw [bind_eq_ok] at h
          obtain ⟨e₁, h₁, h₂⟩ := h
          exact .inr ⟨fuel, ev, events, e₁, rfl, hpop, hdue, h₁, h₂⟩
    · rename_i hlate
      cases h
      exact .inl ⟨rfl, fun ev' events' heq => by cases hpop.symm.trans heq; exact hlate⟩

/-- What every due callback keeps, the loop over the due events keeps. -/
theorem runDueEvents_invariant [Clock] {P : Engine σ → Prop}
    (step : ∀ e e' ev events, e.events.pop? = some (ev, events) → ev.dueTime ≤ e.currentTimeMs →
      runCallback { e with events } ev.callback = .ok e' → P e → P e') :
    ∀ {fuel : ℕ} {e e' : Engine σ}, runDueEvents fuel e = .ok e' → P e → P e' := by
  intro fuel
  induction fuel with
  | zero =>
      intro e e' h he
      obtain ⟨rfl, -⟩ | ⟨_, _, _, _, hfuel, -⟩ := runDueEvents_cases h
      · exact he
      · cases hfuel
  | succ fuel ih =>
      intro e e' h he
      obtain ⟨rfl, -⟩ | ⟨_, ev, events, e₁, hfuel, hpop, hdue, h₁, h₂⟩ := runDueEvents_cases h
      · exact he
      · cases hfuel
        exact ih h₂ (step e e₁ ev events hpop hdue h₁ he)

theorem runDueEvents_steps [Clock] {fuel : ℕ} {e e' : Engine σ} (h : runDueEvents fuel e = .ok e') :
    Net.Steps e.toNet e'.toNet :=
  runDueEvents_invariant (P := fun x => Net.Steps e.toNet x.toNet)
    (fun _ _ _ _ hpop hdue h hs => hs.tail (callback_step hpop hdue h)) h .refl

/-- The loop rule within a run: the callbacks run in states of the run, at one time. -/
theorem runDueEvents_run [Clock] {s : Setting} {P : Engine σ → Prop} {fuel : ℕ} {e e' : Engine σ}
    (step : ∀ x x' ev events, Net.Run s x.toNet → x.currentTimeMs = e.currentTimeMs →
      x.events.pop? = some (ev, events) → ev.dueTime ≤ x.currentTimeMs →
        runCallback { x with events } ev.callback = .ok x' → P x → P x')
    (h : runDueEvents fuel e = .ok e') (hr : Net.Run s e.toNet) (hrun : e.running = true)
    (hP : P e) :
    Net.Run s e'.toNet ∧ P e' := by
  have hinv := runDueEvents_invariant
    (P := fun x => Net.Run s x.toNet ∧ x.running = true ∧ x.currentTimeMs = e.currentTimeMs ∧ P x)
    (fun x x' ev events hpop hdue hcall ⟨hxr, hxrun, hxc, hx⟩ => by
      have hs := callback_step hpop hdue hcall
      exact ⟨.step hxr hxrun hs, hs.frame.2.2.trans hxrun, hs.frame.2.1.trans hxc,
        step x x' ev events hxr hxc hpop hdue hcall hx⟩)
    h ⟨hr, hrun, rfl, hP⟩
  exact ⟨hinv.1, hinv.2.2.2⟩

/-- After the loop no event is due. -/
theorem runDueEvents_done [Clock] : ∀ {fuel : ℕ} {e e' : Engine σ}, runDueEvents fuel e = .ok e' →
    ∀ ev ∈ e'.events.items, e'.currentTimeMs < ev.dueTime := by
  -- the first event is least, so if it is not due then none is
  have hstop : ∀ {e : Engine σ}, (∀ ev events, e.events.pop? = some (ev, events) →
      ¬ ev.dueTime ≤ e.currentTimeMs) → ∀ ev ∈ e.events.items, e.currentTimeMs < ev.dueTime := by
    intro e hlate ev' hev'
    cases hpop : e.events.pop? with
    | none => simp [Heap.pop?_eq_none.mp hpop] at hev'
    | some q =>
        obtain ⟨ev, events⟩ := q
        have hlate := not_le.mp (hlate ev events hpop)
        rw [Heap.pop?_eq_some.mp hpop, List.mem_cons] at hev'
        rcases hev' with rfl | hev'
        · exact hlate
        · rcases Heap.pop?_le hpop hev' with h | ⟨h, -⟩
          · exact hlate.trans h
          · exact h ▸ hlate
  intro fuel
  induction fuel with
  | zero =>
      intro e e' h
      obtain ⟨rfl, hlate⟩ | ⟨_, _, _, _, hfuel, -⟩ := runDueEvents_cases h
      · exact hstop hlate
      · cases hfuel
  | succ fuel ih =>
      intro e e' h
      obtain ⟨rfl, hlate⟩ | ⟨_, _, _, _, hfuel, -, -, -, h₂⟩ := runDueEvents_cases h
      · exact hstop hlate
      · cases hfuel
        exact ih h₂

/-! ### Arrivals -/

theorem noteDelivered_toNet (e : Engine σ) (k : ℕ) :
    (e.noteDelivered k).toNet = e.toNet.noteDelivered k := by
  unfold noteDelivered Net.noteDelivered
  by_cases hk : k ∈ e.deliveredSequences
  · rw [if_pos hk, if_pos (show k ∈ e.toNet.delivered from hk)]
  · rw [if_neg hk, if_neg (show k ∉ e.toNet.delivered from hk)]
    rfl

theorem onDataReceived_toNet {e e' : Engine σ} {p : Packet} (h : e.onDataReceived p = .ok e') :
    e'.toNet = e.toNet.receive p.sequence := by
  unfold onDataReceived at h
  rw [Net.receive, ← noteDelivered_toNet]
  dsimp only at h
  split at h
  · rename_i hm
    rw [if_pos (show (e.noteDelivered p.sequence).toNet.setting.mode = .tcp from hm)]
    exact sendAck_toNet h
  · rename_i hm
    rw [if_neg (show (e.noteDelivered p.sequence).toNet.setting.mode ≠ .tcp from hm)]
    cases h
    rfl

/-- An acknowledgement is ignored or accepted. -/
theorem onAckReceived_cases [Clock] {e e' : Engine σ} {p : Packet}
    (h : e.onAckReceived p = .ok e') :
    ((∀ k, e.awaitingAck = some k → p.ackFor ≠ some k) ∧ e'.toNet = e.toNet) ∨
      ∃ k, e.awaitingAck = some k ∧ p.ackFor = some k ∧ e'.toNet = e.toNet.accept k := by
  unfold onAckReceived at h
  split at h
  · rename_i hne
    cases h
    exact .inl ⟨fun k hk hp => hne (hk.trans hp.symm), rfl⟩
  · rename_i heq
    rw [ne_eq, not_not] at heq
    cases hp : p.ackFor with
    | none =>
        rw [hp] at heq
        simp only [hp] at h
        cases h
        refine .inl ⟨fun k hk => by simp, ?_⟩
        rw [← heq]
    | some k =>
        simp only [hp] at h
        refine .inr ⟨k, by rw [heq, hp], rfl, ?_⟩
        unfold Net.accept
        dsimp only
        have hg : e.toNet.setting.packetGoal = e.packetGoal := rfl
        rw [hg]
        split at h
        · rename_i hk
          cases h
          rw [if_pos hk]
          rfl
        · rename_i hk
          rw [if_neg hk, schedule_toNet h]
          rfl

theorem recordDrop_toNet (e : Engine σ) (a b : Option Int) (reason : String) :
    (e.recordDrop a b reason).toNet = e.toNet.lose e.toNet.held :=
  rfl

theorem recordDelivery_toNet (e : Engine σ) (p : Packet) :
    (e.recordDelivery p).toNet =
      { e.toNet with history := .arrived p e.toNet.clock :: e.toNet.history } :=
  rfl

/-- What the arrival of a packet does to the network, of which the packet is no longer part. -/
inductive Arrival [Clock] (n : Net) (p : Packet) (node : Int) : Net → Prop where
  | relay (hdst : node ≠ p.destination) :
      Arrival n p node { n with held := (.queue node, p.arriveAt node) ::ₘ n.held }
  | data (hdst : node = p.destination) (htype : p.packetType = .data) :
      Arrival n p node ((n.arrive n.held (p.arriveAt node)).receive p.sequence)
  | ignored (hdst : node = p.destination) (htype : p.packetType = .ack)
      (hne : ∀ k, n.awaiting = some k → p.ackFor ≠ some k) :
      Arrival n p node (n.arrive n.held (p.arriveAt node))
  | accepted {k : ℕ} (hdst : node = p.destination) (htype : p.packetType = .ack)
      (hk : n.awaiting = some k) (hack : p.ackFor = some k) :
      Arrival n p node ((n.arrive n.held (p.arriveAt node)).accept k)

theorem handleArrival_cases [Clock] {e e' : Engine σ} {f : InFlightPacket}
    (h : e.handleArrival f = .ok e') : Arrival e.toNet f.packet f.endNode e'.toNet := by
  unfold handleArrival at h
  dsimp only at h
  have harr : (e.recordDelivery (f.packet.arriveAt f.endNode)).toNet =
      e.toNet.arrive e.toNet.held (f.packet.arriveAt f.endNode) := recordDelivery_toNet _ _
  split at h
  · rename_i hdst
    split at h
    · rename_i htype
      rw [onDataReceived_toNet h, harr]
      exact .data hdst htype
    · rename_i htype
      rcases onAckReceived_cases h with ⟨hne, hn⟩ | ⟨k, hk, hack, hn⟩
      · rw [hn, harr]
        exact .ignored hdst htype hne
      · rw [hn, harr]
        exact .accepted hdst htype hk hack
  · rename_i hdst
    rw [enqueue_toNet h]
    exact .relay hdst

/-- A flight that ends and is not lost is one step. -/
theorem handleArrival_step [Clock] {e e' : Engine σ} {f : InFlightPacket} {n : Net}
    {M : Multiset (Place × Packet)} (hn : n.held = f.held ::ₘ M)
    (he : e.toNet = { n with held := M }) (h : e.handleArrival f = .ok e') :
    Net.Step n e'.toNet := by
  have harrival := handleArrival_cases h
  rw [he] at harrival
  obtain ⟨p, a, node, _, _, _, _⟩ := f
  generalize e'.toNet = n' at harrival
  cases harrival with
  | relay hdst => exact .relay hn hdst
  | data hdst htype =>
      obtain rfl : node = p.destination := hdst
      exact .receive hn htype
  | ignored hdst htype hne =>
      obtain rfl : node = p.destination := hdst
      exact .ignoreAck hn htype hne
  | accepted hdst htype hk hack =>
      obtain rfl : node = p.destination := hdst
      exact .accept hn htype hk hack

/-! ### Dispatch -/

/-- The engine with the flights `l` on its links. -/
def withFlights (e : Engine σ) (l : List InFlightPacket) : Engine σ :=
  { e with inFlightPackets := l }

theorem withFlights_toNet (e : Engine σ) (l : List InFlightPacket) :
    (e.withFlights l).toNet =
      { e.toNet with held := e.queued + (l.map InFlightPacket.held : List _) } :=
  rfl

theorem takeHead_toNet [Clock] {e : Engine σ} {id : Int} {r : Router} {p : Packet}
    {queue : List Packet} (hr : e.routers.get? id = some r) (hq : r.queue = p :: queue) :
    ∃ M, e.toNet.held = (.queue id, p) ::ₘ M ∧
      (e.takeHead id r queue).toNet = { e.toNet with held := M } := by
  obtain ⟨M, hM, hf⟩ := toNet_modify hr
  refine ⟨M + ((queue : Multiset Packet).map fun p => (Place.queue id, p)), ?_, hf (fun _ =>
    { r with queue, nextAvailableTimeMs := Clock.after e.currentTimeMs r.processingDelayMs }) rfl⟩
  rw [hM, Router.heldAt, hq, ← Multiset.cons_coe, Multiset.map_cons, Multiset.add_cons]

section Draws
variable [RandomSource σ]

theorem held_launched {c : NetworkConditions} {p : Packet} {a b d : Int} {f : InFlightPacket}
    (h : f.Launched σ c p a b d) : f.held = (.link a b, p) := by
  rw [InFlightPacket.held, h.packet, h.startNode, h.endNode]

theorem launchLink_toNet {e e' : Engine σ} {p : Packet} {a b : Int}
    (h : e.launchLink p a b = .ok e') :
    (∃ d, e.graphManager.getEdgeDelay a b = .ok d) ∧
      (e'.toNet = e.toNet.launch a b p ∨ e'.toNet = e.toNet.launchTwice a b p) := by
  obtain ⟨d, hd, f, g, n, hf, rfl | ⟨-, f', hf', rfl⟩⟩ := launchLink_cases h
  · refine ⟨⟨d, hd⟩, .inl ?_⟩
    refine (withFlights_toNet e (e.inFlightPackets ++ [f])).trans ?_
    rw [Net.launch, List.map_append, ← Multiset.coe_add, ← add_assoc, List.map_singleton,
      held_launched hf, Multiset.coe_singleton, add_comm, Multiset.singleton_add]
    rfl
  · refine ⟨⟨d, hd⟩, .inr ?_⟩
    have hl : e.queued + ((e.inFlightPackets ++ [f, f']).map InFlightPacket.held : List _) =
        f'.held ::ₘ f.held ::ₘ e.toNet.held := by
      rw [List.map_append, ← Multiset.coe_add, ← add_assoc, add_comm, List.map_cons,
        List.map_singleton, ← Multiset.cons_coe, Multiset.coe_singleton, Multiset.cons_add,
        Multiset.singleton_add, Multiset.cons_swap]
      rfl
    have : ∀ M, M = f'.held ::ₘ f.held ::ₘ e.toNet.held → { e.toNet with
        held := M
        nextPacketId := e.nextPacketId + 1
        stats := { e.stats with
          packetsSent := e.stats.packetsSent + 1
          duplicatePackets := e.stats.duplicatePackets + 1 } } = e.toNet.launchTwice a b p := by
      rintro M rfl
      rw [held_launched hf, held_launched hf']
      rfl
    exact this _ hl

/-- A router's turn is no step or one. -/
theorem dispatchRouter_steps [Clock] {e e' : Engine σ} {id : Int}
    (h : e.dispatchRouter id = .ok e') : Net.Steps e.toNet e'.toNet := by
  obtain ⟨r, hr, ⟨-, rfl⟩ | ⟨p, queue, hq, -, h⟩⟩ := dispatchRouter_cases h
  · exact .refl
  · obtain ⟨M, hM, hn⟩ := takeHead_toNet hr hq
    have hr' := router_toNet hr
    obtain ⟨value, hrule, rfl⟩ | ⟨hop, hhop, h⟩ := h
    · rw [recordDrop_toNet, hn]
      exact .single (.block hM hr' hrule)
    · obtain ⟨⟨d, hd⟩, h | h⟩ := launchLink_toNet h
      · rw [h, hn]
        exact .single (.launch (r := r.wiring) hM hr' hhop hd)
      · rw [h, hn]
        exact .single (.launchTwice (r := r.wiring) hM hr' hhop hd)

theorem dispatchRouters_steps [Clock] {e e' : Engine σ} (h : e.dispatchRouters = .ok e') :
    Net.Steps e.toNet e'.toNet :=
  foldlM_invariant (P := fun x => Net.Steps e.toNet x.toNet)
    (fun _ _ _ _ h hs => hs.trans (dispatchRouter_steps h)) h .refl

end Draws

/-! ### Flights -/

section Frame
variable (l : List InFlightPacket)

theorem schedule_withFlights [Clock] {e e' : Engine σ} {d : ℚ} {c : Callback}
    (h : e.schedule d c = .ok e') :
    (e.withFlights l).schedule d c = .ok (e'.withFlights l) := by
  unfold schedule at h ⊢
  dsimp only [withFlights] at h ⊢
  split at h
  · cases h
  · rename_i hc
    cases h
    exact if_neg hc

theorem enqueue_withFlights {e e' : Engine σ} {node : Int} {p : Packet}
    (h : e.enqueue node p = .ok e') :
    (e.withFlights l).enqueue node p = .ok (e'.withFlights l) := by
  unfold enqueue at h ⊢
  dsimp only [withFlights] at h ⊢
  split at h
  · cases h
  · cases h
    rfl

theorem noteDelivered_withFlights (e : Engine σ) (k : ℕ) :
    (e.withFlights l).noteDelivered k = (e.noteDelivered k).withFlights l := by
  unfold noteDelivered
  rw [apply_ite (withFlights · l)]
  rfl

theorem onDataReceived_withFlights {e e' : Engine σ} {p : Packet}
    (h : e.onDataReceived p = .ok e') :
    (e.withFlights l).onDataReceived p = .ok (e'.withFlights l) := by
  unfold onDataReceived at h ⊢
  rw [noteDelivered_withFlights]
  dsimp only at h ⊢
  split at h
  · rename_i hm
    rw [if_pos (show ((e.noteDelivered p.sequence).withFlights l).mode = .tcp from hm)]
    exact enqueue_withFlights l h
  · rename_i hm
    rw [if_neg (show ((e.noteDelivered p.sequence).withFlights l).mode ≠ .tcp from hm)]
    cases h
    rfl

theorem onAckReceived_withFlights [Clock] {e e' : Engine σ} {p : Packet}
    (h : e.onAckReceived p = .ok e') :
    (e.withFlights l).onAckReceived p = .ok (e'.withFlights l) := by
  unfold onAckReceived at h ⊢
  dsimp only at h ⊢
  split at h
  · rename_i hne
    cases h
    rw [if_pos (show (e.withFlights l).awaitingAck ≠ p.ackFor from hne)]
  · rename_i heq
    rw [if_neg (show ¬ (e.withFlights l).awaitingAck ≠ p.ackFor from heq)]
    split at h
    · cases h
      rfl
    · split at h
      · rename_i hk
        cases h
        exact if_pos hk
      · rename_i hk
        exact (if_neg hk).trans (schedule_withFlights l h)

/-- An arrival neither reads nor changes the flights. -/
theorem handleArrival_withFlights [Clock] {e e' : Engine σ} {f : InFlightPacket}
    (h : e.handleArrival f = .ok e') :
    (e.withFlights l).handleArrival f = .ok (e'.withFlights l) := by
  unfold handleArrival at h ⊢
  dsimp only at h ⊢
  split at h
  · rename_i hd
    rw [if_pos hd]
    split at h
    · exact onDataReceived_withFlights l h
    · exact onAckReceived_withFlights l h
  · rename_i hd
    rw [if_neg hd]
    exact enqueue_withFlights l h

end Frame

/-- The engine in the middle of `advanceInFlightPackets`: the flights kept so far, and those still
to come, are on the links. -/
def advancing (st : List InFlightPacket × Engine σ) (rest : List InFlightPacket) : Engine σ :=
  st.2.withFlights (st.1 ++ rest)

/-- One flight's turn is no step or one. -/
theorem advanceFlight_steps [Clock] {st st' : List InFlightPacket × Engine σ} {f : InFlightPacket}
    {rest : List InFlightPacket} {dt : ℚ} (h : advanceFlight dt st f = .ok st') :
    Net.Steps (advancing st (f :: rest)).toNet (advancing st' rest).toNet := by
  obtain ⟨kept, e⟩ := st
  have hheld : (advancing (kept, e) (f :: rest)).toNet.held =
      f.held ::ₘ (advancing (kept, e) rest).toNet.held := by
    simp only [advancing, withFlights_toNet, List.map_append, List.map_cons, ← Multiset.coe_add,
      ← Multiset.cons_coe, Multiset.add_cons]
  have hnet : (advancing (kept, e) rest).toNet =
      { (advancing (kept, e) (f :: rest)).toNet with
        held := (advancing (kept, e) rest).toNet.held } := rfl
  unfold advanceFlight at h
  dsimp only at h
  split at h
  · cases h
    have : (advancing
        (kept ++ [{ f with remainingTimeMs := f.remainingTimeMs - dt }], e) rest).toNet =
        (advancing (kept, e) (f :: rest)).toNet := by
      simp [advancing, withFlights_toNet, InFlightPacket.held]
    rw [this]
  · split at h
    · cases h
      exact .single (.lose hheld)
    · rw [bind_eq_ok] at h
      obtain ⟨e', h, h'⟩ := h
      cases h'
      exact .single (handleArrival_step hheld hnet (handleArrival_withFlights (kept ++ rest) h))

theorem advanceFlights_steps [Clock] {dt : ℚ} :
    ∀ {l : List InFlightPacket} {st st' : List InFlightPacket × Engine σ},
      l.foldlM (advanceFlight dt) st = .ok st' →
        Net.Steps (advancing st l).toNet (advancing st' []).toNet
  | [], st, st', h => by
      cases h
      exact .refl
  | f :: l, st, st', h => by
      rw [List.foldlM_cons, bind_eq_ok] at h
      obtain ⟨st₁, h₁, h₂⟩ := h
      exact (advanceFlight_steps h₁).trans (advanceFlights_steps h₂)

theorem advanceInFlightPackets_steps [Clock] {e e' : Engine σ} {dt : ℚ}
    (h : e.advanceInFlightPackets dt = .ok e') : Net.Steps e.toNet e'.toNet := by
  rw [advanceInFlightPackets, bind_eq_ok] at h
  obtain ⟨⟨kept, e₁⟩, h₁, h₂⟩ := h
  have := advanceFlights_steps h₁
  cases h₂
  rw [advancing, advancing, List.append_nil] at this
  exact this

/-! ### `update` -/

theorem checkFinished_cases (e : Engine σ) :
    e.checkFinished = e ∨ e.running = true ∧ e.checkFinished.toNet = e.toNet.finish := by
  have hf : e.finishRun = e ∨ e.running = true ∧ e.finishRun.toNet = e.toNet.finish := by
    unfold finishRun
    split
    · rename_i hr
      exact .inr ⟨hr, rfl⟩
    · exact .inl rfl
  unfold checkFinished
  split
  · exact hf
  · split
    · exact hf
    · split
      · exact hf
      · exact .inl rfl

/-- An update of an engine at rest only ages the markers. -/
theorem update_idle [Clock] [RandomSource σ] {e : Engine σ} (dt : ℚ) (h : e.running = false) :
    e.update dt = .ok (e.updatePacketEvents dt) := by
  unfold update
  exact if_pos (by simp [updatePacketEvents, h])

/-- The engine at the new time, its markers aged. -/
def ticked [Clock] (e : Engine σ) (dt : ℚ) : Engine σ :=
  { e.updatePacketEvents dt with currentTimeMs := Clock.after e.currentTimeMs dt }

/-- An update of a running engine, in its stages. -/
theorem update_running [Clock] [RandomSource σ] {e : Engine σ} (dt : ℚ) (hrun : e.running = true) :
    e.update dt = (e.updatePacketEvents dt).beforeAdvance dt >>= fun e₂ =>
      e₂.advanceInFlightPackets dt >>= fun e₃ => .ok e₃.checkFinished := by
  unfold update
  exact if_neg (by simp [updatePacketEvents, hrun])

/-- The stages of an update of a running engine. -/
theorem update_eq_ok [Clock] [RandomSource σ] {e e' : Engine σ} {dt : ℚ} (hrun : e.running = true) :
    e.update dt = .ok e' ↔ ∃ e₁ e₂ e₃, runDueEvents e.events.items.length (e.ticked dt) = .ok e₁ ∧
      e₁.dispatchRouters = .ok e₂ ∧ e₂.advanceInFlightPackets dt = .ok e₃ ∧
        e₃.checkFinished = e' := by
  rw [update_running dt hrun, bind_eq_ok]
  constructor
  · rintro ⟨e₂, h₂, h⟩
    rw [bind_eq_ok] at h
    obtain ⟨e₃, h₃, h⟩ := h
    rw [beforeAdvance, bind_eq_ok] at h₂
    obtain ⟨e₁, h₁, h₂⟩ := h₂
    exact ⟨e₁, e₂, e₃, h₁, h₂, h₃, Except.ok.inj h⟩
  · rintro ⟨e₁, e₂, e₃, h₁, h₂, h₃, rfl⟩
    refine ⟨e₂, ?_, bind_eq_ok.mpr ⟨e₃, h₃, rfl⟩⟩
    rw [beforeAdvance, bind_eq_ok]
    exact ⟨e₁, h₁, h₂⟩

/-- The three stages are a tick and a sequence of steps. -/
theorem stages_steps [Clock] [RandomSource σ] {e e₁ e₂ e₃ : Engine σ} {dt : ℚ}
    (h₁ : runDueEvents e.events.items.length (e.ticked dt) = .ok e₁)
    (h₂ : e₁.dispatchRouters = .ok e₂) (h₃ : e₂.advanceInFlightPackets dt = .ok e₃) :
    Net.Steps (e.toNet.tick dt) e₃.toNet :=
  (runDueEvents_steps (e := e.ticked dt) h₁).trans <|
    (dispatchRouters_steps h₂).trans (advanceInFlightPackets_steps h₃)

/-- **Refinement.**  An update of a running engine is a tick and a sequence of steps of the network,
after which the run may finish. -/
theorem update_steps [Clock] [RandomSource σ] {e e' : Engine σ} {dt : ℚ} (hrun : e.running = true)
    (h : e.update dt = .ok e') :
    ∃ e₁ : Engine σ, Net.Steps (e.toNet.tick dt) e₁.toNet ∧ e' = e₁.checkFinished := by
  obtain ⟨e₁, e₂, e₃, h₁, h₂, h₃, rfl⟩ := (update_eq_ok hrun).mp h
  exact ⟨e₃, stages_steps h₁ h₂ h₃, rfl⟩

/-! ### Runs -/

theorem resetRunState_toNet (e : Engine σ) : e.resetRunState.toNet = Net.atRest e.setting := by
  have hq : e.resetRunState.queued = 0 := by
    show ((e.routers.entries.map _).map _).sum = 0
    rw [List.map_map]
    exact List.sum_map_zero (l := e.routers.entries)
  have hs : e.resetRunState.setting = e.setting := by
    simp only [setting, resetRunState, Dict.map_map]
    rfl
  have hh : e.resetRunState.held = 0 := by
    rw [held, hq]
    rfl
  rw [toNet, hs, hh]
  rfl

/-- The `n` sends that a UDP run starts with. -/
theorem scheduleSends_toNet [Clock] {e : Engine σ} :
    ∀ {n : ℕ} {e' : Engine σ}, (List.range n).foldlM
        (fun e sequence => e.schedule (sequence * sendIntervalMs) (.sendData sequence)) e = .ok e' →
      e'.toNet = { e.toNet with
        pending := ((Multiset.range n).map fun k : ℕ =>
          ⟨Clock.after e.currentTimeMs (k * sendIntervalMs), e.nextEventId + k, .sendData k⟩) +
            e.toNet.pending
        nextEventId := e.nextEventId + n } := by
  intro n
  induction n with
  | zero =>
      intro e' h
      cases h
      simp [toNet]
  | succ n ih =>
      intro e' h
      rw [List.range_succ, List.foldlM_append, bind_eq_ok] at h
      obtain ⟨e₁, h₁, h⟩ := h
      rw [List.foldlM_cons, bind_eq_ok] at h
      obtain ⟨e₂, h₂, h⟩ := h
      cases h
      rw [schedule_toNet h₂, ih h₁, Net.schedule]
      simp only [Multiset.range_succ, Multiset.map_cons, Multiset.cons_add]
      rfl

/-- The engine of `start_run` before anything is scheduled. -/
def begun (e : Engine σ) : Engine σ :=
  { e.resetRunState with
    running := true, stats := e.resetRunState.stats.markStarted e.resetRunState.currentTimeMs }

theorem begun_toNet (e : Engine σ) : e.begun.toNet = { Net.atRest e.setting with
    running := true, stats := { startTimeMs := some 0 } } := by
  rw [← resetRunState_toNet e]
  rfl

theorem startRun_of_udp [Clock] {e : Engine σ} (hm : e.mode = .udp) :
    e.startRun = (List.range e.packetGoal).foldlM (fun e sequence =>
      e.schedule (sequence * sendIntervalMs) (.sendData sequence)) e.begun >>= fun e₁ =>
        .ok { e₁ with udpSentAll := true } := by
  unfold startRun
  dsimp only
  split
  · rfl
  · rename_i hm'
    cases hm.symm.trans hm'

theorem startRun_of_tcp [Clock] {e : Engine σ} (hm : e.mode = .tcp) :
    e.startRun = e.begun.schedule 0 (.sendData 0) := by
  unfold startRun
  dsimp only
  split
  · rename_i hm'
    cases hm.symm.trans hm'
  · rfl

theorem startRun_udp [Clock] {e e' : Engine σ} (hm : e.mode = .udp) :
    e.startRun = .ok e' ↔ ∃ e₁, (List.range e.packetGoal).foldlM (fun e sequence =>
      e.schedule (sequence * sendIntervalMs) (.sendData sequence)) e.begun = .ok e₁ ∧
        { e₁ with udpSentAll := true } = e' := by
  rw [startRun_of_udp hm, bind_eq_ok]
  exact exists_congr fun e₁ => and_congr_right fun _ => ⟨Except.ok.inj, congrArg Except.ok⟩

theorem startRun_tcp [Clock] {e e' : Engine σ} (hm : e.mode = .tcp) :
    e.startRun = .ok e' ↔ e.begun.schedule 0 (.sendData 0) = .ok e' := by
  rw [startRun_of_tcp hm]

theorem startRun_toNet [Clock] {e e' : Engine σ} (h : e.startRun = .ok e') :
    e'.toNet = Net.start e.setting := by
  cases hm : e.mode with
  | udp =>
    obtain ⟨e₁, h₁, rfl⟩ := (startRun_udp hm).mp h
    have hfirst : Net.firstEvents e.setting = (Multiset.range e.packetGoal).map fun k : ℕ =>
        ⟨Clock.after e.begun.currentTimeMs (k * sendIntervalMs), e.begun.nextEventId + k,
          .sendData k⟩ := by
      rw [Net.firstEvents, show e.setting.mode = .udp from hm]
      rfl
    have hcard : (Net.firstEvents e.setting).card = e.packetGoal := by
      rw [hfirst, Multiset.card_map, Multiset.card_range]
    refine (scheduleSends_toNet h₁).trans ?_
    rw [← hfirst, begun_toNet, Net.start, hcard]
    simp [Net.atRest]
    rfl
  | tcp =>
    rw [schedule_toNet ((startRun_tcp hm).mp h), begun_toNet, Net.start, Net.firstEvents,
      show e.setting.mode = .tcp from hm]
    simp [Net.schedule, Net.atRest]

theorem Run.of_ticks [Clock] [RandomSource σ] {e₀ e : Engine σ} {dts : List ℚ}
    (hdts : ∀ dt ∈ dts, 0 ≤ dt) (h : e₀.ticks dts = .ok e) : Run e₀ e := by
  rw [ticks, bind_eq_ok] at h
  obtain ⟨e₁, h₁, h⟩ := h
  exact foldlM_invariant (fun _ dt _ hdt h hr => hr.update (hdts dt hdt) h) h (.start h₁)

theorem update_run [Clock] [RandomSource σ] {s : Setting} {e e' : Engine σ} {dt : ℚ} (hdt : 0 ≤ dt)
    (h : e.update dt = .ok e') (hr : Net.Run s e.toNet) : Net.Run s e'.toNet := by
  cases hrun : e.running with
  | false =>
      rw [update_idle dt hrun] at h
      cases h
      exact hr
  | true =>
      obtain ⟨e₁, hs, rfl⟩ := update_steps hrun h
      have h₁ := (hr.tick hrun hdt).steps hrun hs
      rcases checkFinished_cases e₁ with hc | ⟨hr, hc⟩
      · rw [hc]
        exact h₁
      · rw [hc]
        exact .finish h₁ hr

/-- **Every run of the engine is a run of the network.** -/
theorem Run.toNet [Clock] [RandomSource σ] {e₀ e : Engine σ} (h : Run e₀ e) :
    Net.Run e₀.setting e.toNet := by
  induction h with
  | start h =>
      rw [startRun_toNet h]
      exact .start
  | update _ hdt h ih => exact update_run hdt h ih

/-- What no update changes. -/
theorem Run.setting_eq [Clock] [RandomSource σ] {e₀ e : Engine σ} (h : Run e₀ e) :
    e.setting = e₀.setting :=
  h.toNet.setting

theorem Run.packetGoal_eq [Clock] [RandomSource σ] {e₀ e : Engine σ} (h : Run e₀ e) :
    e.packetGoal = e₀.packetGoal :=
  congrArg Setting.packetGoal h.setting_eq

end Engine

end PacketSim
