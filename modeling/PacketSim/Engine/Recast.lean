import PacketSim.Engine.Refinement
import PacketSim.Graph.Forwarding

/-!
# Engine — Recast

Runs do not depend on what no method reads, nor on rules that match no packet of the run.  A recast
(`Recast`) replaces the graph manager by another with the same graph, `use_sdn`, and the rules of
the routers.  Each method of the engine, recast, is the method of the recast engine: it succeeds
where the other does, with the recast result, and raises what the other raises.

Only the dispatch of a router reads rules; the recast is right there if the rules agree on the
packets that are held (`Recast.Fits`).  Every packet held in a run goes to the traffic port, so it
is enough that the rules agree on those.

* `Fits.step`: one step of the network.
* `update_recast`, `ticks_recast`: an update, and a run.
-/

namespace PacketSim
open Lib

/-- A change of what a run without a matching rule does not depend on: SDN, the rules, and of the
manager all but its graph. -/
structure Recast where
  manager : GraphManager → GraphManager
  sdn : Bool → Bool
  rules : Option (List (PacketPredicate × Action)) → Option (List (PacketPredicate × Action))
  graph : ∀ m, (manager m).graph = m.graph

/-- The router with its rules changed. -/
def Recast.router (c : Recast) (r : Router) : Router := { r with rules := c.rules r.rules }

/-- The engine changed throughout. -/
def Engine.recast {σ : Type} (c : Recast) (e : Engine σ) : Engine σ :=
  { e with
    graphManager := c.manager e.graphManager
    useSdn := c.sdn e.useSdn
    routers := e.routers.map fun _ => c.router }

/-! ### Where a recast is right -/

/-- The rules agree on what goes to the traffic port. -/
def Recast.Agrees (c : Recast) (s : Setting) : Prop :=
  ∀ v r, s.routers.get? v = some r → ∀ p : Packet, p.dstPort = s.trafficPort →
    (c.router r).applyRules p = r.applyRules p

/-- The rules agree, and every packet goes to the traffic port. -/
structure Recast.Fits (c : Recast) (n : Net) : Prop where
  agrees : c.Agrees n.setting
  held : ∀ x ∈ n.held, x.2.dstPort = n.setting.trafficPort

namespace Recast

open Net

variable {c : Recast} {n n' : Net}

theorem Fits.moved (h : c.Fits n) {held : Multiset (Place × Packet)} {nextPacketId : ℕ}
    {stats : RunStats} (hm : ∀ x ∈ held, x.2.dstPort = n.setting.trafficPort) :
    c.Fits { n with held, nextPacketId, stats } :=
  { h with held := hm }

theorem Fits.transmit (h : c.Fits n) {M : Multiset Event} {k : ℕ} {re : Bool} :
    c.Fits (Net.transmit { n with pending := M } k re) := by
  refine ⟨by rw [setting_transmit]; exact h.agrees, fun x hx => ?_⟩
  rw [held_transmit] at hx
  rw [setting_transmit]
  rcases Multiset.mem_cons.mp hx with rfl | hx
  · rfl
  · exact h.held x hx

theorem Fits.receive (h : c.Fits n) (k : ℕ) : c.Fits (n.receive k) := by
  by_cases hm : n.setting.mode = .tcp
  · rw [receive_tcp n k hm]
    refine ⟨h.agrees, fun x hx => ?_⟩
    rcases Multiset.mem_cons.mp hx with rfl | hx
    · rfl
    · exact h.held x hx
  · rw [receive_udp n k hm]
    exact ⟨h.agrees, h.held⟩

theorem Fits.accept (h : c.Fits n) (k : ℕ) : c.Fits (n.accept k) := by
  rw [accept_eq n k]
  exact ⟨h.agrees, h.held⟩

theorem Fits.arrive (h : c.Fits n) {x : Place × Packet} {M : Multiset (Place × Packet)} {p : Packet}
    (hheld : n.held = x ::ₘ M) : c.Fits (n.arrive M p) :=
  ⟨h.agrees, fun y hy => h.held y (mem_rest hheld hy)⟩

/-- **Every packet goes to the traffic port.** -/
theorem Fits.step (h : c.Fits n) (hs : Step n n') : c.Fits n' := by
  cases hs with
  | ignore _ _ _ => exact { h with }
  | send _ _ _ _ => exact h.transmit
  | resend _ _ _ _ _ _ _ => exact h.transmit
  | block hheld _ _ => exact h.moved fun x hx => h.held x (mem_rest hheld hx)
  | lose hheld => exact h.moved fun x hx => h.held x (mem_rest hheld hx)
  | launch hheld _ _ _ =>
      have hp := h.held _ (mem_head hheld)
      refine h.moved fun x hx => ?_
      rcases Multiset.mem_cons.mp hx with rfl | hx
      · exact hp
      · exact h.held x (mem_rest hheld hx)
  | launchTwice hheld _ _ _ =>
      have hp := h.held _ (mem_head hheld)
      refine h.moved fun x hx => ?_
      rcases Multiset.mem_cons.mp hx with rfl | hx
      · -- the copy is made with the run's port
        rfl
      · rcases Multiset.mem_cons.mp hx with rfl | hx
        · exact hp
        · exact h.held x (mem_rest hheld hx)
  | relay hheld _ =>
      have hp := h.held _ (mem_head hheld)
      refine h.moved fun x hx => ?_
      rcases Multiset.mem_cons.mp hx with rfl | hx
      · exact hp
      · exact h.held x (mem_rest hheld hx)
  | receive hheld _ => exact (h.arrive hheld).receive _
  | ignoreAck hheld _ _ => exact h.arrive hheld
  | accept hheld _ _ _ => exact (h.arrive hheld).accept _

theorem Fits.tick (h : c.Fits n) (dt : ℚ) : c.Fits (n.tick dt) := { h with }

theorem Fits.steps (h : c.Fits n) (hs : Steps n n') : c.Fits n' := by
  induction hs with
  | refl => exact h
  | tail _ hs ih => exact ih.step hs

end Recast

namespace Engine

variable {σ : Type} (c : Recast)

/-! ### Events and packets -/

theorem schedule_recast (e : Engine σ) (d : ℚ) (cb : Callback) :
    (e.recast c).schedule d cb = (e.schedule d cb).map (recast c) := by
  unfold schedule
  rw [apply_ite (Except.map (recast c))]
  rfl

theorem enqueue_recast (e : Engine σ) (node : Int) (p : Packet) :
    (e.recast c).enqueue node p = (e.enqueue node p).map (recast c) := by
  unfold enqueue
  rw [show (e.recast c).routers.get? node = (e.routers.get? node).map c.router from
    Dict.get?_map _ _ _]
  cases e.routers.get? node with
  | none => rfl
  | some r =>
      have hq : (e.recast c).routers.modify node (·.enqueue p) =
          (e.routers.modify node (·.enqueue p)).map fun _ => c.router :=
        Dict.modify_map fun _ => rfl
      simp only [Option.map_some, hq]
      rfl

theorem injectPacket_recast (e : Engine σ) (p : Packet) :
    (e.recast c).injectPacket p = (e.injectPacket p).map (recast c) := by
  unfold injectPacket
  rw [← enqueue_recast]
  rfl

theorem sendData_recast (e : Engine σ) (k : ℕ) (re : Bool) :
    (e.recast c).sendData k re = (e.sendData k re).map (recast c) := by
  rw [sendData, sendData]
  by_cases hk : e.packetGoal ≤ k
  · rw [if_pos hk, if_pos (show (e.recast c).packetGoal ≤ k from hk)]
    rfl
  · rw [if_neg hk, if_neg (show ¬ (e.recast c).packetGoal ≤ k from hk)]
    let made := e.makePacket e.source e.destination .data k none re
    refine bind_comm (injectPacket_recast c made.2 made.1) fun e₁ _ => ?_
    dsimp only
    by_cases hm : e₁.mode = .tcp
    · rw [if_pos hm, if_pos (show (e₁.recast c).mode = .tcp from hm)]
      rw [← schedule_recast]
      rfl
    · rw [if_neg hm, if_neg (show ¬ (e₁.recast c).mode = .tcp from hm)]
      rfl

theorem sendAck_recast (e : Engine σ) (k : ℕ) :
    (e.recast c).sendAck k = (e.sendAck k).map (recast c) := by
  unfold sendAck
  dsimp only
  rw [← injectPacket_recast]
  rfl

/-! ### Timeouts and arrivals -/

theorem onTimeout_recast (e : Engine σ) (k token : ℕ) :
    (e.recast c).onTimeout k token = (e.onTimeout k token).map (recast c) := by
  unfold onTimeout
  rw [apply_ite (Except.map (recast c)), apply_ite (Except.map (recast c)), ← sendData_recast]
  rfl

theorem runCallback_recast (e : Engine σ) (cb : Callback) :
    (e.recast c).runCallback cb = (e.runCallback cb).map (recast c) := by
  cases cb with
  | sendData k => exact sendData_recast c e k false
  | onTimeout k token => exact onTimeout_recast c e k token

theorem runDueEvents_recast : ∀ (fuel : ℕ) (e : Engine σ),
    runDueEvents fuel (e.recast c) = (runDueEvents fuel e).map (recast c) := by
  intro fuel
  induction fuel with
  | zero =>
      intro e
      unfold runDueEvents
      rw [show (e.recast c).events = e.events from rfl]
      cases e.events.pop? with
      | none => rfl
      | some x =>
          dsimp only
          rw [apply_ite (Except.map (recast c))]
          rfl
  | succ fuel ih =>
      intro e
      unfold runDueEvents
      rw [show (e.recast c).events = e.events from rfl]
      cases e.events.pop? with
      | none => rfl
      | some x =>
          dsimp only
          rw [apply_ite (Except.map (recast c))]
          congr 1
          exact bind_comm (runCallback_recast c { e with events := x.2 } _) fun e₁ _ => ih e₁

theorem noteDelivered_recast (e : Engine σ) (k : ℕ) :
    (e.recast c).noteDelivered k = (e.noteDelivered k).recast c := by
  unfold noteDelivered
  rw [apply_ite (recast c)]
  rfl

theorem onDataReceived_recast (e : Engine σ) (p : Packet) :
    (e.recast c).onDataReceived p = (e.onDataReceived p).map (recast c) := by
  unfold onDataReceived
  dsimp only
  rw [noteDelivered_recast, sendAck_recast, apply_ite (Except.map (recast c))]
  rfl

theorem onAckReceived_recast (e : Engine σ) (p : Packet) :
    (e.recast c).onAckReceived p = (e.onAckReceived p).map (recast c) := by
  unfold onAckReceived
  rw [apply_ite (Except.map (recast c))]
  congr 1
  cases p.ackFor with
  | none => rfl
  | some acked =>
      dsimp only
      rw [apply_ite (Except.map (recast c)), ← schedule_recast]
      rfl

theorem handleArrival_recast (e : Engine σ) (f : InFlightPacket) :
    (e.recast c).handleArrival f = (e.handleArrival f).map (recast c) := by
  unfold handleArrival
  dsimp only
  rw [apply_ite (Except.map (recast c)), ← enqueue_recast]
  congr 1
  cases (f.packet.arriveAt f.endNode).packetType with
  | data => exact onDataReceived_recast c (e.recordDelivery _) _
  | ack => exact onAckReceived_recast c (e.recordDelivery _) _

/-! ### Links -/

theorem takeHead_recast (e : Engine σ) (id : Int) (r : Router) (queue : List Packet) :
    (e.recast c).takeHead id (c.router r) queue = (e.takeHead id r queue).recast c := by
  have hrouters : (e.recast c).routers.modify id (fun _ => { c.router r with
      queue, nextAvailableTimeMs := e.currentTimeMs + r.processingDelayMs }) =
        (e.routers.modify id fun _ => { r with
          queue, nextAvailableTimeMs := e.currentTimeMs + r.processingDelayMs }).map
            fun _ => c.router :=
    Dict.modify_map fun _ => rfl
  exact congrArg (fun routers => { e.recast c with routers }) hrouters

theorem getEdgeDelay_recast (e : Engine σ) (a b : Int) :
    (e.recast c).graphManager.getEdgeDelay a b = e.graphManager.getEdgeDelay a b :=
  congrFun₂ (GraphManager.getEdgeDelay_congr (c.graph e.graphManager)) a b

section Draws
variable [RandomSource σ]

theorem sampleLinkDelay_recast (e : Engine σ) (d : Int) : (e.recast c).sampleLinkDelay d =
    ((e.sampleLinkDelay d).1, (e.sampleLinkDelay d).2.recast c) := by
  unfold sampleLinkDelay drawUniform drawRandom
  rw [show (e.recast c).conditions = e.conditions from rfl,
    show (e.recast c).random = e.random from rfl]
  dsimp only
  split
  · split
    · rfl
    · rfl
  · rfl

theorem shouldDropPacket_recast (e : Engine σ) : (e.recast c).shouldDropPacket =
    (e.shouldDropPacket.1, e.shouldDropPacket.2.recast c) := by
  unfold shouldDropPacket drawInt drawRandom
  rw [show (e.recast c).conditions = e.conditions from rfl,
    show (e.recast c).random = e.random from rfl,
    show (e.recast c).chaosDropRemaining = e.chaosDropRemaining from rfl]
  dsimp only
  split
  · split
    · rfl
    · split
      · rfl
      · rfl
  · rfl

theorem putOnLink_recast (e : Engine σ) (p : Packet) (a b d : Int) :
    (e.recast c).putOnLink p a b d = (e.putOnLink p a b d).recast c := by
  unfold putOnLink
  dsimp only
  rw [sampleLinkDelay_recast, shouldDropPacket_recast]
  rfl

theorem injectDuplicateFlight_recast (e : Engine σ) (p : Packet) (a b d : Int) :
    (e.recast c).injectDuplicateFlight p a b d = (e.injectDuplicateFlight p a b d).recast c := by
  unfold injectDuplicateFlight
  dsimp only
  rw [← putOnLink_recast]
  rfl

theorem launchLink_recast (e : Engine σ) (p : Packet) (a b : Int) :
    (e.recast c).launchLink p a b = (e.launchLink p a b).map (recast c) := by
  rw [launchLink, launchLink, getEdgeDelay_recast]
  cases e.graphManager.getEdgeDelay a b with
  | error _ => rfl
  | ok d =>
      show ite _ _ _ = Except.map (recast c) (ite _ _ _)
      rw [apply_ite (Except.map (recast c)), putOnLink_recast]
      congr 1
      show ite _ _ _ = Except.map (recast c) (ite _ _ _)
      rw [apply_ite (Except.map (recast c))]
      congr 1
      -- the copy
      let made := (e.putOnLink p a b d).drawRandom.2.makePacket p.source p.destination p.packetType
        p.sequence p.ackFor p.retransmission true (some p.packetId)
      exact congrArg Except.ok (injectDuplicateFlight_recast c made.2
        { made.1 with currentNode := a, routeHistory := p.routeHistory } a b d)

/-! ### Routers -/

/-- The router's turn is the same if the rules agree on the packet at its head. -/
theorem dispatchRouter_recast (e : Engine σ) (id : Int)
    (h : ∀ r p queue, e.routers.get? id = some r → r.queue = p :: queue →
      (c.router r).applyRules p = r.applyRules p) :
    (e.recast c).dispatchRouter id = (e.dispatchRouter id).map (recast c) := by
  rw [dispatchRouter, dispatchRouter, getItem, getItem,
    show (e.recast c).routers.get? id = (e.routers.get? id).map c.router from Dict.get?_map _ _ _]
  cases hr : e.routers.get? id with
  | none => rfl
  | some r =>
      dsimp only [Option.map_some, bind, Except.bind]
      rw [show (c.router r).queue = r.queue from rfl]
      cases hq : r.queue with
      | nil => rfl
      | cons p queue =>
          dsimp only
          rw [apply_ite (Except.map (recast c)), h r p queue hr hq]
          congr 1
          -- by what the rules say, which is the same in both
          have htake := takeHead_recast c e id r queue
          have hlaunch : ∀ hop,
              ((e.recast c).takeHead id (c.router r) queue).launchLink p r.routerId hop =
                ((e.takeHead id r queue).launchLink p r.routerId hop).map (recast c) :=
            fun hop => htake ▸ launchLink_recast c _ p r.routerId hop
          cases r.applyRules p with
          | none =>
              show (r.nextHop p.destination).bind _ = ((r.nextHop p.destination).bind _).map _
              cases r.nextHop p.destination with
              | error _ => rfl
              | ok hop => exact hlaunch hop
          | some a =>
              obtain ⟨type, value⟩ := a
              cases type with
              | drop =>
                  exact congrArg (fun x : Engine σ =>
                    Except.ok (x.recordDrop (some r.routerId) none "SDN drop")) htake
              | forward =>
                  cases value with
                  | none => rfl
                  | some hop => exact hlaunch hop

/-- Every router's turn is the same, one after the other. -/
theorem dispatchRouters_recast {c : Recast} {e : Engine σ} (h : c.Fits e.toNet) :
    (e.recast c).dispatchRouters = e.dispatchRouters.map (recast c) := by
  unfold dispatchRouters
  rw [show (e.recast c).routers.keys = e.routers.keys from Dict.keys_map _ _]
  refine foldlM_comm (P := fun x => c.Fits x.toNet) (fun x id hx => ?_)
    (fun x id x' hd hx => hx.steps (dispatchRouter_steps hd)) h
  refine dispatchRouter_recast c x id fun r p queue hr hq => ?_
  obtain ⟨M, hM, -⟩ := takeHead_toNet hr hq
  exact hx.agrees id r.wiring (router_toNet hr) p (hx.held _ (Net.mem_head hM))

end Draws

/-! ### Flights -/

theorem advanceFlight_recast (dt : ℚ) (st : List InFlightPacket × Engine σ) (f : InFlightPacket) :
    advanceFlight dt (st.1, st.2.recast c) f =
      (advanceFlight dt st f).map fun st => (st.1, st.2.recast c) := by
  unfold advanceFlight
  dsimp only
  rw [apply_ite (Except.map fun st : List InFlightPacket × Engine σ => (st.1, st.2.recast c)),
    apply_ite (Except.map fun st : List InFlightPacket × Engine σ => (st.1, st.2.recast c))]
  congr 2
  exact bind_comm (handleArrival_recast c st.2 _) fun _ _ => rfl

theorem advanceInFlightPackets_recast (e : Engine σ) (dt : ℚ) :
    (e.recast c).advanceInFlightPackets dt = (e.advanceInFlightPackets dt).map (recast c) := by
  have hfold : e.inFlightPackets.foldlM (advanceFlight dt) ([], e.recast c) =
      (e.inFlightPackets.foldlM (advanceFlight dt) ([], e)).map fun st => (st.1, st.2.recast c) :=
    foldlM_comm (P := fun _ => True)
      (T := fun st : List InFlightPacket × Engine σ => (st.1, st.2.recast c))
      (fun st f _ => advanceFlight_recast c dt st f) (fun _ _ _ _ _ => trivial) (b := ([], e))
      trivial
  exact bind_comm hfold fun st _ => rfl

/-! ### `update` -/

theorem networkIdle_recast (e : Engine σ) : (e.recast c).networkIdle = e.networkIdle := by
  have hwork : (e.recast c).routers.values.any Router.hasWork =
      e.routers.values.any Router.hasWork := by
    show ((e.routers.entries.map _).map _).any _ = (e.routers.entries.map _).any _
    rw [List.map_map, List.any_map, List.any_map]
    rfl
  unfold networkIdle
  rw [hwork]
  rfl

theorem finishRun_recast (e : Engine σ) : (e.recast c).finishRun = e.finishRun.recast c := by
  unfold finishRun
  rw [apply_ite (recast c)]
  rfl

theorem checkFinished_recast (e : Engine σ) :
    (e.recast c).checkFinished = e.checkFinished.recast c := by
  unfold checkFinished
  rw [networkIdle_recast, finishRun_recast, apply_ite (recast c), apply_ite (recast c),
    apply_ite (recast c)]
  rfl

theorem update_recast [RandomSource σ] {c : Recast} {e : Engine σ} (h : c.Fits e.toNet) (dt : ℚ) :
    (e.recast c).update dt = (e.update dt).map (recast c) := by
  cases hrun : e.running with
  | false =>
      rw [update_idle dt hrun, update_idle dt (show (e.recast c).running = false from hrun)]
      rfl
  | true =>
      have hbefore : ((e.recast c).updatePacketEvents dt).beforeAdvance dt =
          ((e.updatePacketEvents dt).beforeAdvance dt).map (recast c) :=
        bind_comm (runDueEvents_recast c _ (e.ticked dt)) fun e₁ h₁ =>
          dispatchRouters_recast ((h.tick dt).steps (runDueEvents_steps h₁))
      rw [update_running dt hrun, update_running dt (show (e.recast c).running = true from hrun)]
      refine bind_comm hbefore fun e₂ _ => bind_comm (advanceInFlightPackets_recast c e₂ dt) ?_
      exact fun e₃ _ => congrArg Except.ok (checkFinished_recast c e₃)

theorem update_fits [RandomSource σ] {c : Recast} {e e' : Engine σ} {dt : ℚ}
    (hu : e.update dt = .ok e') (h : c.Fits e.toNet) : c.Fits e'.toNet := by
  cases hrun : e.running with
  | false =>
      rw [update_idle dt hrun] at hu
      cases hu
      exact { h with }
  | true =>
      obtain ⟨e₁, hs, rfl⟩ := update_steps hrun hu
      have h₁ := (h.tick dt).steps hs
      rcases checkFinished_cases e₁ with hc | ⟨-, hc⟩
      · rwa [hc]
      · rw [hc]
        exact { h₁ with }

/-! ### Runs -/

theorem begun_recast (e : Engine σ) : (e.recast c).begun = e.begun.recast c := by
  have hrouters : (e.recast c).begun.routers = (e.begun.recast c).routers := by
    show ((e.routers.map fun _ => c.router).map fun _ r => r.wiring) =
      (e.routers.map fun _ r => r.wiring).map fun _ => c.router
    rw [Dict.map_map, Dict.map_map]
    rfl
  exact congrArg (fun routers => { e.begun.recast c with routers }) hrouters

theorem startRun_recast (e : Engine σ) :
    (e.recast c).startRun = e.startRun.map (recast c) := by
  cases hm : e.mode with
  | udp =>
      rw [startRun_of_udp hm, startRun_of_udp (show (e.recast c).mode = .udp from hm), begun_recast]
      exact bind_comm (foldlM_comm (P := fun _ => True)
        (fun x k _ => schedule_recast c x _ _) (fun _ _ _ _ _ => trivial) trivial) fun _ _ => rfl
  | tcp =>
      rw [startRun_of_tcp hm, startRun_of_tcp (show (e.recast c).mode = .tcp from hm), begun_recast]
      exact schedule_recast c e.begun 0 _

/-- **Runs, recast.**  If the rules agree on what goes to the traffic port, the run of the recast
engine goes through the recast states of the engine's run, and raises what it raises. -/
theorem ticks_recast [RandomSource σ] {c : Recast} {e : Engine σ} (h : c.Agrees e.setting)
    (dts : List ℚ) :
    (e.recast c).ticks dts = (e.ticks dts).map (recast c) := by
  refine bind_comm (startRun_recast c e) fun e₁ h₁ => ?_
  refine foldlM_comm (P := fun x => c.Fits x.toNet) (fun x dt hx => update_recast hx dt)
    (fun x dt x' hu hx => update_fits hu hx) ?_
  rw [startRun_toNet h₁]
  exact ⟨h, fun x hx => by simp [Net.start, Net.atRest] at hx⟩

end Engine

end PacketSim
