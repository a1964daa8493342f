import PacketSim.Engine.Effects
import PacketSim.Engine.Lifecycle
import PacketSim.Lib.Service

/-!
# Engine — Service

A router as a station (`Router.station`).  Callbacks and arrivals put packets at the end of its
queue (`Joins`), and in every update it has one turn (`dispatchRouters_turns`), so the updates of a
run are rounds of the station (`Updates.rounds`).

`router_serves`: in order, at most one packet in `processing_delay_ms`, and how long a packet waits.
What joins a queue and what is dispatched from it is read off the stages of each update (`joinedIn`,
`dispatchedIn`).
-/

namespace PacketSim
open Lib

/-- The queue of the router, and when it is available. -/
def Router.station (r : Router) : Station Packet ℚ := ⟨r.queue, r.nextAvailableTimeMs⟩

namespace Engine

variable {σ : Type}

/-! ### Callbacks and arrivals -/

/-- Packets join the queues, and the clock stands. -/
structure Joins (e e' : Engine σ) : Prop where
  clock : e'.currentTimeMs = e.currentTimeMs
  queues : ∀ v r, e.routers.get? v = some r →
    ∃ l, e'.routers.get? v = some { r with queue := r.queue ++ l }

variable {e e₁ e' : Engine σ}

/-- Nothing happens to the routers. -/
theorem Joins.of_eq (hclock : e'.currentTimeMs = e.currentTimeMs) (h : e'.routers = e.routers) :
    e.Joins e' :=
  ⟨hclock, fun v r hr => ⟨[], by rw [h, hr, List.append_nil]⟩⟩

theorem Joins.refl (e : Engine σ) : e.Joins e := .of_eq rfl rfl

theorem Joins.trans (h : e.Joins e₁) (h' : e₁.Joins e') : e.Joins e' where
  clock := h'.clock.trans h.clock
  queues v r hr := by
    obtain ⟨l, hl⟩ := h.queues v r hr
    obtain ⟨l', hl'⟩ := h'.queues v _ hl
    exact ⟨l ++ l', by rw [hl', List.append_assoc]⟩

theorem schedule_joins {delayMs : ℚ} {c : Callback} (h : e.schedule delayMs c = .ok e') :
    e.Joins e' := by
  unfold schedule at h
  dsimp only at h
  split at h
  · cases h
  · cases h
    exact .of_eq rfl rfl

/-- One packet joins one queue. -/
theorem enqueue_joins {node : Int} {p : Packet} (h : e.enqueue node p = .ok e') : e.Joins e' := by
  unfold enqueue at h
  split at h
  · cases h
  · cases h
    refine ⟨rfl, fun v r hr => ?_⟩
    dsimp only
    rw [Dict.get?_modify, hr]
    split_ifs
    · exact ⟨[p], rfl⟩
    · exact ⟨[], by rw [List.append_nil]⟩

theorem injectPacket_joins {p : Packet} (h : e.injectPacket p = .ok e') : e.Joins e' := by
  have h' := enqueue_joins h
  exact ⟨h'.clock, h'.queues⟩

theorem sendData_joins {k : ℕ} {re : Bool} (h : e.sendData k re = .ok e') : e.Joins e' := by
  unfold sendData at h
  split at h
  · cases h
    exact .refl _
  · dsimp only [makePacket] at h
    rw [bind_eq_ok] at h
    obtain ⟨e₁, h₁, h⟩ := h
    have hinject := injectPacket_joins h₁
    have hsent : e.Joins e₁ := ⟨hinject.clock, hinject.queues⟩
    split at h
    · have hschedule := schedule_joins h
      exact hsent.trans ⟨hschedule.clock, hschedule.queues⟩
    · cases h
      exact ⟨hsent.clock, hsent.queues⟩

theorem runCallback_joins {c : Callback} (h : e.runCallback c = .ok e') : e.Joins e' := by
  cases c with
  | sendData k => exact sendData_joins h
  | onTimeout k token =>
      rw [runCallback, onTimeout] at h
      split at h
      · cases h
        exact .refl _
      · split at h
        · cases h
          exact .refl _
        · exact sendData_joins h

theorem runDueEvents_joins {fuel : ℕ} (h : runDueEvents fuel e = .ok e') : e.Joins e' :=
  runDueEvents_invariant (P := fun x => e.Joins x) (fun e₁ _ _ events _ _ h hs => by
    have hcallback := runCallback_joins h
    have hpop : e.Joins { e₁ with events } := ⟨hs.clock, hs.queues⟩
    exact hpop.trans hcallback) h (.refl e)

theorem onDataReceived_joins {p : Packet} (h : e.onDataReceived p = .ok e') : e.Joins e' := by
  have hnoted : e.Joins (e.noteDelivered p.sequence) := by
    unfold noteDelivered
    split_ifs <;> exact .of_eq rfl rfl
  unfold onDataReceived at h
  dsimp only at h
  split at h
  · have hack := injectPacket_joins h
    exact hnoted.trans ⟨hack.clock, hack.queues⟩
  · cases h
    exact hnoted

theorem onAckReceived_joins {p : Packet} (h : e.onAckReceived p = .ok e') : e.Joins e' := by
  unfold onAckReceived at h
  split at h
  · cases h
    exact .refl _
  · dsimp only at h
    split at h
    · cases h
      exact .of_eq rfl rfl
    · split at h
      · cases h
        exact .of_eq rfl rfl
      · have hschedule := schedule_joins h
        exact ⟨hschedule.clock, hschedule.queues⟩

theorem handleArrival_joins {f : InFlightPacket} (h : e.handleArrival f = .ok e') :
    e.Joins e' := by
  unfold handleArrival at h
  dsimp only at h
  split at h
  · have hnoted : e.Joins (e.recordDelivery (f.packet.arriveAt f.endNode)) := .of_eq rfl rfl
    split at h
    · exact hnoted.trans (onDataReceived_joins h)
    · exact hnoted.trans (onAckReceived_joins h)
  · exact enqueue_joins h

theorem advanceFlight_joins {dt : ℚ} {f : InFlightPacket}
    {st st' : List InFlightPacket × Engine σ} (h : advanceFlight dt st f = .ok st') :
    st.2.Joins st'.2 := by
  unfold advanceFlight at h
  dsimp only at h
  split at h
  · cases h
    exact .refl _
  · split at h
    · cases h
      exact .of_eq rfl rfl
    · rw [bind_eq_ok] at h
      obtain ⟨e₂, h₂, h⟩ := h
      cases h
      exact handleArrival_joins h₂

theorem advanceInFlightPackets_joins {dt : ℚ} (h : e.advanceInFlightPackets dt = .ok e') :
    e.Joins e' := by
  rw [advanceInFlightPackets, bind_eq_ok] at h
  obtain ⟨st, hst, h⟩ := h
  have hflights : e.Joins st.2 :=
    foldlM_invariant (P := fun st => e.Joins st.2)
      (fun _ _ _ _ h hs => hs.trans (advanceFlight_joins h)) hst (.refl e)
  cases h
  exact ⟨hflights.clock, hflights.queues⟩

/-! ### Turns -/

section Draws
variable [RandomSource σ]

/-- The routers named have had their turn, and the others are as they were. -/
structure Turns (turn : Int → Prop) (e e' : Engine σ) : Prop where
  clock : e'.currentTimeMs = e.currentTimeMs
  idle : ∀ v, ¬ turn v → e'.routers.get? v = e.routers.get? v
  served : ∀ v r, turn v → e.routers.get? v = some r →
    ∃ r', e'.routers.get? v = some r' ∧ r'.processingDelayMs = r.processingDelayMs ∧
      r'.station = r.station.serve r.processingDelayMs e.currentTimeMs

omit [RandomSource σ] in
/-- A router that takes the head of its queue has its turn. -/
theorem takeHead_turns {id : Int} {r : Router} {p : Packet} {queue : List Packet}
    (hr : e.routers.get? id = some r) (hq : r.queue = p :: queue)
    (hfree : r.nextAvailableTimeMs ≤ e.currentTimeMs) :
    Turns (· = id) e (e.takeHead id r queue) where
  clock := rfl
  idle v hv := by rw [takeHead, Dict.get?_modify, if_neg hv]
  served v r' hv hr' := by
    subst hv
    obtain rfl : r' = r := Option.some.inj (hr'.symm.trans hr)
    have hbusy : (e.takeHead v r' queue).routers.get? v = some
        { r' with queue, nextAvailableTimeMs := e.currentTimeMs + r'.processingDelayMs } := by
      rw [takeHead, Dict.get?_modify_self, hr, Option.map_some, Clock.after_exact]
    have hfree' : ¬ e.currentTimeMs < r'.station.free := not_lt.mpr hfree
    refine ⟨_, hbusy, rfl, ?_⟩
    rw [Station.serve_cons (s := r'.station) hq, if_neg hfree']
    rfl

/-- What happens to the packet does not matter to the router. -/
theorem launchLink_turns {turn : Int → Prop} {p : Packet} {a b : Int} (ht : Turns turn e e₁)
    (h : e₁.launchLink p a b = .ok e') : Turns turn e e' := by
  obtain ⟨d, -, f, g, n, -, rfl | ⟨-, f', -, rfl⟩⟩ := launchLink_cases h
  · exact ⟨ht.clock, ht.idle, ht.served⟩
  · exact ⟨ht.clock, ht.idle, ht.served⟩

theorem dispatchRouter_turns {id : Int} (h : e.dispatchRouter id = .ok e') :
    Turns (· = id) e e' := by
  obtain ⟨r, hr, ⟨hwait, rfl⟩ | ⟨p, queue, hq, hfree, ⟨value, -, rfl⟩ | ⟨hop, -, h⟩⟩⟩ :=
    dispatchRouter_cases h
  · refine ⟨rfl, fun _ _ => rfl, fun v r' hv hr' => ⟨r', hr', rfl, ?_⟩⟩
    subst hv
    obtain rfl : r' = r := Option.some.inj (hr'.symm.trans hr)
    -- the queue is empty, or the router is busy
    cases hq : r'.queue with
    | nil => exact (Station.serve_nil (s := r'.station) hq).symm
    | cons p queue =>
        have hbusy : e'.currentTimeMs < r'.station.free := hwait.resolve_left (by simp [hq])
        rw [Station.serve_cons (s := r'.station) hq, if_pos hbusy]
  · have ht := takeHead_turns hr hq hfree
    exact ⟨ht.clock, ht.idle, ht.served⟩
  · exact launchLink_turns (takeHead_turns hr hq hfree) h

/-- A round of dispatches over some routers, each named once. -/
theorem dispatch_turns : ∀ {l : List Int} {e e' : Engine σ}, l.Nodup →
    l.foldlM dispatchRouter e = .ok e' → Turns (· ∈ l) e e'
  | [], e, e', _, h => by
      cases h
      exact ⟨rfl, fun _ _ => rfl, nofun⟩
  | id :: l, e, e', hl, h => by
      obtain ⟨hid, hl⟩ := List.nodup_cons.mp hl
      rw [List.foldlM_cons, bind_eq_ok] at h
      obtain ⟨e₁, h₁, h₂⟩ := h
      have hfirst := dispatchRouter_turns h₁
      have hrest := dispatch_turns hl h₂
      refine ⟨hrest.clock.trans hfirst.clock, fun v hv => ?_, fun v r hv hr => ?_⟩
      · rw [List.mem_cons, not_or] at hv
        exact (hrest.idle v hv.2).trans (hfirst.idle v hv.1)
      · rcases List.mem_cons.mp hv with rfl | hv
        · rw [hrest.idle v hid]
          exact hfirst.served v r rfl hr
        · have hne : v ≠ id := fun heq => hid (heq ▸ hv)
          have hsame := (hfirst.idle v hne).trans hr
          rw [← hfirst.clock]
          exact hrest.served v r hv hsame

/-- **Every router has one turn.** -/
theorem dispatchRouters_turns (h : e.dispatchRouters = .ok e') :
    Turns (· ∈ e.routers.keys) e e' := by
  have hperm := List.perm_insertionSort (· ≤ ·) e.routers.keys
  have ht := dispatch_turns (hperm.nodup_iff.mpr e.routers.keys_nodup) h
  exact ⟨ht.clock, fun v hv => ht.idle v (hperm.mem_iff.not.mpr hv),
    fun v r hv => ht.served v r (hperm.mem_iff.mpr hv)⟩

/-! ### Updates -/

/-- The engine after the callbacks of an update, after its dispatches and after its arrivals. -/
def stages (e : Engine σ) (dt : ℚ) : Except PyError (Engine σ × Engine σ × Engine σ) := do
  let e₁ ← runDueEvents e.events.items.length (e.ticked dt)
  let e₂ ← e₁.dispatchRouters
  let e₃ ← e₂.advanceInFlightPackets dt
  return (e₁, e₂, e₃)

omit [RandomSource σ] in
/-- The queue of a router. -/
def queueAt (e : Engine σ) (v : Int) : List Packet :=
  ((e.routers.get? v).map Router.queue).getD []

omit [RandomSource σ] in
theorem queueAt_eq {v : Int} {r : Router} (hr : e.routers.get? v = some r) :
    e.queueAt v = r.queue := by
  rw [queueAt, hr]
  rfl

/-- The packets that the callbacks and the arrivals of an update put at the end of the queue. -/
def joinedIn (e : Engine σ) (dt : ℚ) (v : Int) : List Packet :=
  match e.stages dt with
  | .error _ => []
  | .ok (e₁, e₂, e₃) =>
      (e₁.queueAt v).drop (e.queueAt v).length ++ (e₃.queueAt v).drop (e₂.queueAt v).length

/-- The packets that its dispatches take from the head of the queue. -/
def dispatchedIn (e : Engine σ) (dt : ℚ) (v : Int) : List Packet :=
  match e.stages dt with
  | .error _ => []
  | .ok (e₁, e₂, _) => (e₁.queueAt v).take ((e₁.queueAt v).length - (e₂.queueAt v).length)

/-- **An update is a round of every router.** -/
theorem update_round {dt : ℚ} {v : Int} {r : Router} (hrun : e.running = true)
    (h : e.update dt = .ok e') (hr : e.routers.get? v = some r) :
    e'.currentTimeMs = e.currentTimeMs + dt ∧
      ∃ r', e'.routers.get? v = some r' ∧ r'.processingDelayMs = r.processingDelayMs ∧
        r.station.Round r.processingDelayMs (e.currentTimeMs + dt) (e.joinedIn dt v)
          (e.dispatchedIn dt v) r'.station := by
  obtain ⟨e₁, e₂, e₃, h₁, h₂, h₃, rfl⟩ := (update_eq_ok hrun).mp h
  have hevents := runDueEvents_joins h₁
  have hturns := dispatchRouters_turns h₂
  have harrivals := advanceInFlightPackets_joins h₃
  have hclock₁ : e₁.currentTimeMs = e.currentTimeMs + dt := hevents.clock
  obtain ⟨before, hbefore⟩ := hevents.queues v r hr
  obtain ⟨r₂, hr₂, hbusy, hserve⟩ :=
    hturns.served v _ (Dict.mem_keys_of_get? hbefore) hbefore
  obtain ⟨after, hafter⟩ := harrivals.queues v r₂ hr₂
  have hend : e₃.checkFinished.currentTimeMs = e₃.currentTimeMs ∧
      e₃.checkFinished.routers = e₃.routers := by
    unfold checkFinished finishRun
    split_ifs <;> exact ⟨rfl, rfl⟩
  rw [hclock₁] at hserve
  have hstages : e.stages dt = .ok (e₁, e₂, e₃) := by
    simp only [stages, bind_eq_ok]
    exact ⟨e₁, h₁, e₂, h₂, e₃, h₃, rfl⟩
  have hjoined : e.joinedIn dt v = before ++ after := by
    simp only [joinedIn, hstages, queueAt_eq hr, queueAt_eq hbefore, queueAt_eq hr₂,
      queueAt_eq hafter, List.drop_left]
  have hleft : r.queue ++ before = e.dispatchedIn dt v ++ r₂.queue := by
    have hsuffix : r₂.queue <:+ r.queue ++ before := by
      have hqueue : r₂.queue = _ := congrArg Station.queue hserve
      rw [hqueue]
      exact Station.serve_suffix _ _ _
    have hdrop := List.suffix_iff_eq_drop.mp hsuffix
    simp only [dispatchedIn, hstages, queueAt_eq hbefore, queueAt_eq hr₂]
    calc r.queue ++ before
        = (r.queue ++ before).take ((r.queue ++ before).length - r₂.queue.length) ++
            (r.queue ++ before).drop ((r.queue ++ before).length - r₂.queue.length) :=
          (List.take_append_drop _ _).symm
      _ = _ := by rw [← hdrop]
  refine ⟨hend.1.trans (harrivals.clock.trans (hturns.clock.trans hclock₁)),
    { r₂ with queue := r₂.queue ++ after }, (congrArg (Dict.get? · v) hend.2).trans hafter, hbusy,
    before, after, hjoined, ?_, congrArg (Station.join · after) hserve⟩
  exact hleft.trans (congrArg (e.dispatchedIn dt v ++ Station.queue ·) hserve)

/-! ### Runs -/

/-- The router as a station. -/
def stationAt (e : Engine σ) (v : Int) : Station Packet ℚ :=
  ((e.routers.get? v).map Router.station).getD ⟨[], 0⟩

omit [RandomSource σ] in
theorem stationAt_eq {v : Int} {r : Router} (hr : e.routers.get? v = some r) :
    e.stationAt v = r.station := by
  rw [stationAt, hr]
  rfl

variable {e₀ : Engine σ} {states : ℕ → Engine σ} {dts : ℕ → ℚ} {n i j : ℕ} {v : Int} {r : Router}

/-- A router of one state of a run is there in all of them, and as fast. -/
theorem Updates.router_at (h : Updates e₀ states dts n) (hi : i ≤ n)
    (hr : (states i).routers.get? v = some r) (hj : j ≤ n) :
    ∃ r', (states j).routers.get? v = some r' ∧ r'.processingDelayMs = r.processingDelayMs := by
  have hwired := router_toNet hr
  have hsame : (states j).setting = (states i).setting :=
    (h.run hj).setting_eq.trans (h.run hi).setting_eq.symm
  rw [show (states i).toNet.setting = (states j).setting from hsame.symm] at hwired
  obtain ⟨r', hr', heq⟩ := Option.map_eq_some_iff.mp ((Dict.get?_map _ _ v).symm.trans hwired)
  have hsame : r'.wiring.processingDelayMs = r.wiring.processingDelayMs :=
    congrArg Router.processingDelayMs heq
  exact ⟨r', hr', hsame⟩

/-- A run begins with every router free. -/
theorem startRun_free (h : e.startRun = .ok e') (hr : e'.routers.get? v = some r) :
    r.nextAvailableTimeMs = 0 := by
  have hjoins : e.begun.Joins e' := by
    cases hm : e.mode with
    | udp =>
        obtain ⟨e₁, h₁, rfl⟩ := (startRun_udp hm).mp h
        have hsends : e.begun.Joins e₁ := foldlM_invariant (P := fun x => e.begun.Joins x)
          (fun _ _ _ _ h hs => hs.trans (schedule_joins h)) h₁ (.refl _)
        exact ⟨hsends.clock, hsends.queues⟩
    | tcp => exact schedule_joins ((startRun_tcp hm).mp h)
  have hwired := router_toNet hr
  rw [show e'.toNet.setting = e.setting from (Run.start h).setting_eq] at hwired
  obtain ⟨r₀, hr₀, -⟩ := Option.map_eq_some_iff.mp ((Dict.get?_map _ _ v).symm.trans hwired)
  have hreset :
      e.begun.routers.get? v = some { r₀ with queue := [], nextAvailableTimeMs := 0 } := by
    have hmap : e.begun.routers =
        e.routers.map fun _ r => { r with queue := [], nextAvailableTimeMs := 0 } := rfl
    rw [hmap, Dict.get?_map, hr₀, Option.map_some]
  obtain ⟨l, hl⟩ := hjoins.queues v _ hreset
  obtain rfl := Option.some.inj (hr.symm.trans hl)
  rfl

/-- A router is not busy for longer than it takes. -/
theorem Updates.free_le (h : Updates e₀ states dts n) (hi : i ≤ n)
    (hr : (states i).routers.get? v = some r) (hbusy : 0 < r.processingDelayMs) :
    r.nextAvailableTimeMs ≤ (states i).currentTimeMs + r.processingDelayMs := by
  induction i generalizing r with
  | zero =>
      have hclock : (states 0).currentTimeMs = 0 := congrArg Net.clock (startRun_toNet h.start)
      rw [startRun_free h.start hr, hclock]
      linarith
  | succ i ih =>
      obtain ⟨r', hr', hsame⟩ := h.router_at hi hr (Nat.le_of_succ_le hi)
      have hbefore := ih (Nat.le_of_succ_le hi) hr' (hsame ▸ hbusy)
      cases hrun : (states i).running with
      | false =>
          have hu := h.update i hi
          rw [update_idle _ hrun] at hu
          obtain rfl : r' = r := by
            have := congrArg (fun e => e.routers.get? v) (Except.ok.inj hu)
            exact Option.some.inj (hr'.symm.trans (this.trans hr))
          rw [← Except.ok.inj hu]
          exact hbefore
      | true =>
          obtain ⟨hclock, r'', hr'', hbusy', hround⟩ := update_round hrun (h.update i hi) hr'
          obtain rfl : r'' = r := Option.some.inj (hr''.symm.trans hr)
          rw [hsame] at hbefore hround
          rw [hclock]
          exact hround.free_le hbefore (by linarith [h.forward i hi])

/-- The packets that join the queue of a router from state `i` to state `j`, in order. -/
def joinedBetween (states : ℕ → Engine σ) (dts : ℕ → ℚ) (v : Int) : ℕ → ℕ → List Packet :=
  between fun k => (states k).joinedIn (dts k) v

/-- The packets that are dispatched from it. -/
def dispatchedBetween (states : ℕ → Engine σ) (dts : ℕ → ℚ) (v : Int) : ℕ → ℕ → List Packet :=
  between fun k => (states k).dispatchedIn (dts k) v

/-- The updates of a run are rounds of each router. -/
theorem Updates.rounds (h : Updates e₀ states dts n) (hi : i ≤ n) (hj : j ≤ n)
    (hrun : ∀ k, i ≤ k → k < j → (states k).running = true)
    (hr : (states i).routers.get? v = some r) :
    Rounds r.processingDelayMs (fun k => (states k).stationAt v) (clock states)
      (fun k => (states k).joinedIn (dts k) v) (fun k => (states k).dispatchedIn (dts k) v)
      i j where
  round k hik hkj := by
    have hk : k < n := hkj.trans_le hj
    obtain ⟨r', hr', hsame⟩ := h.router_at hi hr hk.le
    obtain ⟨hclock, r'', hr'', -, hround⟩ := update_round (hrun k hik hkj) (h.update k hk) hr'
    rw [hsame] at hround
    rw [stationAt_eq hr', stationAt_eq hr'', show clock states (k + 1) = _ from hclock]
    exact hround
  forward k hik hkj := h.clock_mono (Nat.le_succ k) (hkj.trans_le hj)

/-- **A router serves its queue.**  Between two states of a run that is on: the queue, and then the
packets that join it, are dispatched in order, up to those that are still in the queue; no more are
dispatched than one in `processing_delay_ms`; and with frames of at most `δ`, a packet with `m`
others before it is dispatched once `m + 1` of these delays and as many frames have passed. -/
theorem router_serves (h : Updates e₀ states dts n) (hij : i ≤ j) (hj : j ≤ n)
    (hrun : ∀ k, i ≤ k → k < j → (states k).running = true) {δ : ℚ} (hδ : 0 ≤ δ)
    (hframes : ∀ k, i ≤ k → k < j → dts k ≤ δ) (hr : (states i).routers.get? v = some r)
    (hbusy : 0 < r.processingDelayMs) :
    ∃ r', (states j).routers.get? v = some r' ∧
      r.queue ++ joinedBetween states dts v i j = dispatchedBetween states dts v i j ++ r'.queue ∧
      (dispatchedBetween states dts v i j).length * r.processingDelayMs ≤
        (states j).currentTimeMs - (states i).currentTimeMs + r.processingDelayMs ∧
      ∀ (m : ℕ) p, r.queue[m]? = some p →
        (states i).currentTimeMs + (m + 1) * (r.processingDelayMs + δ) ≤ (states j).currentTimeMs →
          (dispatchedBetween states dts v i j)[m]? = some p := by
  have hi := hij.trans hj
  have hrounds := h.rounds hi hj hrun hr
  have hgaps : ∀ k, i ≤ k → k < j → clock states (k + 1) ≤ clock states k + δ := by
    intro k hik hkj
    have hclock := (h.ages (hkj.trans_le hj) (hrun k hik hkj)).clock
    exact hclock.trans_le (add_le_add_right (hframes k hik hkj) _)
  have hfree : ((states i).stationAt v).free ≤ clock states i + r.processingDelayMs := by
    rw [stationAt_eq hr]
    exact h.free_le hi hr hbusy
  have hserved := hrounds.served hij hδ hgaps hbusy hfree
  obtain ⟨hrate, hwait⟩ := hserved.bounds hδ hbusy
  obtain ⟨r', hr', -⟩ := h.router_at hi hr hj
  have horder := hserved.order
  rw [stationAt_eq hr, stationAt_eq hr'] at horder
  rw [stationAt_eq hr] at hwait
  exact ⟨r', hr', horder, hrate, hwait⟩

end Draws

/-- Two packets wait after a frame of 600 ms, and both have left 1800 ms later. -/
theorem router_serves_ring : ∃ r,
    (stateAfter (Steady.engine "Redundant Ring" .udp) (fun _ => 600) 1).routers.get? 5 = some r ∧
      r.queue.length = 2 ∧
      ∀ (m : ℕ) p, r.queue[m]? = some p → (dispatchedBetween
        (stateAfter (Steady.engine "Redundant Ring" .udp) fun _ => 600) (fun _ => 600) 5 1 4)[m]? =
          some p := by
  have hu : Updates (Steady.engine "Redundant Ring" .udp)
      (stateAfter (Steady.engine "Redundant Ring" .udp) fun _ => 600) (fun _ => 600) 4 :=
    updates_stateAfter (by decide +kernel) (by norm_num) (by decide +kernel)
  have hat : ((stateAfter (Steady.engine "Redundant Ring" .udp)
      (fun _ => 600) 1).routers.get? 5).any
        (fun r => r.queue.length = 2 && r.processingDelayMs = 45) = true := by decide +kernel
  have hrun : ∀ k < 4, (stateAfter (Steady.engine "Redundant Ring" .udp)
      (fun _ => 600) k).running = true := by decide +kernel
  obtain ⟨r, hr, hcheck⟩ := (Option.any_eq_true _ _).mp hat
  obtain ⟨hlen, hbusy⟩ := Bool.and_eq_true_iff.mp hcheck
  have hlen : r.queue.length = 2 := of_decide_eq_true hlen
  have hbusy : r.processingDelayMs = 45 := of_decide_eq_true hbusy
  have hclocks : (stateAfter (Steady.engine "Redundant Ring" .udp) (fun _ => 600) 1).currentTimeMs =
      600 ∧ (stateAfter (Steady.engine "Redundant Ring" .udp) (fun _ => 600) 4).currentTimeMs =
      2400 := by decide +kernel
  obtain ⟨r', hr', -, -, hwait⟩ := router_serves hu (i := 1) (j := 4)
    (by decide) (by decide) (fun k _ hk => hrun k hk) (by norm_num) (fun _ _ _ => le_refl 600) hr
    (hbusy ▸ by norm_num)
  refine ⟨r, hr, hlen, fun m p hp => hwait m p hp ?_⟩
  have hm : (m : ℚ) ≤ 1 := by
    have := (List.getElem?_eq_some_iff.mp hp).1
    exact_mod_cast (by omega : m ≤ 1)
  rw [hclocks.1, hclocks.2, hbusy]
  linarith

end Engine

end PacketSim
