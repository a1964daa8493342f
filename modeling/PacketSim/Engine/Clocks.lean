import PacketSim.Engine.Configuration
import PacketSim.Engine.Service

/-!
# Engine — Clocks

The clock of the source adds floats (`Clock.double`).  While it stands at a whole number of
milliseconds that is not too large (`WholeMs`), the spans the engine adds to it and frames of whole
milliseconds are added exactly.  So each method does on that clock what it does on the exact one:
its sums are the same, and it leaves the clock as it is, or adds a frame.

* `update_double`, `startRun_double`: an update, and the start of a run.
* `Timed`: what makes them apply to a session whose frames are short, as every operation keeps it
  (`perform_timed`); `perform_double` for each operation.
-/

namespace PacketSim
open Lib

/-- A whole number of milliseconds, of at most `2 ^ 52`. -/
def WholeMs (t : ℚ) : Prop := ∃ k : ℕ, k ≤ 2 ^ 52 ∧ t = k

theorem WholeMs.ofNat {k : ℕ} (h : k ≤ 2 ^ 52) : WholeMs k := ⟨k, h, rfl⟩

/-- Whole times are added exactly. -/
theorem WholeMs.after_double {t d : ℚ} (ht : WholeMs t) (hd : WholeMs d) :
    @Clock.after .double t d = @Clock.after .exact t d := by
  obtain ⟨k, hk, rfl⟩ := ht
  obtain ⟨l, hl, rfl⟩ := hd
  have habs : |((k + l : ℕ) : ℤ)| ≤ 2 ^ 53 := by
    rw [abs_of_nonneg (Int.natCast_nonneg _)]
    exact_mod_cast (by omega : k + l ≤ 2 ^ 53)
  show rounded ((k : ℚ) + l) = k + l
  exact_mod_cast rounded_intCast habs

/-- An update of a session is by a frame, of whole milliseconds and less than `2 ^ 31` of them. -/
def Operation.Framed : Operation → Prop
  | .update dtMs => ∃ k : ℕ, k < 2 ^ 31 ∧ dtMs = k
  | _ => True

theorem Operation.Framed.forward {op : Operation} (h : op.Framed) : op.Forward := by
  cases op with
  | update dt =>
      obtain ⟨k, -, rfl⟩ := h
      exact Nat.cast_nonneg k
  | _ => trivial

/-- A rebuilt router is busy for `processing_delay_ms`. -/
theorem Setting.Wired.busy {s : Setting} (h : s.Wired) {v : Int} {r : Router}
    (hr : s.routers.get? v = some r) : r.processingDelayMs = processingDelayMs := by
  obtain ⟨tables, -, hrouters⟩ := h
  rw [hrouters, routersFrom, Dict.get?_map] at hr
  obtain ⟨table, -, rfl⟩ := Option.map_eq_some_iff.mp hr
  rfl

namespace Engine

variable {σ : Type} {e : Engine σ}

/-! ### Callbacks and arrivals -/

theorem schedule_double (h : WholeMs e.currentTimeMs) {d : ℚ} (hd : WholeMs d) (c : Callback) :
    @schedule σ .double e d c = @schedule σ .exact e d c := by
  unfold schedule
  rw [h.after_double hd]

theorem wholeMs_timeout : WholeMs retransmissionTimeoutMs := ⟨950, by norm_num, by
  norm_num [retransmissionTimeoutMs]⟩

theorem sendData_double (h : WholeMs e.currentTimeMs) (k : ℕ) (re : Bool) :
    @sendData σ .double e k re = @sendData σ .exact e k re := by
  unfold sendData
  refine if_congr Iff.rfl rfl (bind_congr_ok fun e₁ h₁ => ?_)
  have h₁ : WholeMs e₁.currentTimeMs := by rwa [(injectPacket_joins h₁).clock]
  refine if_congr Iff.rfl ?_ rfl
  apply schedule_double
  · exact h₁
  · exact wholeMs_timeout

theorem runCallback_double (h : WholeMs e.currentTimeMs) (c : Callback) :
    @runCallback σ .double e c = @runCallback σ .exact e c := by
  cases c with
  | sendData k => exact sendData_double h k false
  | onTimeout k token =>
      show @onTimeout σ .double e k token = @onTimeout σ .exact e k token
      unfold onTimeout
      rw [sendData_double h]

theorem runDueEvents_double : ∀ (fuel : ℕ) {e : Engine σ}, WholeMs e.currentTimeMs →
    @runDueEvents σ .double fuel e = @runDueEvents σ .exact fuel e := by
  intro fuel
  induction fuel with
  | zero =>
      intro e _
      unfold runDueEvents
      rfl
  | succ fuel ih =>
      intro e h
      unfold runDueEvents
      cases e.events.pop? with
      | none => rfl
      | some x =>
          have hx : WholeMs { e with events := x.2 }.currentTimeMs := h
          dsimp only
          rw [runCallback_double hx]
          refine if_congr Iff.rfl (bind_congr_ok fun e₁ h₁ => ih ?_) rfl
          rwa [(runCallback_joins h₁).clock]

theorem onAckReceived_double (h : WholeMs e.currentTimeMs) (p : Packet) :
    @onAckReceived σ .double e p = @onAckReceived σ .exact e p := by
  unfold onAckReceived
  refine if_congr Iff.rfl rfl ?_
  cases p.ackFor with
  | none => rfl
  | some acked =>
      refine if_congr Iff.rfl rfl ?_
      apply schedule_double
      · exact h
      · exact .ofNat (k := 150) (by norm_num)

theorem handleArrival_double (h : WholeMs e.currentTimeMs) (f : InFlightPacket) :
    @handleArrival σ .double e f = @handleArrival σ .exact e f := by
  unfold handleArrival
  refine if_congr Iff.rfl ?_ rfl
  cases (f.packet.arriveAt f.endNode).packetType with
  | data => rfl
  | ack =>
      have hx : WholeMs (e.recordDelivery (f.packet.arriveAt f.endNode)).currentTimeMs := h
      exact onAckReceived_double hx _

theorem advanceInFlightPackets_double (h : WholeMs e.currentTimeMs) (dt : ℚ) :
    @advanceInFlightPackets σ .double e dt = @advanceInFlightPackets σ .exact e dt := by
  unfold advanceInFlightPackets
  congr 1
  refine foldlM_congr (P := fun st : List InFlightPacket × Engine σ =>
    WholeMs st.2.currentTimeMs) (fun st f _ hst => ?_) (fun st f st' _ hf hst => ?_) h
  · unfold advanceFlight
    dsimp only
    rw [handleArrival_double hst]
  · rwa [(advanceFlight_joins hf).clock]

/-! ### Routers and updates -/

/-- The clock stands at a whole time, and routers are busy for a whole time. -/
structure WholeTimes (e : Engine σ) : Prop where
  clock : WholeMs e.currentTimeMs
  busy : ∀ v r, e.routers.get? v = some r → WholeMs r.processingDelayMs

theorem WholeTimes.steps {e' : Engine σ} (h : e.WholeTimes) (hs : Net.Steps e.toNet e'.toNet) :
    e'.WholeTimes where
  clock := by
    rw [show e'.currentTimeMs = e.currentTimeMs from hs.frame.2.1]
    exact h.clock
  busy v r hr := by
    have hr' : e.setting.routers.get? v = some r.wiring := by
      rw [← show e'.setting = e.setting from hs.frame.1]
      exact router_toNet hr
    rw [show e.setting.routers = e.routers.map fun _ r => r.wiring from rfl, Dict.get?_map] at hr'
    obtain ⟨r', hr', heq⟩ := Option.map_eq_some_iff.mp hr'
    have hsame : r'.wiring.processingDelayMs = r.wiring.processingDelayMs :=
      congrArg Router.processingDelayMs heq
    have hsame : r'.processingDelayMs = r.processingDelayMs := hsame
    exact hsame ▸ h.busy v r' hr'

section Draws
variable [RandomSource σ]

theorem dispatchRouter_double (h : e.WholeTimes) (id : Int) :
    @dispatchRouter σ _ .double e id = @dispatchRouter σ _ .exact e id := by
  unfold dispatchRouter
  refine bind_congr_ok fun r hr => ?_
  cases r.queue with
  | nil => rfl
  | cons p queue =>
      have hr : e.routers.get? id = some r := getItem_eq_ok.mp hr
      dsimp only
      rw [h.clock.after_double (h.busy id r hr)]

theorem dispatchRouters_double (h : e.WholeTimes) :
    @dispatchRouters σ _ .double e = @dispatchRouters σ _ .exact e := by
  unfold dispatchRouters
  exact foldlM_congr (P := WholeTimes) (fun x id _ hx => dispatchRouter_double hx id)
    (fun x id x' _ hd hx => hx.steps (dispatchRouter_steps hd)) h

theorem beforeAdvance_double (h : e.WholeTimes) {dt : ℚ} (hdt : WholeMs dt)
    (hticked : WholeMs (e.currentTimeMs + dt)) :
    @beforeAdvance σ _ .double e dt = @beforeAdvance σ _ .exact e dt := by
  unfold beforeAdvance
  rw [h.clock.after_double hdt]
  have hx : WholeTimes { e with currentTimeMs := e.currentTimeMs + dt } := ⟨hticked, h.busy⟩
  dsimp only [Clock.after_exact]
  rw [runDueEvents_double _ hx.clock]
  exact bind_congr_ok fun e₁ h₁ => dispatchRouters_double (hx.steps (runDueEvents_steps h₁))

/-- **An update of whole milliseconds** does on the clock of the source what it does on the exact
one. -/
theorem update_double (h : e.WholeTimes) {dt : ℚ} (hdt : WholeMs dt)
    (hticked : WholeMs (e.currentTimeMs + dt)) :
    @update σ _ .double e dt = @update σ _ .exact e dt := by
  have hbefore := beforeAdvance_double (e := e.updatePacketEvents dt) ⟨h.clock, h.busy⟩ hdt hticked
  unfold update
  dsimp only
  rw [hbefore]
  refine if_congr Iff.rfl rfl (bind_congr_ok fun e₂ h₂ => ?_)
  have h₂ : WholeMs e₂.currentTimeMs := by
    simp only [beforeAdvance, bind_eq_ok] at h₂
    obtain ⟨e₁, h₁, h₂⟩ := h₂
    have hclock := (dispatchRouters_steps h₂).frame.2.1.trans (runDueEvents_steps h₁).frame.2.1
    rwa [show e₂.currentTimeMs = e.currentTimeMs + dt from hclock]
  rw [advanceInFlightPackets_double h₂]

/-! ### Sessions -/

/-- The clock stands where frames have taken it: a run that is on has not come to its longest
time. -/
structure Timed (e : Engine σ) : Prop where
  clock : ∃ k : ℕ, k < 2 ^ 32 ∧ e.currentTimeMs = k
  early : e.running = true → e.currentTimeMs < maxRuntimeMs
  goal : e.packetGoal ≤ 2 ^ 32

omit [RandomSource σ] in
theorem Timed.reset {keepMode : Bool} (h : e.packetGoal ≤ 2 ^ 32) :
    (e.resetRunState keepMode).Timed :=
  ⟨⟨0, by norm_num, by norm_num [resetRunState]⟩, fun h => absurd h Bool.false_ne_true, h⟩

omit [RandomSource σ] in
theorem startRun_timed {e' : Engine σ} (h : e.packetGoal ≤ 2 ^ 32) (hs : e.startRun = .ok e') :
    e'.Timed := by
  have hnet := startRun_toNet hs
  have hclock : e'.currentTimeMs = 0 := congrArg Net.clock hnet
  refine ⟨⟨0, by norm_num, by simpa using hclock⟩, fun _ => ?_, ?_⟩
  · rw [hclock]
    norm_num [maxRuntimeMs]
  · rwa [show e'.packetGoal = e.packetGoal from
      congrArg (fun n : Net => n.setting.packetGoal) hnet]

theorem update_timed {e' : Engine σ} (h : e.Timed) {k : ℕ} (hk : k < 2 ^ 31)
    (hu : e.update k = .ok e') : e'.Timed := by
  cases hrun : e.running with
  | false =>
      rw [update_idle _ hrun] at hu
      cases hu
      exact ⟨h.clock, h.early, h.goal⟩
  | true =>
      obtain ⟨e₁, hs, rfl⟩ := update_steps hrun hu
      obtain ⟨l, -, hl⟩ := h.clock
      have hframe := hs.frame
      have hclock : e₁.currentTimeMs = (l + k : ℕ) := by
        rw [show e₁.currentTimeMs = e.currentTimeMs + k from hframe.2.1, hl]
        push_cast
        rfl
      have hearly := h.early hrun
      have hgoal : e₁.packetGoal = e.packetGoal := congrArg Setting.packetGoal hframe.1
      have hle : l < 25000 := by
        rw [hl, maxRuntimeMs] at hearly
        exact_mod_cast hearly
      have hsum : l + k < 2 ^ 32 := by omega
      obtain ⟨heq, hlt⟩ | ⟨heq, -⟩ :=
        checkFinished_running (show e₁.running = true from hframe.2.2.trans hrun)
      · rw [heq]
        exact ⟨⟨_, hsum, hclock⟩, fun _ => hlt, hgoal ▸ h.goal⟩
      · rw [heq]
        exact ⟨⟨_, hsum, hclock⟩, fun h => absurd h Bool.false_ne_true, hgoal ▸ h.goal⟩

/-- Every operation resets the clock, or adds a frame to it. -/
theorem perform_timed {e' : Engine σ} {op : Operation} (h : e.Timed) (hop : op.Framed)
    (hp : e.perform op = .ok e') : e'.Timed := by
  cases op with
  | startRun => exact startRun_timed h.goal hp
  | update dt =>
      obtain ⟨k, hk, rfl⟩ := hop
      exact update_timed h hk hp
  | cycleTopology =>
      have hc := mapError_eq_ok.mp hp
      simp only [cycleTopology, bind_eq_ok, leaving_eq_ok] at hc
      obtain ⟨m, -, e₁, h₁, hc⟩ := hc
      obtain ⟨tables, -, rfl⟩ := rebuildRouters_eq_ok.mp h₁
      cases hc
      exact .reset h.goal
  | toggleSdn =>
      have hc := mapError_eq_ok.mp hp
      simp only [toggleSdn, bind_eq_ok, leaving_eq_ok] at hc
      obtain ⟨e₁, h₁, hc⟩ := hc
      obtain ⟨tables, -, rfl⟩ := rebuildRouters_eq_ok.mp h₁
      cases hc
      exact .reset h.goal
  | setMode mode => cases hp; exact .reset h.goal
  | toggleMode => cases hp; exact .reset h.goal
  | toggleChaos => cases hp; exact .reset h.goal
  | toggleDuplicates => cases hp; exact .reset h.goal
  | toggleTrafficProfile => cases hp; exact .reset h.goal
  | adjustLossRate delta => cases hp; exact .reset h.goal
  | adjustDelayMultiplier delta => cases hp; exact .reset h.goal
  | resetRunState keepMode =>
      cases hp
      exact .reset h.goal

omit [RandomSource σ] in
theorem setup_timed {e' : Engine σ} {name : String} (h : e.packetGoal ≤ 2 ^ 32)
    (hs : e.setupTopology (some name) = .ok e') : e'.Timed := by
  simp only [setupTopology, bind_eq_ok, leaving_eq_ok] at hs
  obtain ⟨m, -, e₁, h₁, hs⟩ := hs
  obtain ⟨tables, -, rfl⟩ := rebuildRouters_eq_ok.mp h₁
  cases hs
  exact .reset h

omit [RandomSource σ] in
/-- **A run starts** alike on both clocks. -/
theorem startRun_double (h : e.packetGoal ≤ 2 ^ 32) :
    @startRun σ .double e = @startRun σ .exact e := by
  have hzero : WholeMs e.begun.currentTimeMs := .ofNat (k := 0) (by norm_num)
  cases hm : e.mode with
  | tcp =>
      rw [@startRun_of_tcp σ .double e hm, startRun_of_tcp hm]
      exact schedule_double hzero (.ofNat (k := 0) (by norm_num)) _
  | udp =>
      rw [@startRun_of_udp σ .double e hm, startRun_of_udp hm]
      congr 1
      have hgoal : ∀ k ∈ List.range e.packetGoal, WholeMs (k * sendIntervalMs) := fun k hk => by
        have hk : k < 2 ^ 32 := (List.mem_range.mp hk).trans_le h
        exact ⟨k * 260, by omega, by rw [sendIntervalMs]; push_cast; rfl⟩
      refine foldlM_congr (P := fun x : Engine σ => WholeMs x.currentTimeMs)
        (fun x k hk hx => schedule_double hx (hgoal k hk) _) (fun x k x' _ hs hx => ?_) hzero
      rwa [(schedule_joins hs).clock]

theorem perform_double {op : Operation} (h : e.Timed) (hw : e.setting.Wired) (hop : op.Framed) :
    @perform σ _ .double e op = @perform σ _ .exact e op := by
  obtain ⟨k, hk, hclock⟩ := h.clock
  cases op with
  | startRun => exact startRun_double h.goal
  | update dt =>
      obtain ⟨l, hl, rfl⟩ := hop
      refine update_double ⟨⟨k, by omega, hclock⟩, fun v r hr => ?_⟩ ⟨l, by omega, rfl⟩
        ⟨k + l, by omega, by rw [hclock]; push_cast; rfl⟩
      have hbusy : r.wiring.processingDelayMs = processingDelayMs := hw.busy (router_toNet hr)
      have hbusy : r.processingDelayMs = processingDelayMs := hbusy
      exact ⟨45, by norm_num, by rw [hbusy]; norm_num [processingDelayMs]⟩
  | _ => rfl

end Draws

end Engine

end PacketSim
