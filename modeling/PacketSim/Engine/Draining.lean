import PacketSim.Engine.Totality
import PacketSim.Engine.Reconfiguration

/-!
# Engine — Draining

The loop of `_run_due_events` in any state that an engine can be in (`Standing`), on any clock.  The
ids of the pending events are distinct and below the next (`Standing.ordered`), so the loop takes
them in ascending order.

* `drain_exact`: it ends, and is exact, exactly where every due callback is ignored or can transmit.
* `drain_breaks`: a source that is not on the graph makes it raise, and on doubles a clock at
  `2 ^ 63` keeps it from ending.
-/

namespace PacketSim
open Lib

namespace Engine

variable {σ : Type}

section Clocked
variable [Clock]

/-! ### Standing engines -/

/-- The states of an engine between calls, as `__init__` leaves it and after any calls, also ones
that raise; the manager's graph may be made anew at any time.  An update that raises leaves the
events of the steps it made, less the one whose callback raised; what else it leaves is not said. -/
inductive Standing [RandomSource σ] : Engine σ → Prop where
  | init {e : Engine σ} (h : e.toNet.pending = 0) : Standing e
  | manage {e : Engine σ} (t : Standing e) (m : GraphManager) :
      Standing { e with graphManager := m }
  | perform {e e' : Engine σ} {op : Operation} (t : Standing e) (h : e.perform op = .ok e') :
      Standing e'
  | reconfigure {e e' : Engine σ} {op : Reconfiguration} (t : Standing e)
      (h : e.reconfigure op = .ok e') : Standing e'
  | refused {e : Engine σ} {op : Reconfiguration} {r : Raised σ} (t : Standing e)
      (h : e.reconfigure op = .error r) : Standing r.engine
  | broken {e e' : Engine σ} {dt : ℚ} {error : PyError} {n : Net} (t : Standing e)
      (h : e.update dt = .error error) (hsteps : Net.Steps (e.toNet.tick dt) n)
      (hpending : e'.toNet.pending ≤ n.pending) (hnext : n.nextEventId ≤ e'.nextEventId) :
      Standing e'

omit [Clock] in
theorem ordered_resetRunState (e : Engine σ) : e.resetRunState.toNet.Ordered := .zero

theorem ordered_update [RandomSource σ] {e e' : Engine σ} {dt : ℚ} (h : e.toNet.Ordered)
    (hu : e.update dt = .ok e') : e'.toNet.Ordered := by
  cases hrun : e.running with
  | false =>
      rw [update_idle dt hrun] at hu
      cases hu
      exact h
  | true =>
      obtain ⟨e₁, hs, rfl⟩ := update_steps hrun hu
      have h₁ : e₁.toNet.Ordered := Net.Ordered.steps (n := e.toNet.tick dt) h hs
      rcases checkFinished_cases e₁ with hc | ⟨-, hc⟩
      · rwa [hc]
      · rw [hc]
        exact h₁

/-- Every operation starts from an empty heap, or takes steps. -/
theorem ordered_perform [RandomSource σ] {e e' : Engine σ} {op : Operation} (h : e.toNet.Ordered)
    (hp : e.perform op = .ok e') : e'.toNet.Ordered := by
  cases op with
  | startRun => exact startRun_toNet hp ▸ Net.numbered_start _
  | update dt => exact ordered_update h hp
  | cycleTopology =>
      have hc := mapError_eq_ok.mp hp
      simp only [cycleTopology, bind_eq_ok, leaving_eq_ok] at hc
      obtain ⟨m, -, e₁, -, hc⟩ := hc
      cases hc
      exact ordered_resetRunState e₁
  | toggleSdn =>
      have hc := mapError_eq_ok.mp hp
      simp only [toggleSdn, bind_eq_ok, leaving_eq_ok] at hc
      obtain ⟨e₁, -, hc⟩ := hc
      cases hc
      exact ordered_resetRunState e₁
  | setMode mode => cases hp; exact ordered_resetRunState _
  | toggleMode => cases hp; exact ordered_resetRunState _
  | toggleChaos => cases hp; exact ordered_resetRunState _
  | toggleDuplicates => cases hp; exact ordered_resetRunState _
  | toggleTrafficProfile => cases hp; exact ordered_resetRunState _
  | adjustLossRate delta => cases hp; exact ordered_resetRunState _
  | adjustDelayMultiplier delta => cases hp; exact ordered_resetRunState _
  | resetRunState keepMode => cases hp; exact .zero

omit [Clock] in
/-- A reconfiguration that raises leaves the events as they were. -/
theorem ordered_refused {e : Engine σ} {op : Reconfiguration} {r : Raised σ}
    (h : e.toNet.Ordered) (hr : e.reconfigure op = .error r) : r.engine.toNet.Ordered := by
  cases op with
  | setupTopology topologyName =>
      rw [setupTopology_raised hr]
      cases topologyName with
      | some name => exact h
      | none => exact h
  | toggleSdn =>
      rw [toggleSdn_raised hr]
      exact h
  | cycleTopology =>
      rw [cycleTopology_raised hr]
      exact h

theorem Standing.ordered [RandomSource σ] {e : Engine σ} (t : Standing e) : e.toNet.Ordered := by
  induction t with
  | init h =>
      rw [Net.Ordered, h]
      exact .zero
  | manage _ _ ih => exact ih
  | perform _ h ih => exact ordered_perform ih h
  | @reconfigure e e' op _ h ih =>
      cases op with
      | setupTopology topologyName =>
          simp only [Engine.reconfigure, setupTopology, bind_eq_ok, leaving_eq_ok] at h
          obtain ⟨m, -, e₁, -, h⟩ := h
          cases h
          exact ordered_resetRunState e₁
      | toggleSdn =>
          exact ordered_perform ih (show e.perform .toggleSdn = _ from mapError_eq_ok.mpr h)
      | cycleTopology =>
          exact ordered_perform ih (show e.perform .cycleTopology = _ from mapError_eq_ok.mpr h)
  | refused _ h ih => exact ordered_refused ih h
  | @broken e e' dt error n _ _ hsteps hpending hnext ih =>
      have hn : n.Ordered := Net.Ordered.steps (n := e.toNet.tick dt) ih hsteps
      exact
        { nodup := Multiset.nodup_of_le (Multiset.map_le_map hpending) hn.nodup
          lt := fun ev hev => (hn.lt ev (Multiset.mem_of_le hpending hev)).trans_le hnext }

/-! ### Draining -/

/-- **Draining ends and is exact**: the loop of `_run_due_events` runs the events that are due when
it is entered, each once and in ascending order, and nothing else, and every event pending
afterwards is due strictly later. -/
structure DrainsTo (entry e' : Engine σ) : Prop where
  drains : Drains nextDue runEvent entry entry.agenda (.ok e')
  unique : ∀ ran r, Drains nextDue runEvent entry ran r → ran = entry.agenda ∧ r = .ok e'
  loop : runDueEvents entry.events.items.length entry = .ok e'
  due : ∀ ev, ev ∈ entry.agenda ↔ ev ∈ entry.events.items ∧ ev.dueTime ≤ entry.currentTimeMs
  ascending : entry.agenda.Pairwise Event.StrictlyBefore
  clock : e'.currentTimeMs = entry.currentTimeMs
  later : ∀ ev ∈ e'.events.items, entry.currentTimeMs < ev.dueTime

/-- The loop keeps the clock. -/
theorem currentTimeMs_drains {e e' : Engine σ} {ran : List Event}
    (h : Drains nextDue runEvent e ran (.ok e')) : e'.currentTimeMs = e.currentTimeMs :=
  h.invariant (P := fun s => s.currentTimeMs = e.currentTimeMs)
    (fun s ev s₁ hnext hs => by
      obtain ⟨events, -, -, rfl⟩ := nextDue_eq_some.mp hnext
      exact hs)
    (fun ev s s' hrun hs => by
      rcases runCallback_outcome hrun with ⟨-, rfl⟩ | ⟨-, k, hsend⟩
      · exact hs
      · exact hsend.frame.2.trans hs) e' rfl rfl

/-- What runs the whole agenda and nothing else is exact. -/
theorem drainsTo_of_drains {e e' : Engine σ} (hord : e.toNet.Ordered)
    (h : Drains nextDue runEvent e e.agenda (.ok e')) : e.DrainsTo e' where
  drains := h
  unique _ _ h' := h'.unique h
  loop := runDueEvents_of_drains h (length_agenda_le e)
  due _ := mem_agenda
  ascending := agenda_ascending hord
  clock := currentTimeMs_drains h
  later := by
    rw [← currentTimeMs_drains h]
    exact nextDue_eq_none.mp (h.next_eq_none e' rfl)

/-- **Draining ends and is exact** exactly where every due callback is ignored, or the source has a
router and, in TCP mode, a timer is due later than it is set. -/
theorem drain_exact [RandomSource σ] {e : Engine σ} (t : Standing e) (dt : ℚ) :
    (∃ e', (e.ticked dt).DrainsTo e') ↔ ∀ ev ∈ (e.ticked dt).agenda,
      (e.ticked dt).toNet.Ignores ev.callback ∨ e.source ∈ e.routers.keys ∧ (e.mode = .tcp →
        (e.ticked dt).currentTimeMs <
          Clock.after (e.ticked dt).currentTimeMs retransmissionTimeoutMs) := by
  have hord : (e.ticked dt).toNet.Ordered := t.ordered
  constructor
  · rintro ⟨e', h⟩
    exact drainable_of_drains h.drains
  · intro h
    obtain ⟨e', he'⟩ := drains_agenda hord h
    exact ⟨e', drainsTo_of_drains hord he'⟩

/-- Without a router for the source, a first transmission raises. -/
theorem sendData_sourceless {e : Engine σ} {k : ℕ} (h : e.source ∉ e.routers.keys)
    (hk : k < e.packetGoal) :
    e.runCallback (.sendData k) = .error (.keyError (toString e.source)) := by
  have hnone : e.routers.get? e.source = none := Dict.get?_eq_none.mpr h
  rw [runCallback, sendData, if_neg (not_le.mpr hk)]
  simp only [makePacket, injectPacket, enqueue, hnone]
  rfl

end Clocked

theorem drain_exact_campus : ∃ e e' : Engine Steady,
    (Steady.engine "Campus Backbone" .udp).startRun = .ok e ∧
      (e.ticked 600).agenda.map Event.eventId = [1, 2, 3] ∧ (e.ticked 600).DrainsTo e' := by
  obtain ⟨e, he, hids⟩ := exists_ok_and (x := (Steady.engine "Campus Backbone" .udp).startRun)
    (f := fun e => (e.ticked 600).agenda.map Event.eventId = [1, 2, 3] &&
      e.source ∈ e.routers.keys && e.mode = .udp) (by decide +kernel)
  simp only [Bool.and_eq_true, decide_eq_true_eq] at hids
  obtain ⟨⟨hids, hrouter⟩, hmode⟩ := hids
  have hstart : Standing e := .perform (.init (e := Steady.engine "Campus Backbone" .udp)
    (by decide +kernel)) (show Engine.perform _ .startRun = .ok e from he)
  obtain ⟨e', he'⟩ := (drain_exact hstart 600).mpr fun _ _ =>
    .inr ⟨hrouter, fun htcp => by cases hmode.symm.trans htcp⟩
  exact ⟨e, e', he, hids, he'⟩

/-- The engine of a graph that has links, but not the source. -/
def sourceless : Engine Steady :=
  { Steady.fresh .udp with graphManager := GraphManager.init.createGraph 0 [(5, 6, none)] }

/-- The same, set up. -/
def sourcelessEngine : Engine Steady := sourceless.setupTopology.toOption.getD sourceless

/-- **Draining can raise, and need not end.**  Without a router for the source the first due
callback raises, and two others are left; on doubles a TCP run at `2 ^ 63` drains forever. -/
theorem drain_breaks :
    (∃ (e₁ e₂ : Engine Steady) (ev : Event), sourceless.setupTopology = .ok e₁ ∧
      e₁.startRun = .ok e₂ ∧ (e₂.ticked 600).agenda.length = 3 ∧
        Drains nextDue runEvent (e₂.ticked 600) [ev] (.error (.keyError "0"))) ∧
    letI : Clock := .double
    ∃ e₁ e₂, (Steady.fresh .tcp).setupTopology (some "Campus Backbone") = .ok e₁ ∧
      e₁.startRun = .ok e₂ ∧
        ∀ ran r, ¬ Drains nextDue runEvent (e₂.ticked (2 ^ 63)) ran r := by
  constructor
  · have hsetup : sourceless.setupTopology = .ok sourcelessEngine :=
      eq_ok_getD (by decide +kernel) _
    obtain ⟨e₂, h₂, hcheck⟩ := exists_ok_and (x := sourcelessEngine.startRun)
      (f := fun e => (e.ticked 600).agenda.length = 3 && (e.ticked 600).nextDue.any fun p =>
        p.1.callback = .sendData 0 && p.2.source ∉ p.2.routers.keys && p.2.source = 0 &&
          0 < p.2.packetGoal) (by decide +kernel)
    simp only [Bool.and_eq_true, decide_eq_true_eq] at hcheck
    obtain ⟨hlength, hnext⟩ := hcheck
    obtain ⟨⟨ev, s⟩, hnext, hcheck⟩ := (Option.any_eq_true ..).mp hnext
    simp only [Bool.and_eq_true, decide_eq_true_eq] at hcheck
    obtain ⟨⟨⟨hsend, hno⟩, hsource⟩, hgoal⟩ := hcheck
    refine ⟨_, e₂, ev, hsetup, h₂, hlength, .raise hnext ?_⟩
    rw [runEvent, hsend, sendData_sourceless hno hgoal, hsource]
    rfl
  · obtain ⟨e₁, e₂, h₁, h₂, hstuck⟩ := campus_stuck
    exact ⟨e₁, e₂, h₁, h₂, fun ran r => @not_drains_of_stuck _ .double _ hstuck ran r⟩

end Engine

end PacketSim
