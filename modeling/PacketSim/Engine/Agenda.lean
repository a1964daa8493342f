import PacketSim.Engine.Placement
import PacketSim.Lib.Drain

/-!
# Engine — Agenda

The loop of `_run_due_events` as a loop over an agenda (`Lib.Drain`): the pending events that are
due when it is entered, in the order of the heap (`isAgenda`).

A due callback is ignored or transmits (`runCallback_outcome`).  A transmission takes a router at
the source and, in TCP mode, a timer that is due later than it is set (`CanTransmit`); on doubles it
is so at times below `2 ^ 63` (`moves_double`).

* `drains_agenda`: where every due callback is ignored or can transmit, the loop runs its agenda.
* `drainable_of_drains`: elsewhere it raises, or runs more.
* `not_drains_of_stuck`: a timer that is due when it is set keeps the loop from ending.
-/

namespace PacketSim
open Lib

/-- The order of distinct events: by due time, then by id. -/
def Event.StrictlyBefore (a b : Event) : Prop :=
  a.dueTime < b.dueTime ∨ a.dueTime = b.dueTime ∧ a.eventId < b.eventId

namespace Engine

variable {σ : Type}

/-! ### What succeeds -/

/-- The ids of the pending events are below the next. -/
def Scheduled (e : Engine σ) : Prop := ∀ ev ∈ e.events.items, ev.eventId < e.nextEventId

theorem schedule_total [Clock] {e : Engine σ} (h : e.Scheduled) (d : ℚ) (c : Callback) :
    ∃ e', e.schedule d c = .ok e' ∧ e'.Scheduled := by
  -- every id in the heap is below the new one, so no two entries compare equal
  have hfresh : ¬ (e.events.items.any fun ev => ev.dueTime = Clock.after e.currentTimeMs d &&
      ev.eventId = e.nextEventId) = true := by
    simp only [List.any_eq_true, Bool.and_eq_true, decide_eq_true_eq, not_exists, not_and]
    exact fun ev hev _ hid => absurd (h ev hev) (by simp [hid])
  refine ⟨_, if_neg hfresh, fun ev hev => ?_⟩
  rcases Heap.mem_push.mp hev with rfl | hev
  · exact Nat.lt_succ_self _
  · exact (h ev hev).trans (Nat.lt_succ_self _)

theorem enqueue_total {e : Engine σ} {v : Int} (h : v ∈ e.routers.keys) (hev : e.Scheduled)
    (p : Packet) : ∃ e', e.enqueue v p = .ok e' ∧ e'.Scheduled := by
  obtain ⟨r, hr⟩ := Dict.mem_keys.mp h
  refine ⟨{ e with routers := e.routers.modify v (·.enqueue p) }, ?_, hev⟩
  rw [enqueue, hr]

theorem injectPacket_total {e : Engine σ} {p : Packet} (h : p.source ∈ e.routers.keys)
    (hev : e.Scheduled) : ∃ e', e.injectPacket p = .ok e' ∧ e'.Scheduled := by
  unfold injectPacket
  refine enqueue_total ?_ ?_ p
  · exact h
  · exact hev

theorem keys_setting (e : Engine σ) : e.setting.routers.keys = e.routers.keys := Dict.keys_map _ _

theorem sendData_total [Clock] {e : Engine σ} (hsrc : e.source ∈ e.routers.keys)
    (hev : e.Scheduled) (k : ℕ) (re : Bool) : ∃ e', e.sendData k re = .ok e' ∧ e'.Scheduled := by
  unfold sendData
  split
  · exact ⟨e, rfl, hev⟩
  · refine bind_total (injectPacket_total hsrc hev) fun e₁ hev₁ => ?_
    dsimp only
    split
    · refine schedule_total ?_ _ _
      exact hev₁
    · exact ⟨_, rfl, hev₁⟩

theorem runCallback_total [Clock] {e : Engine σ} (hsrc : e.source ∈ e.routers.keys)
    (hev : e.Scheduled) (c : Callback) : ∃ e', e.runCallback c = .ok e' := by
  cases c with
  | sendData k =>
      obtain ⟨e', h', -⟩ := sendData_total hsrc hev k false
      exact ⟨e', h'⟩
  | onTimeout k token =>
      rw [runCallback, onTimeout]
      split
      · exact ⟨e, rfl⟩
      · split
        · exact ⟨e, rfl⟩
        · obtain ⟨e', h', -⟩ := sendData_total hsrc hev k true
          exact ⟨e', h'⟩

theorem scheduled_of_ordered {e : Engine σ} (h : e.toNet.Ordered) : e.Scheduled :=
  fun ev hev => h.lt ev (Multiset.mem_coe.mpr hev)

/-! ### The loop -/

/-- The test of the loop, and the pop. -/
def nextDue (e : Engine σ) : Option (Event × Engine σ) :=
  match e.events.pop? with
  | none => none
  | some (event, events) =>
      if event.dueTime ≤ e.currentTimeMs then some (event, { e with events }) else none

/-- The body of the loop. -/
def runEvent [Clock] (event : Event) (e : Engine σ) : Except PyError (Engine σ) :=
  e.runCallback event.callback

/-- The pending events that are due. -/
def agenda (e : Engine σ) : List Event :=
  e.events.items.filter fun ev => ev.dueTime ≤ e.currentTimeMs

theorem mem_agenda {e : Engine σ} {ev : Event} :
    ev ∈ e.agenda ↔ ev ∈ e.events.items ∧ ev.dueTime ≤ e.currentTimeMs := by
  rw [agenda, List.mem_filter, decide_eq_true_eq]

theorem nextDue_eq_some {e e₁ : Engine σ} {ev : Event} :
    e.nextDue = some (ev, e₁) ↔ ∃ events, e.events.pop? = some (ev, events) ∧
      ev.dueTime ≤ e.currentTimeMs ∧ { e with events } = e₁ := by
  unfold nextDue
  cases hpop : e.events.pop? with
  | none => simp
  | some p =>
      obtain ⟨event, events⟩ := p
      by_cases hdue : event.dueTime ≤ e.currentTimeMs
      · simp only [hdue, if_true, Option.some.injEq, Prod.mk.injEq]
        constructor
        · rintro ⟨rfl, rfl⟩
          exact ⟨events, ⟨rfl, rfl⟩, hdue, rfl⟩
        · rintro ⟨events', ⟨rfl, rfl⟩, -, rfl⟩
          exact ⟨rfl, rfl⟩
      · simp only [hdue, if_false, Option.some.injEq, Prod.mk.injEq]
        constructor
        · exact nofun
        · rintro ⟨events', ⟨rfl, rfl⟩, hdue', -⟩
          exact absurd hdue' hdue

/-- The loop stops when nothing pending is due: the first event is least. -/
theorem nextDue_eq_none {e : Engine σ} :
    e.nextDue = none ↔ ∀ ev ∈ e.events.items, e.currentTimeMs < ev.dueTime := by
  unfold nextDue
  cases hpop : e.events.pop? with
  | none => simp [Heap.pop?_eq_none.mp hpop]
  | some p =>
      obtain ⟨event, events⟩ := p
      have hitems := Heap.pop?_eq_some.mp hpop
      by_cases hdue : event.dueTime ≤ e.currentTimeMs
      · simp only [hdue, if_true, hitems]
        constructor
        · exact nofun
        · exact fun h => absurd hdue (not_le.mpr (h event List.mem_cons_self))
      · simp only [hdue, if_false, true_iff, hitems]
        intro ev hev
        rcases List.mem_cons.mp hev with rfl | hev
        · exact not_le.mp hdue
        · rcases Heap.pop?_le hpop hev with h | ⟨h, -⟩
          · exact (not_le.mp hdue).trans h
          · exact h ▸ not_le.mp hdue

/-- **The loop of `_run_due_events` has the due events for its agenda.** -/
theorem isAgenda : IsAgenda (@nextDue σ) agenda where
  stop e h := by
    refine List.filter_eq_nil_iff.mpr fun ev hev => ?_
    rw [decide_eq_true_eq, not_le]
    exact nextDue_eq_none.mp h ev hev
  take e ev e₁ h := by
    obtain ⟨events, hpop, hdue, rfl⟩ := nextDue_eq_some.mp h
    rw [agenda, Heap.pop?_eq_some.mp hpop, List.filter_cons, if_pos (by simpa using hdue)]
    rfl

theorem runDueEvents_eq [Clock] (fuel : ℕ) (e : Engine σ) :
    runDueEvents fuel e = match e.nextDue with
      | none => .ok e
      | some (event, e₁) =>
          match fuel with
          | 0 => .error .diverged
          | fuel + 1 => e₁.runEvent event >>= runDueEvents fuel := by
  rw [runDueEvents.eq_def, nextDue]
  dsimp only
  cases e.events.pop? with
  | none => rfl
  | some p =>
      obtain ⟨event, events⟩ := p
      by_cases hdue : event.dueTime ≤ e.currentTimeMs
      · simp only [hdue, if_true]
        cases fuel <;> rfl
      · simp only [hdue, if_false]

/-- A drain is what `runDueEvents` computes, with fuel for every event it runs. -/
theorem runDueEvents_of_drains [Clock] {e : Engine σ} {ran : List Event}
    {r : Except PyError (Engine σ)} (h : Drains nextDue runEvent e ran r) {fuel : ℕ}
    (hfuel : ran.length ≤ fuel) : runDueEvents fuel e = r := by
  induction h generalizing fuel with
  | stop hs => rw [runDueEvents_eq, hs]
  | raise hs hx =>
      obtain ⟨fuel, rfl⟩ := Nat.exists_eq_succ_of_ne_zero (Nat.pos_iff_ne_zero.mp hfuel)
      rw [runDueEvents_eq, hs]
      exact bind_eq_error.mpr (.inl hx)
  | turn hs hx _ ih =>
      obtain ⟨fuel, rfl⟩ := Nat.exists_eq_succ_of_ne_zero
        (Nat.pos_iff_ne_zero.mp ((Nat.succ_pos _).trans_le hfuel))
      rw [runDueEvents_eq, hs]
      dsimp only
      rw [hx]
      exact ih (Nat.succ_le_succ_iff.mp hfuel)

theorem length_agenda_le (e : Engine σ) : e.agenda.length ≤ e.events.items.length :=
  List.length_filter_le _ _

/-- The agenda is in the order of the heap, and ids are distinct. -/
theorem agenda_ascending {e : Engine σ} (h : e.toNet.Ordered) :
    e.agenda.Pairwise Event.StrictlyBefore := by
  have hids : (e.events.items.map Event.eventId).Nodup := h.nodup
  have hne : e.events.items.Pairwise fun a b => a.eventId ≠ b.eventId :=
    List.pairwise_map.mp hids
  refine ((e.events.sorted.and hne).imp fun {a b} hab => ?_).filter _
  rcases hab.1 with hlt | ⟨heq, hle⟩
  · exact .inl hlt
  · exact .inr ⟨heq, lt_of_le_of_ne hle hab.2⟩

/-! ### What a callback does -/

section Clocked
variable [Clock]

/-- A retransmission timer is due later than it is set. -/
def Moves (e : Engine σ) : Prop :=
  e.currentTimeMs < Clock.after e.currentTimeMs retransmissionTimeoutMs

/-- The source has a router, and a timer set now is not due now. -/
def CanTransmit (e : Engine σ) : Prop :=
  e.source ∈ e.routers.keys ∧ (e.mode = .tcp → e.Moves)

/-- Sequence `k` has been transmitted: a packet was injected, and in TCP mode the timer set. -/
structure Transmits (k : ℕ) (e e' : Engine σ) : Prop where
  goal : k < e.packetGoal
  router : e.source ∈ e.routers.keys
  net : ∃ re, e'.toNet = e.toNet.transmit k re
  events : e'.events = if e.mode = .tcp then
    e.events.push ⟨Clock.after e.currentTimeMs retransmissionTimeoutMs, e.nextEventId,
      .onTimeout k (e.timeoutToken + 1)⟩
    else e.events

variable {e e' e₁ : Engine σ}

theorem Transmits.frame {k : ℕ} (h : e.Transmits k e') :
    e'.setting = e.setting ∧ e'.currentTimeMs = e.currentTimeMs := by
  obtain ⟨re, hn⟩ := h.net
  exact ⟨(congrArg Net.setting hn).trans (Net.setting_transmit _ _ _),
    (congrArg Net.clock hn).trans (Net.clock_transmit _ _ _)⟩

theorem sends_sendData {k : ℕ} {re : Bool} (hk : k < e.packetGoal)
    (h : e.sendData k re = .ok e') : e.Transmits k e' := by
  refine ⟨hk, ?_, ⟨re, sendData_toNet hk h⟩, ?_⟩
  all_goals
    rw [sendData, if_neg (not_le.mpr hk), bind_eq_ok] at h
    obtain ⟨e₁, hinject, h⟩ := h
    unfold injectPacket enqueue at hinject
    dsimp only [makePacket] at hinject
    split at hinject
    · cases hinject
  · rename_i r hr
    exact Dict.mem_keys_of_get? hr
  · cases hinject
    dsimp only at h
    split at h
    · rename_i hm
      unfold schedule at h
      dsimp only at h
      split at h
      · cases h
      · cases h
        exact (if_pos hm).symm
    · rename_i hm
      cases h
      exact (if_neg hm).symm

/-- **A callback is ignored or transmits.** -/
theorem runCallback_outcome {c : Callback} (h : e.runCallback c = .ok e') :
    e.toNet.Ignores c ∧ e' = e ∨ ¬ e.toNet.Ignores c ∧ ∃ k, e.Transmits k e' := by
  by_cases hi : e.toNet.Ignores c
  · rcases runCallback_cases h with h | ⟨k, rfl, hk, -⟩ | ⟨k, rfl, hr, hc, ha, hk, -⟩
    · exact .inl h
    · exact absurd hi (not_le.mpr hk)
    · rcases hi with hi | hi | hi | hi | hi
      · cases hr.symm.trans hi
      · cases hc.symm.trans hi
      · exact absurd ha hi
      · exact absurd rfl hi
      · exact absurd hi (not_le.mpr hk)
  · refine .inr ⟨hi, ?_⟩
    cases c with
    | sendData k => exact ⟨k, sends_sendData (not_le.mp hi) h⟩
    | onTimeout k token =>
        rw [runCallback, onTimeout] at h
        simp only [Net.Ignores, not_or, ne_eq, not_not, Bool.not_eq_false, Bool.not_eq_true] at hi
        obtain ⟨hrun, hcomp, haw, htoken, hk⟩ := hi
        have hrun : e.running = true := hrun
        have hcomp : e.completed = false := hcomp
        have haw : e.awaitingAck = some k := haw
        have htoken : token = e.timeoutToken := htoken
        rw [if_neg (by simp [hrun, hcomp]), if_neg (by simp [haw, htoken])] at h
        exact ⟨k, sends_sendData (not_le.mp hk) h⟩

/-- An ignored callback changes nothing. -/
theorem runCallback_ignored {c : Callback} (h : e.toNet.Ignores c) : e.runCallback c = .ok e := by
  cases c with
  | sendData k => exact if_pos h
  | onTimeout k token =>
      rw [runCallback, onTimeout]
      split
      · rfl
      · rename_i hr
        simp only [Bool.or_eq_true, Bool.not_eq_true', not_or, Bool.not_eq_false,
          Bool.not_eq_true] at hr
        split
        · rfl
        · rename_i ha
          simp only [not_or, not_not] at ha
          rcases h with h | h | h | h | h
          · cases hr.1.symm.trans h
          · cases hr.2.symm.trans h
          · exact absurd ha.1 h
          · exact absurd ha.2 h
          · exact if_pos h

/-- A timer that is due later leaves the agenda as it is. -/
theorem Transmits.agenda_eq {k : ℕ} (h : e.Transmits k e') (hm : e.mode = .tcp → e.Moves) :
    e'.agenda = e.agenda := by
  rw [agenda, h.frame.2, h.events, agenda]
  split
  · rename_i hmode
    exact Heap.filter_push (by simpa [Moves] using hm hmode) _
  · rfl

/-- A timer that is due at once is on the agenda. -/
theorem Transmits.length_agenda {k : ℕ} (h : e.Transmits k e') (hmode : e.mode = .tcp)
    (hm : ¬ e.Moves) : e'.agenda.length = e.agenda.length + 1 := by
  have hdue := not_lt.mp hm
  rw [agenda, h.frame.2, h.events, if_pos hmode, agenda,
    ((Heap.perm_push _ _).filter _).length_eq, List.filter_cons, if_pos (by simpa using hdue)]
  rfl

/-- Whether callbacks are ignored does not depend on what is pending. -/
theorem nextDue_spec {ev : Event} (h : e.nextDue = some (ev, e₁)) :
    e.agenda = ev :: e₁.agenda ∧ (∀ c, e₁.toNet.Ignores c ↔ e.toNet.Ignores c) ∧
      (e₁.CanTransmit ↔ e.CanTransmit) ∧
      (e.toNet.Ordered → e₁.toNet.Ordered ∧
        ∀ e₂, e₁.runEvent ev = .ok e₂ → e₂.toNet.Ordered) := by
  refine ⟨isAgenda.take _ _ _ h, ?_⟩
  obtain ⟨events, hpop, hdue, rfl⟩ := nextDue_eq_some.mp h
  refine ⟨fun c => by cases c <;> exact Iff.rfl, Iff.rfl, fun hord => ⟨?_, fun e₂ h₂ => ?_⟩⟩
  · exact hord.pop (pending_pop hpop)
  · exact hord.step (callback_step hpop hdue h₂)

/-! ### Where the loop runs its agenda -/

/-- Every due callback is ignored or can transmit. -/
def Drainable (e : Engine σ) : Prop :=
  ∀ ev ∈ e.agenda, e.toNet.Ignores ev.callback ∨ e.CanTransmit

theorem drainable_of_canTransmit (h : e.CanTransmit) : e.Drainable := fun _ _ => .inr h

/-- One pass over a due callback that is ignored or can transmit. -/
theorem Drainable.pass {ev : Event} (hord : e.toNet.Ordered) (h : e.Drainable)
    (hn : e.nextDue = some (ev, e₁)) : ∃ e₂, e₁.runEvent ev = .ok e₂ ∧ e₂.agenda = e₁.agenda ∧
      e₂.toNet.Ordered ∧ e₂.Drainable := by
  obtain ⟨hagenda, hignores, hcan, hord'⟩ := nextDue_spec hn
  obtain ⟨hord₁, hord₂⟩ := hord' hord
  have hrest : e₁.Drainable := fun ev' hev' => by
    rw [hignores, hcan]
    exact h ev' (hagenda ▸ List.mem_cons_of_mem _ hev')
  rcases h ev (hagenda ▸ List.mem_cons_self) with hi | hc
  · exact ⟨e₁, runCallback_ignored ((hignores _).mpr hi), rfl, hord₁, hrest⟩
  · have hc₁ := hcan.mpr hc
    obtain ⟨e₂, h₂⟩ := runCallback_total hc₁.1 (scheduled_of_ordered hord₁) ev.callback
    rcases runCallback_outcome h₂ with ⟨-, rfl⟩ | ⟨-, k, hs⟩
    · exact ⟨e₂, h₂, rfl, hord₂ _ h₂, hrest⟩
    · refine ⟨e₂, h₂, hs.agenda_eq hc₁.2, hord₂ _ h₂, drainable_of_canTransmit ?_⟩
      obtain ⟨hset, hclock⟩ := hs.frame
      have hsource : e₂.source = e₁.source := congrArg Setting.source hset
      have hmode : e₂.mode = e₁.mode := congrArg Setting.mode hset
      have hkeys : e₂.routers.keys = e₁.routers.keys := by
        rw [← keys_setting, hset, keys_setting]
      rw [CanTransmit, Moves, hsource, hkeys, hmode, hclock]
      exact hc₁

/-- **Where every due callback is ignored or can transmit, the loop runs its agenda.** -/
theorem drains_agenda (hord : e.toNet.Ordered) (h : e.Drainable) :
    ∃ e', Drains nextDue runEvent e e.agenda (.ok e') :=
  isAgenda.drains (P := fun s => s.toNet.Ordered ∧ s.Drainable)
    (fun _ _ _ hs hn => hs.2.pass hs.1 hn) ⟨hord, h⟩

/-- No callback takes from the agenda. -/
theorem length_agenda_runEvent {ev : Event} (h : e.runEvent ev = .ok e') :
    e.agenda.length ≤ e'.agenda.length := by
  rcases runCallback_outcome h with ⟨-, rfl⟩ | ⟨-, k, hs⟩
  · exact le_rfl
  · by_cases hm : e.mode = .tcp → e.Moves
    · rw [hs.agenda_eq hm]
    · obtain ⟨hmode, hm⟩ := Classical.not_imp.mp hm
      rw [hs.length_agenda hmode hm]
      exact Nat.le_succ _

/-- **Where a due callback cannot transmit, the loop raises or runs more than its agenda.** -/
theorem drainable_of_drains (h : Drains nextDue runEvent e e.agenda (.ok e')) : e.Drainable := by
  by_contra hno
  refine (isAgenda.length_lt (fun _ _ _ _ _ => length_agenda_runEvent)
    (Q := fun s => ¬ s.Drainable) (fun s hs hnil => ?_) (fun s ev s₁ s₂ hs hn hrun => ?_) h e' rfl
      hno).false
  · exact hs fun ev hev => by simp [hnil] at hev
  · obtain ⟨hagenda, hignores, hcan, -⟩ := nextDue_spec hn
    rcases runCallback_outcome hrun with ⟨hi, rfl⟩ | ⟨-, k, hsend⟩
    · -- the event that cannot transmit is still to come
      refine .inl fun hs₂ => hs fun ev' hev' => ?_
      rw [hagenda] at hev'
      rcases List.mem_cons.mp hev' with rfl | hev'
      · exact .inl ((hignores _).mp hi)
      · rw [← hignores, ← hcan]
        exact hs₂ ev' hev'
    · have hno₁ : ¬ s₁.CanTransmit := fun hc => hs (drainable_of_canTransmit (hcan.mp hc))
      have hm : ¬ (s₁.mode = .tcp → s₁.Moves) := fun hm => hno₁ ⟨hsend.router, hm⟩
      obtain ⟨hmode, hm⟩ := Classical.not_imp.mp hm
      exact .inr (by rw [hsend.length_agenda hmode hm]; exact Nat.lt_succ_self _)

/-! ### Where it does not end -/

/-- A TCP run whose timers are due when they are set, with a transmission on the agenda. -/
structure Stuck (e : Engine σ) : Prop where
  running : e.running = true
  completed : e.completed = false
  mode : e.mode = .tcp
  still : ¬ e.Moves
  router : e.source ∈ e.routers.keys
  ordered : e.toNet.Ordered
  live : ∃ ev ∈ e.agenda, ¬ e.toNet.Ignores ev.callback

theorem Stuck.pass (h : e.Stuck) :
    ∃ ev e₁ e₂, e.nextDue = some (ev, e₁) ∧ e₁.runEvent ev = .ok e₂ ∧ e₂.Stuck := by
  cases hn : e.nextDue with
  | none =>
      obtain ⟨ev, hev, -⟩ := h.live
      rw [isAgenda.stop e hn] at hev
      cases hev
  | some p =>
      obtain ⟨ev, e₁⟩ := p
      obtain ⟨hagenda, hignores, -, hord⟩ := nextDue_spec hn
      obtain ⟨hord₁, hord₂⟩ := hord h.ordered
      have hsame : e₁.running = true ∧ e₁.completed = false ∧ e₁.mode = .tcp ∧ ¬ e₁.Moves ∧
          e₁.source ∈ e₁.routers.keys := by
        obtain ⟨events, -, -, rfl⟩ := nextDue_eq_some.mp hn
        exact ⟨h.running, h.completed, h.mode, h.still, h.router⟩
      obtain ⟨hrun, hcomp, hmode, hstill, hrouter⟩ := hsame
      obtain ⟨e₂, h₂⟩ := runCallback_total hrouter (scheduled_of_ordered hord₁) ev.callback
      refine ⟨ev, e₁, e₂, rfl, h₂, ?_⟩
      rcases runCallback_outcome h₂ with ⟨hi, rfl⟩ | ⟨-, k, hs⟩
      · refine ⟨hrun, hcomp, hmode, hstill, hrouter, hord₁, ?_⟩
        obtain ⟨ev', hev', hlive⟩ := h.live
        rw [hagenda] at hev'
        rcases List.mem_cons.mp hev' with rfl | hev'
        · exact absurd ((hignores _).mp hi) hlive
        · exact ⟨ev', hev', fun hi' => hlive ((hignores _).mp hi')⟩
      · -- the timer just set is due, and the one the sender waits under
        obtain ⟨hset, hclock⟩ := hs.frame
        obtain ⟨re, hnet⟩ := hs.net
        rw [Net.transmit_tcp _ _ _ hmode] at hnet
        have hrun₂ : e₂.running = true := (congrArg Net.running hnet).trans hrun
        have hcomp₂ : e₂.completed = false := (congrArg Net.completed hnet).trans hcomp
        have haw : e₂.awaitingAck = some k := congrArg Net.awaiting hnet
        have htoken : e₂.timeoutToken = e₁.timeoutToken + 1 := congrArg Net.token hnet
        have hgoal : e₂.packetGoal = e₁.packetGoal := congrArg Setting.packetGoal hset
        refine ⟨hrun₂, hcomp₂, (congrArg Setting.mode hset).trans hmode, ?_, ?_, hord₂ _ h₂,
          ⟨Clock.after e₁.currentTimeMs retransmissionTimeoutMs, e₁.nextEventId,
            .onTimeout k (e₁.timeoutToken + 1)⟩, ?_, ?_⟩
        · rw [Moves, hclock]
          exact hstill
        · rw [show e₂.source = e₁.source from congrArg Setting.source hset, ← keys_setting, hset,
            keys_setting]
          exact hrouter
        · rw [mem_agenda, hs.events, if_pos hmode, hclock]
          exact ⟨Heap.mem_push.mpr (.inl rfl), not_lt.mp hstill⟩
        · rintro (hi | hi | hi | hi | hi)
          · cases hrun₂.symm.trans hi
          · cases hcomp₂.symm.trans hi
          · exact hi haw
          · exact hi htoken.symm
          · exact absurd (show e₂.packetGoal ≤ k from hi) (by rw [hgoal]; exact not_le.mpr hs.goal)

/-- **A timer that is due when it is set keeps the loop from ending.** -/
theorem not_drains_of_stuck (h : e.Stuck) (ran : List Event) (r : Except PyError (Engine σ)) :
    ¬ Drains nextDue runEvent e ran r :=
  fun t => not_drains (fun _ hs => hs.pass) t h

/-- A TCP run that has just begun is stuck at a time that a timer does not move. -/
theorem stuck_of_start {dt : ℚ} (h : e.startRun = .ok e') (hmode : e.mode = .tcp)
    (hgoal : 0 < e.packetGoal) (hrouter : e.source ∈ e.routers.keys)
    (hdue : Clock.after 0 0 ≤ Clock.after 0 dt) (hstill : ¬ (e'.ticked dt).Moves) :
    (e'.ticked dt).Stuck := by
  have hnet := startRun_toNet h
  have hset : e'.setting = e.setting := congrArg Net.setting hnet
  have hclock : e'.currentTimeMs = 0 := congrArg Net.clock hnet
  have hfirst : Net.firstEvents e.setting = {⟨Clock.after 0 0, 1, .sendData 0⟩} := by
    rw [Net.firstEvents, show e.setting.mode = .tcp from hmode]
  have hpending : (e'.events.items : Multiset Event) = {⟨Clock.after 0 0, 1, .sendData 0⟩} := by
    rw [← hfirst]
    exact congrArg Net.pending hnet
  have hmem : ⟨Clock.after 0 0, 1, .sendData 0⟩ ∈ e'.events.items := by
    rw [← Multiset.mem_coe, hpending]
    exact Multiset.mem_singleton_self _
  have hord : e'.toNet.Ordered := hnet ▸ Net.numbered_start e.setting
  exact
    { running := congrArg Net.running hnet
      completed := congrArg Net.completed hnet
      mode := (congrArg Setting.mode hset).trans hmode
      still := hstill
      router := by
        show e'.source ∈ e'.routers.keys
        rw [show e'.source = e.source from congrArg Setting.source hset, ← keys_setting, hset,
          keys_setting]
        exact hrouter
      ordered := hord
      live := by
        refine ⟨⟨Clock.after 0 0, 1, .sendData 0⟩, mem_agenda.mpr ⟨hmem, ?_⟩, ?_⟩
        · show Clock.after 0 0 ≤ Clock.after e'.currentTimeMs dt
          rw [hclock]
          exact hdue
        · show ¬ e'.packetGoal ≤ 0
          rw [show e'.packetGoal = e.packetGoal from congrArg Setting.packetGoal hset]
          exact not_le.mpr hgoal }

end Clocked

/-! ### Times that timers move -/

/-- On the exact clock a timer is always due later. -/
theorem moves_exact (e : Engine σ) : e.Moves :=
  lt_add_of_pos_right _ retransmissionTimeoutMs_pos

/-- On doubles it is, at times below `2 ^ 63`. -/
theorem moves_double {e : Engine σ} (h : 0 ≤ e.currentTimeMs)
    (hr : rounded e.currentTimeMs = e.currentTimeMs) :
    @Moves σ .double e ↔ e.currentTimeMs < 2 ^ 63 := by
  have := lt_rounded_add_iff (y := retransmissionTimeoutMs) h hr (e := 11) (by norm_num)
    (by norm_num [pow2_eq, retransmissionTimeoutMs])
    (by norm_num [pow2_eq, retransmissionTimeoutMs])
  rwa [show (pow2 (11 + 52) : ℚ) = 2 ^ 63 by rw [pow2_eq]; norm_num] at this

end Engine

end PacketSim
