import PacketSim.Engine.Datagrams
import PacketSim.Engine.Effects
import PacketSim.Engine.Ending

/-!
# Engine — Lifecycle

A run from its start to its end.  It goes on, its clock the sum of the frame times, until the update
that settles it or brings it to its longest time; after that nothing changes but the markers
(`run_lifecycle`).  A run that was settled has done its work: in TCP mode every sequence is
delivered and acknowledged, in UDP mode every sequence was sent once and no more are missing than
packets were dropped (`run_settled`).
-/

namespace PacketSim
open Lib History

namespace Engine

variable {σ : Type}

/-- The time that `get_stat_lines` shows. -/
def elapsedMs (e : Engine σ) : ℚ :=
  if !e.running then e.stats.completionTimeMs else e.currentTimeMs

/-- Nothing is queued, in flight or pending, and the protocol has done its work. -/
structure Settled (e : Engine σ) : Prop where
  idle : e.networkIdle = true
  transmitted : transmitted e.history = Finset.range e.packetGoal
  books : e.stats.packetsSent = e.stats.packetsDropped + arrivals e.history
  udp : e.mode = .udp → e.stats.packetsSent = e.packetGoal + e.stats.duplicatePackets ∧
    e.packetGoal ≤ e.stats.packetsDelivered + e.stats.packetsDropped ∧
    (e.stats.packetsDropped = 0 → e.deliveredSequences = Finset.range e.packetGoal)
  tcp : e.mode = .tcp → e.deliveredSequences = Finset.range e.packetGoal ∧
    acknowledged e.history = Finset.range e.packetGoal

section Ends
variable {e e' : Engine σ} {s : Setting}

theorem held_of_idle (hidle : e.networkIdle = true) : e.toNet.held = 0 := by
  have hpackets := packets_toNet e
  rw [(networkIdle_iff.mp hidle).1, Multiset.coe_nil] at hpackets
  exact Multiset.map_eq_zero.mp hpackets.symm

/-- The books of an idle network. -/
theorem books_of_idle (h : Net.Run s e.toNet) (hidle : e.networkIdle = true) :
    e.stats.packetsSent = e.stats.packetsDropped + arrivals e.history := by
  have hgone := h.ledger.gone
  rw [held_of_idle hidle, Multiset.card_zero, zero_add] at hgone
  exact hgone

/-- An idle UDP run has sent every sequence, and misses no more than were dropped. -/
theorem settled_udp (h : Net.Run s e.toNet) (hm : s.mode = .udp) (hidle : e.networkIdle = true) :
    e.Settled := by
  have hset : e.toNet.setting = s := h.setting
  have hmode : e.mode = .udp := (congrArg Setting.mode hset).trans hm
  have hl := h.ledger
  have hd := h.datagrams hm
  have hpending := (networkIdle_iff.mp hidle).2
  have htransmitted : History.transmitted e.history = Finset.range e.packetGoal := by
    ext k
    rw [Finset.mem_range]
    refine ⟨hl.goal k, fun hk => ?_⟩
    have hall := hd.all k hk
    rw [hpending] at hall
    exact hall.resolve_left (by simp [Net.sends])
  have hlive : e.toNet.live = 0 := by rw [Net.live, held_of_idle hidle, Multiset.map_zero]
  have haccounted := hd.accounted
  rw [hlive] at haccounted
  have hmade := hl.made
  have hcount : e.stats.packetsDelivered = e.deliveredSequences.card := hl.count
  refine ⟨hidle, htransmitted, books_of_idle h hidle, fun _ => ⟨?_, ?_, fun hdrop => ?_⟩,
    fun htcp => ?_⟩
  · rw [hd.resent, hd.acks] at hmade
    have : e.stats.packetsSent = (History.transmitted e.history).card + 0 + 0 +
      e.stats.duplicatePackets := hmade
    rw [this, htransmitted, Finset.card_range, add_zero, add_zero]
  · have hle := haccounted.card_le
    have hle' : (History.transmitted e.history).card ≤ e.deliveredSequences.card +
        ((0 : Multiset ℕ).toFinset \ e.deliveredSequences).card + e.stats.packetsDropped := hle
    rw [htransmitted, Finset.card_range] at hle'
    simpa [hcount] using hle'
  · have hsub : History.transmitted e.history ⊆ e.deliveredSequences := by
      have hlost : e.toNet.stats.packetsDropped = 0 := hdrop
      rw [hlost] at haccounted
      exact haccounted.all_delivered
    have hsub' : e.deliveredSequences ⊆ History.transmitted e.history := hl.delivered
    rw [← htransmitted]
    exact hsub'.antisymm hsub
  · cases hmode.symm.trans htcp

/-- An idle TCP run that is complete has delivered every sequence, and seen it acknowledged. -/
theorem settled_tcp (h : Net.Run s e.toNet) (hm : s.mode = .tcp) (hrun : e.running = true)
    (hc : e.completed = true) (hidle : e.networkIdle = true) : e.Settled := by
  have hset : e.toNet.setting = s := h.setting
  have hmode : e.mode = .tcp := (congrArg Setting.mode hset).trans hm
  obtain ⟨ph, hph⟩ := h.holds hm
  obtain ⟨rfl, -⟩ := (hph.completed hrun).mp hc
  obtain ⟨m, hm', hle, hge⟩ := hph.delivered
  obtain rfl : m = e.packetGoal := le_antisymm hge hle
  refine ⟨hidle, hph.transmitted, books_of_idle h hidle, fun hudp => ?_, fun _ => ⟨hm',
    hph.acknowledged⟩⟩
  cases hmode.symm.trans hudp

/-- What `update` asks at its end. -/
theorem checkFinished_running (hrun : e.running = true) :
    e.checkFinished = e ∧ e.currentTimeMs < maxRuntimeMs ∨
      e.checkFinished = { e with
          running := false, completed := true, stats := e.stats.markFinished e.currentTimeMs } ∧
        (e.networkIdle = true ∧ (e.mode = .tcp → e.completed = true) ∨
          maxRuntimeMs ≤ e.currentTimeMs) := by
  have hfinish := finishRun_running hrun
  unfold checkFinished
  split_ifs with hudp htcp hlong
  · exact .inr ⟨hfinish, .inl ⟨hudp.2.2, fun hm => by cases hudp.1.symm.trans hm⟩⟩
  · exact .inr ⟨hfinish, .inl ⟨htcp.2.2, fun _ => htcp.2.1⟩⟩
  · exact .inr ⟨hfinish, .inr hlong⟩
  · exact .inl ⟨rfl, not_le.mp hlong⟩

/-- Nothing that shows in `Settled` changes when the run is marked finished. -/
theorem Settled.finish (h : e.Settled) : Settled { e with
    running := false, completed := true, stats := e.stats.markFinished e.currentTimeMs } :=
  ⟨h.idle, h.transmitted, h.books, h.udp, h.tcp⟩

theorem settled_of_idle (h : Net.Run s e.toNet) (hrun : e.running = true)
    (hidle : e.networkIdle = true) (hc : e.mode = .tcp → e.completed = true) : e.Settled := by
  have hmode : e.mode = s.mode := congrArg Setting.mode h.setting
  cases hm : s.mode with
  | udp => exact settled_udp h hm hidle
  | tcp => exact settled_tcp h hm hrun (hc (hmode.trans hm)) hidle

end Ends

/-! ### Runs -/

section Runs
variable [RandomSource σ] {e₀ e e' : Engine σ} {dt : ℚ}

theorem dispatchRouters_sentAll (h : e.dispatchRouters = .ok e') :
    e'.udpSentAll = e.udpSentAll :=
  foldlM_invariant (P := fun x => x.udpSentAll = e.udpSentAll) (fun x _ x' _ hd hx => by
    obtain ⟨r, -, ⟨-, rfl⟩ | ⟨p, queue, -, -, ⟨value, -, rfl⟩ | ⟨hop, -, hl⟩⟩⟩ :=
      dispatchRouter_cases hd
    · exact hx
    · exact hx
    · obtain ⟨d, -, f, g, n, -, rfl | ⟨-, f', -, rfl⟩⟩ := launchLink_cases hl
      · exact hx
      · exact hx) h rfl

omit [RandomSource σ] in
theorem advanceInFlightPackets_sentAll (h : e.advanceInFlightPackets dt = .ok e') :
    e'.udpSentAll = e.udpSentAll := by
  rw [advanceInFlightPackets, bind_eq_ok] at h
  obtain ⟨⟨kept, e₁⟩, h₁, h⟩ := h
  cases h
  refine foldlM_invariant
    (P := fun st : List InFlightPacket × Engine σ => st.2.udpSentAll = e.udpSentAll)
    (fun st f st' _ ha hst => ?_) h₁ rfl
  obtain ⟨kept, x⟩ := st
  unfold advanceFlight at ha
  dsimp only at ha
  split at ha
  · cases ha
    exact hst
  · split at ha
    · cases ha
      exact hst
    · rw [bind_eq_ok] at ha
      obtain ⟨x', hx', ha⟩ := ha
      cases ha
      exact (congrArg Links.udpSentAll (handleArrival_leaves hx').links).trans hst

/-- In UDP mode `udp_sent_all` is set when the run starts, and stays set. -/
theorem Run.sentAll (h : Run e₀ e) (hm : e₀.mode = .udp) : e.udpSentAll = true := by
  induction h with
  | start h => exact (congrArg Links.udpSentAll (startRun_leaves h).2).trans (by simp [hm])
  | @update e e' dt _ _ hu ih =>
      cases hrun : e.running with
      | false =>
          rw [update_idle dt hrun] at hu
          cases hu
          exact ih
      | true =>
          obtain ⟨e₁, e₂, e₃, h₁, h₂, h₃, rfl⟩ := (update_eq_ok hrun).mp hu
          have hsent : e₃.udpSentAll = true :=
            (advanceInFlightPackets_sentAll h₃).trans <| (dispatchRouters_sentAll h₂).trans <|
              (congrArg Links.udpSentAll (runDueEvents_leaves (e := e.ticked dt) h₁).links).trans ih
          have hfinished : e₃.checkFinished.udpSentAll = e₃.udpSentAll := by
            unfold checkFinished finishRun
            split_ifs <;> rfl
          exact hfinished.trans hsent

/-- The engine at the end of an update, as `update` finds it when it asks whether the run is over:
it ends here, settled or at its longest time, or goes on. -/
theorem update_outcome (h : Run e₀ e) (hrun : e.running = true) (hdt : 0 ≤ dt)
    (hu : e.update dt = .ok e') :
    e'.currentTimeMs = e.currentTimeMs + dt ∧
    (e'.running = true ∧ e'.currentTimeMs < maxRuntimeMs ∨
      e'.running = false ∧ e'.completed = true ∧ e'.stats.endTimeMs = some e'.currentTimeMs ∧
        (e'.Settled ∨ maxRuntimeMs ≤ e'.currentTimeMs)) := by
  have hclock := (update_flights h hdt hrun hu).clock
  refine ⟨hclock, ?_⟩
  obtain ⟨e₃, hr, hrun₃, -, rfl⟩ := update_end h hrun hdt hu
  obtain ⟨heq, hlt⟩ | ⟨heq, hends⟩ := checkFinished_running hrun₃
  · rw [heq]
    exact .inl ⟨hrun₃, hlt⟩
  · rw [heq]
    refine .inr ⟨rfl, rfl, rfl, hends.imp_left fun ⟨hidle, hc⟩ => ?_⟩
    exact (settled_of_idle hr hrun₃ hidle hc).finish

/-- A finished run is settled, or it came to its longest time. -/
theorem Run.settled (h : Run e₀ e) (hend : e.running = false) :
    e.Settled ∨ maxRuntimeMs ≤ e.currentTimeMs := by
  induction h with
  | start h =>
      have hrun : Net.running _ = true := congrArg Net.running (startRun_toNet h)
      cases hend.symm.trans hrun
  | @update e e' dt hr hdt hu ih =>
      cases hrun : e.running with
      | false =>
          rw [update_idle dt hrun] at hu
          cases hu
          exact (ih hrun).imp_left fun hs => ⟨hs.idle, hs.transmitted, hs.books, hs.udp, hs.tcp⟩
      | true =>
          obtain ⟨-, ⟨hon, -⟩ | ⟨-, -, -, hout⟩⟩ := update_outcome hr hrun hdt hu
          · cases hend.symm.trans hon
          · exact hout

/-- **What a finished run has done.**  A run that ended before its longest time left no packet
behind.  In TCP mode every sequence was delivered and acknowledged; in UDP mode every sequence was
sent once, no more sequences are missing than packets were dropped, and none if none was. -/
theorem run_settled (h : Run e₀ e) (hend : e.running = false)
    (hearly : e.currentTimeMs < maxRuntimeMs) :
    e.packets = [] ∧ transmitted e.history = Finset.range e.packetGoal ∧
      e.stats.packetsSent = e.stats.packetsDropped + arrivals e.history ∧
      (e.mode = .udp → e.stats.packetsSent = e.packetGoal + e.stats.duplicatePackets ∧
        e.packetGoal ≤ e.stats.packetsDelivered + e.stats.packetsDropped ∧
        (e.stats.packetsDropped = 0 → e.deliveredSequences = Finset.range e.packetGoal)) ∧
      (e.mode = .tcp → e.deliveredSequences = Finset.range e.packetGoal ∧
        acknowledged e.history = Finset.range e.packetGoal) := by
  have hs := (h.settled hend).resolve_right (not_le.mpr hearly)
  exact ⟨(networkIdle_iff.mp hs.idle).1, hs.transmitted, hs.books, hs.udp, hs.tcp⟩

theorem run_settled_ring : ∃ e, (Steady.engine "Redundant Ring" .udp).ticks
    (List.replicate 7 300) = .ok e ∧ e.packets = [] := by
  obtain ⟨e, he, hcheck⟩ := exists_ok_and (x := (Steady.engine "Redundant Ring" .udp).ticks
    (List.replicate 7 300)) (f := fun e => !e.running && decide (e.currentTimeMs < maxRuntimeMs))
    (by decide +kernel)
  obtain ⟨hend, hearly⟩ := Bool.and_eq_true_iff.mp hcheck
  exact ⟨e, he, (run_settled (.of_ticks (by decide +kernel) he) (by simpa using hend)
    (of_decide_eq_true hearly)).1⟩

/-- **When a UDP run ends.**  An update ends it if and only if, at its end, every sequence was sent
and no packet is queued or in flight, or the run has come to its longest time. -/
theorem udp_ends_iff (hmode : e₀.mode = .udp) (h : Run e₀ e) (hrun : e.running = true)
    (hdt : 0 ≤ dt) (hu : e.update dt = .ok e') :
    e'.running = false ↔
      transmitted e'.history = Finset.range e'.packetGoal ∧ e'.packets = [] ∨
        maxRuntimeMs ≤ e'.currentTimeMs := by
  obtain ⟨-, hout⟩ := update_outcome h hrun hdt hu
  have hsent := (h.update hdt hu).sentAll hmode
  have hd := (h.update hdt hu).toNet.datagrams hmode
  have hmode' : e'.mode = .udp :=
    (congrArg Setting.mode (h.update hdt hu).setting_eq).trans hmode
  constructor
  · intro hend
    obtain ⟨hon, -⟩ | ⟨-, -, -, hs | hlong⟩ := hout
    · cases hend.symm.trans hon
    · exact .inl ⟨hs.transmitted, (networkIdle_iff.mp hs.idle).1⟩
    · exact .inr hlong
  · rintro (⟨hall, hnone⟩ | hlong)
    -- every pending event is the send of a sequence not yet sent, and there is none left
    · have hpending : e'.toNet.pending = 0 := Multiset.eq_zero_of_forall_notMem fun ev hev => by
        obtain ⟨k, hk, hc, -⟩ := hd.sends ev hev
        have hfresh : k ∉ transmitted e'.history :=
          hd.queued.fresh k (Net.mem_sends.mpr ⟨ev, hev, hc⟩)
        rw [hall, Finset.mem_range] at hfresh
        exact hfresh hk
      have hidle := networkIdle_iff.mpr ⟨hnone, hpending⟩
      obtain ⟨e₃, -, hrun₃, -, rfl⟩ := update_end h hrun hdt hu
      obtain ⟨heq, -⟩ | ⟨heq, -⟩ := checkFinished_running hrun₃
      · rw [heq] at hmode' hsent hidle
        have hends : e₃.checkFinished = e₃.finishRun := if_pos ⟨hmode', hsent, hidle⟩
        rw [hends, finishRun_running hrun₃]
      · rw [heq]
    · obtain ⟨-, hlt⟩ | ⟨hend, -⟩ := hout
      · exact absurd hlong (not_le.mpr hlt)
      · exact hend

theorem udp_ends_iff_ring : ∃ e e', (Steady.engine "Redundant Ring" .udp).ticks
    (List.replicate 6 300) = .ok e ∧ e.update 300 = .ok e' ∧ (e'.running = false ↔
      transmitted e'.history = Finset.range e'.packetGoal ∧ e'.packets = [] ∨
        maxRuntimeMs ≤ e'.currentTimeMs) := by
  obtain ⟨e, he, hcheck⟩ := exists_ok_and (x := (Steady.engine "Redundant Ring" .udp).ticks
    (List.replicate 6 300)) (f := fun e => e.running && (e.update 300).toBool) (by decide +kernel)
  obtain ⟨hrun, hupdate⟩ := Bool.and_eq_true_iff.mp hcheck
  obtain ⟨e', hu⟩ := exists_ok hupdate
  exact ⟨e, e', he, hu, udp_ends_iff (by decide +kernel) (.of_ticks (by decide +kernel) he) hrun
    (by norm_num) hu⟩

/-- An update of a finished run ages the markers, and changes nothing else. -/
theorem update_finished (hend : e.running = false) (hu : e.update dt = .ok e') :
    e' = { e with packetEvents := e'.packetEvents } := by
  rw [update_idle dt hend] at hu
  cases hu
  rfl

theorem elapsedMs_of_run (h : Run e₀ e) : e.elapsedMs = e.currentTimeMs := by
  induction h with
  | @start e h =>
      have hrun : e.running = true := congrArg Net.running (startRun_toNet h)
      simp [elapsedMs, hrun]
  | @update e e' dt hr hdt hu ih =>
      cases hrun : e.running with
      | false =>
          rw [update_idle dt hrun] at hu
          cases hu
          exact ih
      | true =>
          obtain ⟨-, ⟨hon, -⟩ | ⟨hend, -, htime, -⟩⟩ := update_outcome hr hrun hdt hu
          · simp [elapsedMs, hon]
          · obtain ⟨hstart, hclock⟩ := (hr.update hdt hu).toNet.started
            have hstart' : e'.stats.startTimeMs = some 0 := hstart
            have hclock' : 0 ≤ e'.currentTimeMs := hclock
            simp [elapsedMs, hend, RunStats.completionTimeMs, hstart', htime, hclock']

variable {states : ℕ → Engine σ} {dts : ℕ → ℚ} {n : ℕ}

theorem Updates.running_clock (h : Updates e₀ states dts n) : ∀ {i : ℕ}, i ≤ n →
    (∀ k ≤ i, (states k).running = true) →
      (states i).currentTimeMs = ∑ k ∈ Finset.range i, dts k
  | 0, _, _ => by
      have hclock : (states 0).currentTimeMs = 0 := congrArg Net.clock (startRun_toNet h.start)
      simpa using hclock
  | i + 1, hi, hrun => by
      have hi' : i < n := hi
      rw [(h.ages hi' (hrun i (Nat.le_succ i))).clock,
        h.running_clock hi'.le fun k hk => hrun k (hk.trans (Nat.le_succ i)), Finset.sum_range_succ]

/-- Once a run is over, it stays as it is. -/
theorem Updates.frozen (h : Updates e₀ states dts n) {j i : ℕ} (hji : j ≤ i) (hi : i ≤ n)
    (hend : (states j).running = false) :
    states i = { states j with packetEvents := (states i).packetEvents } := by
  induction hji with
  | refl => rfl
  | @step i _ ih =>
      have hprev := ih (by omega)
      have hover : (states i).running = false := by
        rw [hprev]
        exact hend
      rw [update_finished hover (h.update i hi)]
      conv_lhs => rw [hprev]

/-- While a run is on, its longest time has not come. -/
theorem Updates.in_time (h : Updates e₀ states dts n) {i : ℕ} (hi : i ≤ n)
    (hrun : ∀ k ≤ i, (states k).running = true) : (states i).currentTimeMs < maxRuntimeMs := by
  cases i with
  | zero =>
      rw [h.running_clock hi hrun]
      norm_num [maxRuntimeMs]
  | succ i =>
      obtain ⟨-, ⟨-, hlt⟩ | ⟨hend, -⟩⟩ := update_outcome (h.run (Nat.le_of_succ_le hi))
        (hrun i (Nat.le_succ i)) (h.forward i hi) (h.update i hi)
      · exact hlt
      · cases hend.symm.trans (hrun (i + 1) le_rfl)

/-- **The life of a run.**  If the frame times add up to the longest time, exactly one update ends
the run.  Up to it the clock is the sum of the frame times and has not come to the longest time;
after it nothing changes but the markers.  The time shown is that of the clock throughout. -/
theorem run_lifecycle (h : Updates e₀ states dts n)
    (hlong : maxRuntimeMs ≤ ∑ k ∈ Finset.range n, dts k) :
    ∃ j < n,
      (∀ i ≤ j, (states i).running = true ∧
        (states i).currentTimeMs = ∑ k ∈ Finset.range i, dts k ∧
        (states i).currentTimeMs < maxRuntimeMs) ∧
      (∀ i, j < i → i ≤ n → (states i).running = false ∧
        (states i).currentTimeMs = ∑ k ∈ Finset.range (j + 1), dts k ∧
        states i = { states (j + 1) with packetEvents := (states i).packetEvents }) ∧
      ∀ i ≤ n, (states i).elapsedMs = (states i).currentTimeMs := by
  have hends : ∃ i, i ≤ n ∧ (states i).running = false := by
    by_contra hnone
    have hrun : ∀ k ≤ n, (states k).running = true := fun k hk => by
      by_contra hk'
      exact hnone ⟨k, hk, by simpa using hk'⟩
    have hlt := h.in_time le_rfl hrun
    rw [h.running_clock le_rfl hrun] at hlt
    exact absurd hlong (not_le.mpr hlt)
  -- the first state in which the run is over is not the first of all
  obtain ⟨hfirst, hend⟩ := Nat.find_spec hends
  have hbefore : ∀ k < Nat.find hends, (states k).running = true := fun k hk => by
    by_contra hk'
    exact Nat.find_min hends hk ⟨hk.le.trans hfirst, by simpa using hk'⟩
  generalize Nat.find hends = first at hfirst hend hbefore
  cases first with
  | zero =>
      have hrun : (states 0).running = true := congrArg Net.running (startRun_toNet h.start)
      cases hend.symm.trans hrun
  | succ j =>
      have hrun : ∀ k ≤ j, (states k).running = true := fun k hk => hbefore k (Nat.lt_succ_of_le hk)
      have hclock : (states (j + 1)).currentTimeMs = ∑ k ∈ Finset.range (j + 1), dts k := by
        rw [(h.ages hfirst (hrun j le_rfl)).clock, h.running_clock (Nat.le_of_succ_le hfirst) hrun,
          Finset.sum_range_succ]
      refine ⟨j, hfirst, fun i hi => ?_, fun i hji hi => ?_,
        fun i hi => elapsedMs_of_run (h.run hi)⟩
      · have hrun' : ∀ k ≤ i, (states k).running = true := fun k hk => hrun k (hk.trans hi)
        have hin : i ≤ n := hi.trans (Nat.le_of_succ_le hfirst)
        exact ⟨hrun' i le_rfl, h.running_clock hin hrun', h.in_time hin hrun'⟩
      · have hfrozen := h.frozen hji hi hend
        refine ⟨?_, ?_, hfrozen⟩
        · rw [hfrozen]
          exact hend
        · rw [hfrozen]
          exact hclock

theorem run_lifecycle_ring : ∃ j < 3, ∀ i, j < i → i ≤ 3 →
    (stateAfter (Steady.engine "Redundant Ring" .tcp) (fun _ => 9000) i).running = false := by
  have hu : Updates (Steady.engine "Redundant Ring" .tcp)
      (stateAfter (Steady.engine "Redundant Ring" .tcp) fun _ => 9000) (fun _ => 9000) 3 :=
    updates_stateAfter (by decide +kernel) (by norm_num) (by decide +kernel)
  obtain ⟨j, hj, -, hafter, -⟩ := run_lifecycle hu (by norm_num [maxRuntimeMs])
  exact ⟨j, hj, fun i hji hi => (hafter i hji hi).1⟩

end Runs

end Engine

end PacketSim
