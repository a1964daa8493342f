import PacketSim.Engine.Ending
import PacketSim.Engine.Flights

/-!
# Engine — Liveness

A TCP run is never idle.  What the sender does next is always pending, and it is done at most a
frame late.  So each transmission accounts for a timeout of the run's time, each acknowledgement for
the pause before the next send, and both for a frame more; there is no other waiting
(`tcp_keeps_going`).  The time that a run takes is told by the number of its retransmissions.
-/

namespace PacketSim
open Lib History

namespace Net

/-- The time that the transmissions and the acknowledgements so far account for. -/
def allowance (δ : ℚ) (history : List HistoryEntry) (retransmissions : ℕ) : ℚ :=
  (acknowledged history).card * (150 + δ) +
    ((transmitted history).card + retransmissions : ℕ) * (retransmissionTimeoutMs + δ)

/-- An event comes up within the allowance, and waits for no more than a frame. -/
structure Brisk (δ : ℚ) (n : Net) : Prop where
  due : ∀ ev ∈ n.pending, ev.dueTime ≤ allowance δ n.history n.stats.retransmissions
  late : ∀ ev ∈ n.pending, n.clock ≤ ev.dueTime + δ
  accepted : ∀ k t, .acknowledged k t ∈ n.history →
    t ≤ allowance δ n.history n.stats.retransmissions

variable {n n' : Net} {δ : ℚ} {history : List HistoryEntry} {k r : ℕ} {t : ℚ}

/-! ### What is accounted for -/

theorem allowance_send (hk : k ∉ transmitted history) :
    allowance δ (.transmitted k false t :: history) r =
      allowance δ history r + (retransmissionTimeoutMs + δ) := by
  rw [allowance, allowance, acknowledged_transmitted, transmitted_transmitted,
    Finset.card_insert_of_notMem hk]
  push_cast
  ring

theorem allowance_resend (hk : k ∈ transmitted history) :
    allowance δ (.transmitted k true t :: history) (r + 1) =
      allowance δ history r + (retransmissionTimeoutMs + δ) := by
  rw [allowance, allowance, acknowledged_transmitted, transmitted_transmitted,
    Finset.insert_eq_of_mem hk]
  push_cast
  ring

theorem allowance_accept (hk : k ∉ acknowledged history) :
    allowance δ (.acknowledged k t :: history) r = allowance δ history r + (150 + δ) := by
  rw [allowance, allowance, transmitted_acknowledged, acknowledged_acknowledged,
    Finset.card_insert_of_notMem hk]
  push_cast
  ring

/-! ### One step -/

theorem brisk_start {s : Setting} (hm : s.mode = .tcp) (hδ : 0 ≤ δ) : (start s).Brisk δ where
  due ev hev := by
    change ev ∈ firstEvents s at hev
    rw [firstEvents_tcp hm, Multiset.mem_singleton] at hev
    simp [hev, start, atRest, allowance]
  late ev hev := by
    change ev ∈ firstEvents s at hev
    rw [firstEvents_tcp hm, Multiset.mem_singleton] at hev
    simpa [hev, start, atRest] using hδ
  accepted k t ht := by simp [start, atRest] at ht

/-- What accounts for nothing. -/
theorem Brisk.of_eq (h : n.Brisk δ) (hp : ∀ ev ∈ n'.pending, ev ∈ n.pending)
    (hc : n'.clock = n.clock)
    (ha : allowance δ n'.history n'.stats.retransmissions =
      allowance δ n.history n.stats.retransmissions)
    (hh : ∀ k t, .acknowledged k t ∈ n'.history → .acknowledged k t ∈ n.history) :
    n'.Brisk δ where
  due ev hev := ha ▸ h.due ev (hp ev hev)
  late ev hev := hc ▸ h.late ev (hp ev hev)
  accepted k t ht := ha ▸ h.accepted k t (hh k t ht)

/-- While anything is pending, the clock is a frame past the allowance at most. -/
theorem Brisk.clock_le (h : n.Brisk δ) (hp : n.pending ≠ 0) :
    n.clock ≤ allowance δ n.history n.stats.retransmissions + δ := by
  obtain ⟨ev, hev⟩ := Multiset.exists_mem_of_ne_zero hp
  exact (h.late ev hev).trans (add_le_add_left (h.due ev hev) δ)

/-- **What accounts for the pause it makes.**  The next event comes up after the pause, which the
allowance has grown by, and by a frame more. -/
theorem Brisk.account (h : n.Brisk δ) (hδ : 0 ≤ δ) (hp : n.pending ≠ 0) (pause : ℚ)
    (hpause : 0 ≤ pause) (hc : n'.clock = n.clock)
    (ha : allowance δ n'.history n'.stats.retransmissions =
      allowance δ n.history n.stats.retransmissions + (pause + δ))
    (hnext : ∀ ev ∈ n'.pending, ev ∈ n.pending ∨ ev.dueTime = n.clock + pause)
    (hh : ∀ k t, .acknowledged k t ∈ n'.history → .acknowledged k t ∈ n.history ∨ t = n.clock) :
    n'.Brisk δ := by
  have hclock := h.clock_le hp
  refine ⟨fun ev hev => ?_, fun ev hev => ?_, fun k t ht => ?_⟩
  · rw [ha]
    rcases hnext ev hev with hold | hnew
    · linarith [h.due ev hold]
    · rw [hnew]
      linarith
  · rw [hc]
    rcases hnext ev hev with hold | hnew
    · exact h.late ev hold
    · rw [hnew]
      linarith
  · rw [ha]
    rcases hh k t ht with hold | rfl
    · linarith [h.accepted k t hold]
    · linarith

theorem Holds.eq_of_awaiting {ph : Phase} (h : n.Holds ph) (haw : n.awaiting = some k) :
    ph = .waiting k := by
  have haw' := h.awaiting.symm.trans haw
  cases ph with
  | ready j => cases haw'
  | waiting j =>
      cases haw'
      rfl
  | ended => cases haw'

/-- Before the last phase something is pending. -/
theorem Holds.pending_ne_zero {ph : Phase} (h : n.Holds ph) (hph : ph ≠ .ended) :
    n.pending ≠ 0 := by
  have hp := h.pending
  cases ph with
  | ready k =>
      obtain ⟨ev, M, hev, -, -⟩ := hp
      rw [hev]
      exact Multiset.cons_ne_zero
  | waiting k =>
      obtain ⟨ev, M, t, hev, -⟩ := hp
      rw [hev]
      exact Multiset.cons_ne_zero
  | ended => exact absurd rfl hph

theorem Brisk.transmit (h : n.Brisk δ) (hm : n.setting.mode = .tcp) (hδ : 0 ≤ δ) {ev : Event}
    {M : Multiset Event} (hev : n.pending = ev ::ₘ M) {re : Bool}
    (hk : k ∈ transmitted n.history ↔ re = true) :
    (Net.transmit { n with pending := M } k re).Brisk δ := by
  have hp : n.pending ≠ 0 := hev ▸ Multiset.cons_ne_zero
  rw [transmit_tcp { n with pending := M } k re hm]
  refine h.account hδ hp retransmissionTimeoutMs retransmissionTimeoutMs_pos.le rfl ?_ ?_ ?_
  · cases re with
    | false => exact allowance_send (mt hk.mp Bool.false_ne_true)
    | true => exact allowance_resend (hk.mpr rfl)
  · intro ev' hev'
    rcases Multiset.mem_cons.mp hev' with rfl | hold
    · exact .inr rfl
    · exact .inl (hev ▸ Multiset.mem_cons_of_mem hold)
  · exact fun j t ht => .inl (by simpa using ht)

theorem Brisk.arrive (h : n.Brisk δ) (M : Multiset (Place × Packet)) (p : Packet) :
    (n.arrive M p).Brisk δ :=
  h.of_eq (fun _ hev => hev) rfl rfl fun _ _ ht => by simpa [Net.arrive] using ht

theorem Brisk.receive (h : n.Brisk δ) (hm : n.setting.mode = .tcp) (k : ℕ) :
    (n.receive k).Brisk δ := by
  have hresent := retransmissions_receive n k
  rw [receive_tcp n k hm] at hresent ⊢
  exact h.of_eq (fun _ hev => hev) rfl (congrArg (allowance δ n.history) hresent) fun _ _ ht => ht

theorem Brisk.accept (h : n.Brisk δ) (hδ : 0 ≤ δ) (hp : n.pending ≠ 0)
    (hk : k ∉ acknowledged n.history) : (n.accept k).Brisk δ := by
  have hnoted : ∀ j t, .acknowledged j t ∈ HistoryEntry.acknowledged k n.clock :: n.history →
      .acknowledged j t ∈ n.history ∨ t = n.clock := by
    intro j t ht
    rcases List.mem_cons.mp ht with heq | ht
    · cases heq
      exact .inr rfl
    · exact .inl ht
  by_cases hg : n.setting.packetGoal ≤ k + 1
  · rw [accept_last n k hg]
    exact h.account hδ hp 150 (by norm_num) rfl (allowance_accept hk) (fun _ hev => .inl hev)
      hnoted
  · rw [accept_next n k hg]
    refine h.account hδ hp 150 (by norm_num) rfl (allowance_accept hk) (fun ev hev => ?_) hnoted
    rcases Multiset.mem_cons.mp hev with rfl | hold
    · exact .inr rfl
    · exact .inl hold

theorem Brisk.step (h : n.Brisk δ) (hm : n.setting.mode = .tcp) {ph : Phase} (hph : n.Holds ph)
    (hδ : 0 ≤ δ) (hs : Step n n') : n'.Brisk δ := by
  cases hs with
  | ignore hev _ _ =>
      exact h.of_eq (fun _ hmem => hev ▸ Multiset.mem_cons_of_mem hmem) rfl rfl fun _ _ ht => ht
  | send hev _ hcb _ =>
      obtain ⟨rfl, -⟩ := hph.eq_ready hev hcb
      refine h.transmit hm hδ hev (iff_of_false ?_ Bool.false_ne_true)
      rw [hph.transmitted, Phase.sent, Finset.mem_range]
      exact lt_irrefl _
  | resend hev _ hcb _ _ haw _ =>
      obtain rfl := hph.eq_of_awaiting haw
      refine h.transmit hm hδ hev (iff_of_true ?_ rfl)
      rw [hph.transmitted, Phase.sent, Finset.mem_range]
      exact Nat.lt_succ_self _
  | receive _ _ => exact (h.arrive _ _).receive hm _
  | ignoreAck _ _ _ => exact h.arrive _ _
  | accept _ _ haw _ =>
      obtain rfl := hph.eq_of_awaiting haw
      refine (h.arrive _ _).accept hδ (hph.pending_ne_zero (by simp)) ?_
      show _ ∉ acknowledged n.history
      rw [hph.acknowledged, Phase.acked, Finset.mem_range]
      exact lt_irrefl _
  | _ => exact h.of_eq (fun _ hev => hev) rfl rfl fun _ _ ht => ht

theorem Brisk.steps (h : n.Brisk δ) {s : Setting} (hm : s.mode = .tcp) (hr : Run s n)
    (hrun : n.running = true) (hδ : 0 ≤ δ) (hs : Steps n n') : n'.Brisk δ := by
  induction hs with
  | refl => exact h
  | tail hbefore hs ih =>
      have hr' := hr.steps hrun hbefore
      obtain ⟨ph, hph⟩ := hr'.holds hm
      exact ih.step (hr'.setting ▸ hm) hph hδ hs

end Net

namespace Engine

variable {σ : Type}

/-- What holds between two updates. -/
structure Going (δ : ℚ) (e : Engine σ) : Prop where
  brisk : e.toNet.Brisk δ
  ahead : ∀ ev ∈ e.toNet.pending, e.currentTimeMs ≤ ev.dueTime
  goes : e.running = true → ¬ (e.completed = true ∧ e.networkIdle = true)

section Runs
variable [RandomSource σ] {e₀ e e' : Engine σ} {δ dt : ℚ}

omit [RandomSource σ] in
theorem going_start (hmode : e₀.mode = .tcp) (hδ : 0 ≤ δ) (h : e₀.startRun = .ok e) :
    e.Going δ := by
  have hnet := startRun_toNet h
  refine ⟨hnet ▸ Net.brisk_start hmode hδ, fun ev hev => ?_, fun _ hdone => ?_⟩
  · rw [hnet] at hev
    change ev ∈ Net.firstEvents e₀.setting at hev
    rw [Net.firstEvents_tcp hmode, Multiset.mem_singleton] at hev
    rw [hev, show e.currentTimeMs = 0 from congrArg Net.clock hnet]
  · have hcompleted : e.completed = false := congrArg Net.completed hnet
    rw [hcompleted] at hdone
    cases hdone.1

/-- The engine at the end of an update, before `update` asks whether the run is over. -/
theorem update_ahead (hrun : e.running = true) (hu : e.update dt = .ok e') : ∃ e₃ : Engine σ,
    Net.Steps (e.toNet.tick dt) e₃.toNet ∧ e₃.toNet.Ahead ∧ e₃.checkFinished = e' := by
  obtain ⟨e₁, e₂, e₃, h₁, h₂, h₃, hend⟩ := (update_eq_ok hrun).mp hu
  have ha : e₁.toNet.Ahead := fun ev hev => runDueEvents_done h₁ ev (Multiset.mem_coe.mp hev)
  exact ⟨e₃, stages_steps h₁ h₂ h₃,
    ha.steps ((dispatchRouters_steps h₂).trans (advanceInFlightPackets_steps h₃)), hend⟩

theorem Going.update (h : e.Going δ) (hmode : e₀.mode = .tcp) (hr : Run e₀ e) (hδ : 0 ≤ δ)
    (hdt : 0 ≤ dt) (hle : dt ≤ δ) (hu : e.update dt = .ok e') : e'.Going δ := by
  cases hrun : e.running with
  | false =>
      rw [update_idle _ hrun] at hu
      obtain rfl := Except.ok.inj hu
      exact ⟨h.brisk, h.ahead, h.goes⟩
  | true =>
      obtain ⟨e₃, hs, ha, rfl⟩ := update_ahead hrun hu
      have htick : (e.toNet.tick dt).Brisk δ :=
        ⟨h.brisk.due, fun ev hev => add_le_add (h.ahead ev hev) hle, h.brisk.accepted⟩
      have hticked := hr.toNet.tick hrun hdt
      have hbrisk := htick.steps hmode hticked hrun hδ hs
      have hset : e₃.setting = e₀.setting := (hticked.steps hrun hs).setting
      have hmode₃ : e₃.mode = .tcp := (congrArg Setting.mode hset).trans hmode
      have hrun₃ : e₃.running = true := hs.frame.2.2.trans hrun
      rw [checkFinished_tcp hmode₃]
      split_ifs with hend
      · -- what is marked finished shows in none of this
        rw [finishRun_running hrun₃]
        exact ⟨⟨hbrisk.due, hbrisk.late, hbrisk.accepted⟩, fun ev hev => (ha ev hev).le, nofun⟩
      · exact ⟨hbrisk, fun ev hev => (ha ev hev).le, fun _ hdone => hend (.inl hdone)⟩

/-- **A TCP run is never idle.**  With frames of at most `δ`: until the last sequence is
acknowledged, and until the run ends while no packet is under way, its time is no more than what the
acknowledgements and the transmissions so far account for, 150 ms each of the former, a timeout each
of the latter, and a frame each of both.  No acknowledgement comes later than that. -/
theorem tcp_keeps_going {states : ℕ → Engine σ} {dts : ℕ → ℚ} {n i : ℕ} (hmode : e₀.mode = .tcp)
    (hgoal : 1 ≤ e₀.packetGoal) (h : Updates e₀ states dts n) (hδ : 0 ≤ δ)
    (hframes : ∀ k < n, dts k ≤ δ) (hi : i ≤ n) :
    let e := states i
    let allowed := (acknowledged e.history).card * (150 + δ) +
      ((transmitted e.history).card + e.stats.retransmissions : ℕ) * (retransmissionTimeoutMs + δ)
    (e.packetGoal - 1 ∉ acknowledged e.history → e.currentTimeMs ≤ allowed) ∧
      (e.running = true → e.packets = [] → e.currentTimeMs ≤ allowed) ∧
      ∀ k t, .acknowledged k t ∈ e.history → t ≤ allowed := by
  have hgoing : (states i).Going δ := by
    induction i with
    | zero => exact going_start hmode hδ h.start
    | succ i ih =>
        have hlt : i < n := hi
        exact (ih hlt.le).update hmode (h.run hlt.le) hδ (h.forward i hlt) (hframes i hlt)
          (h.update i hlt)
  intro e allowed
  have hr := h.run hi
  obtain ⟨ph, hph⟩ := hr.toNet.holds hmode
  have hin : e.toNet.pending ≠ 0 → e.currentTimeMs ≤ allowed := fun hp => by
    obtain ⟨ev, hev⟩ := Multiset.exists_mem_of_ne_zero hp
    exact (hgoing.ahead ev hev).trans (hgoing.brisk.due ev hev)
  have hpos : 1 ≤ e.packetGoal := hr.packetGoal_eq.symm ▸ hgoal
  have hlast : e.packetGoal - 1 ∈ acknowledged e.history ↔ ph = .ended :=
    hph.last_acknowledged hpos
  refine ⟨fun hmissing => hin (hph.pending_ne_zero (mt hlast.mpr hmissing)), fun hrun hnone =>
    hin fun hp => ?_, hgoing.brisk.accepted⟩
  -- with nothing pending either, the run would have ended
  have hidle : e.networkIdle = true := networkIdle_iff.mpr ⟨hnone, hp⟩
  have hended : ph = .ended := not_not.mp fun hne => hph.pending_ne_zero hne hp
  exact hgoing.goes hrun ⟨(hph.completed hrun).mpr ⟨hended, hpos⟩, hidle⟩

end Runs

/-- After 2400 ms on the ring. -/
theorem tcp_keeps_going_ring :
    let e := stateAfter (Steady.engine "Redundant Ring" .tcp) (fun _ => 200) 12
    e.packetGoal - 1 ∉ acknowledged e.history ∧
      e.currentTimeMs ≤ (acknowledged e.history).card * (150 + 200) +
        ((transmitted e.history).card + e.stats.retransmissions : ℕ) *
          (retransmissionTimeoutMs + 200) := by
  have hu : Updates (Steady.engine "Redundant Ring" .tcp)
      (stateAfter (Steady.engine "Redundant Ring" .tcp) fun _ => 200) (fun _ => 200) 12 :=
    updates_stateAfter (by decide +kernel) (by norm_num) (by decide +kernel)
  dsimp only
  refine ⟨by decide +kernel, ?_⟩
  exact (tcp_keeps_going (by decide +kernel) (by decide +kernel) hu (by norm_num)
    (fun _ _ => le_rfl) le_rfl).1 (by decide +kernel)

end Engine

end PacketSim
