import PacketSim.Engine.Timing
import PacketSim.Engine.Totality

/-!
# Engine — Timeouts

The other half of `Engine/Timing.lean`: where the round trip is not in time, some run retransmits.
The jitter is drawn at its upper end (`Late`).  Every flight is brought just short of its end, and
then a whole frame further; the packet is put on the next link by a frame of length 0.  So every
link costs its longest delay and all but a little of a frame, and the clock comes to the timeout
before the acknowledgement is back (`slow_run_retransmits`).

* `never_resends_iff`: the presets, multipliers and frames with which no run without losses
  retransmits.
-/

namespace PacketSim
open Lib History

namespace Net

/-- Retransmissions are not uncounted. -/
theorem Step.retransmissions_le {n n' : Net} (h : Step n n') :
    n.stats.retransmissions ≤ n'.stats.retransmissions := by
  cases h with
  | send _ _ _ _ => simp
  | resend _ _ _ _ _ _ _ => simp
  | receive _ _ => exact (retransmissions_receive (n.arrive _ _) _).ge
  | accept _ _ _ _ => exact (retransmissions_accept (n.arrive _ _) _).ge
  | _ => exact le_rfl

theorem Steps.retransmissions_le {n n' : Net} (h : Steps n n') :
    n.stats.retransmissions ≤ n'.stats.retransmissions := by
  induction h with
  | refl => exact le_rfl
  | tail _ hs ih => exact ih.trans hs.retransmissions_le

theorem Run.placed {s : Setting} {n : Net} (hs : s.Sound) (h : Run s n) : n.Placed := by
  induction h with
  | start => exact placed_start hs
  | tick _ _ _ ih => exact ih.tick _
  | step _ _ hs ih => exact ih.step hs
  | finish _ _ ih => exact ih.finish

/-- While an acknowledgement is awaited, its timer is pending. -/
theorem Holds.timer {n : Net} {ph : Phase} {k : ℕ} {t : ℚ} (h : n.Holds ph)
    (haw : n.awaiting = some k) (ht : lastTransmission k n.history = some t) :
    ph = .waiting k ∧ ∃ ev ∈ n.pending, ev.dueTime = t + retransmissionTimeoutMs := by
  have haw' := h.awaiting.symm.trans haw
  cases ph with
  | ready j => cases haw'
  | ended => cases haw'
  | waiting j =>
      cases haw'
      obtain ⟨ev, M, t', hev, -, hl, hdue, -⟩ := h.pending
      cases hl.symm.trans ht
      exact ⟨rfl, ev, hev ▸ Multiset.mem_cons_self _ _, hdue⟩

end Net

namespace Engine

variable {σ : Type}

/-! ### The first round trip -/

/-- The first round trip is under way. -/
structure Bounds.First (B : Bounds) : Prop where
  resting : ¬ B.resting
  inQueue : ∀ sent finish, B.inQueue sent finish → sent = 0
  onLink : ∀ sent mark rest, B.onLink sent mark rest → sent = 0

/-- On a link until `mark`. -/
def Bounds.gliding (mark rest : ℚ) : Bounds where
  resting := False
  inQueue _ _ := False
  onLink sent mark' rest' := sent = 0 ∧ mark' = mark ∧ rest' = rest

/-- In a queue, to be back by `finish`. -/
def Bounds.queued (finish : ℚ) : Bounds where
  resting := False
  inQueue sent finish' := sent = 0 ∧ finish' = finish
  onLink _ _ _ := False

/-- On a link since `now`, to be back too late. -/
def Bounds.slow (now δ : ℚ) : Bounds where
  resting := False
  inQueue _ _ := False
  onLink sent mark rest := sent = 0 ∧ now + processingDelayMs ≤ mark ∧
    retransmissionTimeoutMs < mark + δ + rest

theorem Bounds.first_gliding (mark rest : ℚ) : (gliding mark rest).First :=
  ⟨id, fun _ _ => False.elim, fun _ _ _ h => h.1⟩

theorem Bounds.first_queued (finish : ℚ) : (queued finish).First :=
  ⟨id, fun _ _ h => h.1, fun _ _ _ => False.elim⟩

theorem Bounds.first_slow (now δ : ℚ) : (slow now δ).First :=
  ⟨id, fun _ _ => False.elim, fun _ _ _ h => h.1⟩

theorem Track.awaits {e : Engine σ} {B : Bounds} {δ now : ℚ} {back : List Int}
    (h : e.Track B δ now back) (hB : B.First) :
    ∃ k, e.awaitingAck = some k ∧ lastTransmission k e.history = some 0 := by
  cases h with
  | rest _ _ _ hrest => exact absurd hrest hB.resting
  | queue haw ht _ _ _ _ htime => exact ⟨_, haw, hB.inQueue _ _ htime ▸ ht⟩
  | flight haw ht _ _ _ _ _ _ _ _ _ htime => exact ⟨_, haw, hB.onLink _ _ _ htime ▸ ht⟩

/-- The first frame of a run sends sequence 0. -/
theorem first_send {e₀ e e₁ : Engine σ} (hm : e₀.mode = .tcp) (hgoal : 0 < e₀.packetGoal)
    (hstart : e₀.startRun = .ok e)
    (h₁ : runDueEvents e.events.items.length (e.ticked 0) = .ok e₁) : e₁.awaitingAck = some 0 := by
  have hnet := startRun_toNet hstart
  have hfirst := Net.firstEvents_tcp (s := e₀.setting) hm
  have hclock : e.currentTimeMs = 0 := congrArg Net.clock hnet
  have hrun : e.running = true := congrArg Net.running hnet
  have hstarted : Net.Run e₀.setting (e.ticked 0).toNet :=
    (hnet ▸ Net.Run.start : Net.Run e₀.setting e.toNet).tick hrun le_rfl
  have hclock₀ : (e.ticked 0).currentTimeMs = 0 := by
    rw [ticked, hclock, Clock.after_exact, add_zero]
  have hevents : Net.Run e₀.setting e₁.toNet ∧
      (e₁.awaitingAck = some 0 ∧ lastTransmission 0 e₁.history = some 0 ∨
        e₁.toNet.pending = {⟨0, 1, .sendData 0⟩}) := by
    refine runDueEvents_run (P := fun x : Engine σ =>
      x.awaitingAck = some 0 ∧ lastTransmission 0 x.history = some 0 ∨
        x.toNet.pending = {⟨0, 1, .sendData 0⟩})
      (fun x x' ev events hxr hxc hpop hdue hcall hx => .inl ?_) h₁ hstarted hrun
      (.inr ((congrArg Net.pending hnet).trans hfirst))
    · have hev := pending_pop hpop
      rw [hclock₀] at hxc
      obtain ⟨ph, hph⟩ := hxr.holds hm
      rcases hx with ⟨haw, ht⟩ | hpending
      · rcases runCallback_cases hcall with ⟨-, rfl⟩ | ⟨j, hcb, -, -⟩ | ⟨j, hcb, -, -, haw', -, -⟩
        · exact ⟨haw, ht⟩
        · obtain ⟨rfl, -⟩ := hph.eq_ready hev hcb
          cases (show x.awaitingAck = none from hph.awaiting).symm.trans haw
        · cases haw.symm.trans haw'
          obtain ⟨-, -, t', ht', hdue'⟩ := hph.eq_waiting hev hcb haw
          cases ht'.symm.trans ht
          have := retransmissionTimeoutMs_pos
          linarith
      · obtain rfl : ev = ⟨0, 1, .sendData 0⟩ := by
          have : ev ∈ x.toNet.pending := hev ▸ Multiset.mem_cons_self _ _
          rw [hpending, Multiset.mem_singleton] at this
          exact this
        have hset : x.setting = e₀.setting := hxr.setting
        rcases runCallback_cases hcall with ⟨hi, -⟩ | ⟨j, hcb, -, hn⟩ | ⟨j, hcb, -⟩
        · have : x.setting.packetGoal ≤ 0 := hi
          rw [hset] at this
          exact absurd hgoal (not_lt.mpr this)
        · cases hcb
          have hmode : (toNet { x with events }).setting.mode = .tcp :=
            (congrArg Setting.mode hset).trans hm
          rw [Net.transmit_tcp _ _ _ hmode] at hn
          refine ⟨congrArg Net.awaiting hn, ?_⟩
          have hhist : x'.history = .transmitted 0 false x.currentTimeMs :: x.history :=
            congrArg Net.history hn
          rw [hhist, lastTransmission_transmitted, hxc]
        · cases hcb
  obtain ⟨-, ⟨haw, -⟩ | hpending⟩ := hevents
  · exact haw
  · have hmem : (⟨0, 1, .sendData 0⟩ : Event) ∈ e₁.events.items := by
      have : (⟨0, 1, .sendData 0⟩ : Event) ∈ e₁.toNet.pending := by simp [hpending]
      exact Multiset.mem_coe.mp this
    have hclock₁ : e₁.currentTimeMs = 0 := (runDueEvents_steps h₁).frame.2.1.trans hclock₀
    have := runDueEvents_done h₁ _ hmem
    rw [hclock₁] at this
    exact absurd this (lt_irrefl _)

/-- A run does not finish in its first second while an acknowledgement is awaited. -/
theorem checkFinished_waiting {e : Engine σ} {s : Setting} {k : ℕ} {t : ℚ} (hm : s.mode = .tcp)
    (hr : Net.Run s e.toNet) (hrun : e.running = true) (haw : e.awaitingAck = some k)
    (ht : lastTransmission k e.history = some t)
    (hclock : e.currentTimeMs < retransmissionTimeoutMs) :
    e.checkFinished = e := by
  obtain ⟨ph, hph⟩ := hr.holds hm
  obtain ⟨rfl, -⟩ := hph.timer haw ht
  have hcompleted : e.completed = false := by
    by_contra hcomp
    have hcomp' : e.completed = true := by simpa using hcomp
    cases ((hph.completed hrun).mp hcomp').1
  have hmode : e.mode = .tcp := (congrArg Setting.mode hr.setting).trans hm
  have htime : e.currentTimeMs < maxRuntimeMs :=
    hclock.trans (by norm_num [retransmissionTimeoutMs, maxRuntimeMs])
  unfold Engine.checkFinished
  rw [if_neg (by simp [hmode]), if_neg (by simp [hcompleted]), if_neg (not_le.mpr htime)]

section Draws
variable [RandomSource σ] {s : Setting} {e e' : Engine σ} {k : ℕ} {t dt : ℚ}

/-- An update at which the timer is due retransmits. -/
theorem update_resends (hm : s.mode = .tcp) (hr : Net.Run s e.toNet) (hrun : e.running = true)
    (hdt : 0 ≤ dt) (haw : e.awaitingAck = some k) (ht : lastTransmission k e.history = some t)
    (hdue : t + retransmissionTimeoutMs ≤ e.currentTimeMs + dt) (h : e.update dt = .ok e') :
    1 ≤ e'.stats.retransmissions := by
  obtain ⟨e₁, e₂, e₃, h₁, h₂, h₃, rfl⟩ := (update_eq_ok hrun).mp h
  have hevents : Net.Run s e₁.toNet ∧ (1 ≤ e₁.stats.retransmissions ∨
      e₁.awaitingAck = some k ∧ lastTransmission k e₁.history = some t) := by
    refine runDueEvents_run (P := fun x : Engine σ => 1 ≤ x.stats.retransmissions ∨
        x.awaitingAck = some k ∧ lastTransmission k x.history = some t)
      (fun x x' ev events hxr _ hpop hevdue hcall hx => ?_) h₁ (hr.tick hrun hdt) hrun
      (.inr ⟨haw, ht⟩)
    rcases hx with hx | ⟨hxaw, hxt⟩
    · exact .inl (hx.trans (callback_step hpop hevdue hcall).retransmissions_le)
    · have hev := pending_pop hpop
      obtain ⟨ph, hph⟩ := hxr.holds hm
      rcases runCallback_cases hcall with ⟨-, rfl⟩ | ⟨j, hcb, -, -⟩ | ⟨j, -, -, -, -, -, hn⟩
      · exact .inr ⟨hxaw, hxt⟩
      · obtain ⟨rfl, -⟩ := hph.eq_ready hev hcb
        cases (show x.awaitingAck = none from hph.awaiting).symm.trans hxaw
      · have hre : x'.stats.retransmissions = x.stats.retransmissions + 1 := by
          have := congrArg (fun n : Net => n.stats.retransmissions) hn
          rw [Net.stats_transmit] at this
          exact this
        exact .inl (by omega)
  have hclock₁ : e₁.currentTimeMs = e.currentTimeMs + dt :=
    (runDueEvents_steps (e := e.ticked dt) h₁).frame.2.1
  obtain ⟨hr₁, hre | ⟨haw₁, ht₁⟩⟩ := hevents
  · have hle := Net.Steps.retransmissions_le
      ((dispatchRouters_steps h₂).trans (advanceInFlightPackets_steps h₃))
    have hfinish : e₃.checkFinished.stats.retransmissions = e₃.stats.retransmissions := by
      unfold Engine.checkFinished finishRun
      split_ifs <;> rfl
    rw [hfinish]
    exact hre.trans hle
  · obtain ⟨ph, hph⟩ := hr₁.holds hm
    obtain ⟨-, ev, hev, hdue'⟩ := hph.timer haw₁ ht₁
    have := runDueEvents_done h₁ ev (Multiset.mem_coe.mp hev)
    linarith

section Slow
variable {e₀ : Engine σ} {δ : ℚ} {there back : List Int} {B B' : Bounds}

/-- If no run retransmits, the first round trip can be taken a frame further. -/
theorem slow_step (hc : e₀.setting.Calm there back) (hsound : e₀.setting.Sound)
    (hall : ∀ e, RunWithin e₀ δ e → e.stats.retransmissions = 0) (he : RunWithin e₀ δ e)
    (hrun : e.running = true) (h : e.OnTime B δ back) (hB : B.First) (hB' : B'.First)
    (hdt : 0 ≤ dt) (hδ : dt ≤ δ)
    (hleads : e.currentTimeMs + dt < retransmissionTimeoutMs →
      B.Leads σ B' e₀.conditions.delayMultiplier δ
        (routeTime e₀.conditions.delayMultiplier δ there +
          routeTime e₀.conditions.delayMultiplier δ back) e.currentTimeMs (e.currentTimeMs + dt)) :
    ∃ e', RunWithin e₀ δ e' ∧ e'.running = true ∧ e'.OnTime B' δ back ∧
      e'.currentTimeMs = e.currentTimeMs + dt ∧ e.currentTimeMs + dt < retransmissionTimeoutMs := by
  have hr := he.run.toNet
  obtain ⟨k, haw, ht⟩ := h.track.awaits hB
  obtain ⟨e', he', -⟩ := update_total_exact (hr.placed hsound) dt
  have hclock : e.currentTimeMs + dt < retransmissionTimeoutMs := by
    by_contra hle
    have := update_resends hc.tcp hr hrun hdt haw ht (by linarith) he'
    have := hall e' (he.update hdt hδ he')
    omega
  obtain ⟨e₁, e₂, e₃, h₁, h₂, h₃, rfl⟩ := (update_eq_ok hrun).mp he'
  have hearly : e.Early (e.currentTimeMs + dt) := by
    intro j sent hj hsent
    cases hj.symm.trans haw
    cases hsent.symm.trans ht
    linarith
  have h' := h.stages hc hr hrun hdt hearly (hleads hclock) h₁ h₂ h₃
  have hs₃ := stages_steps h₁ h₂ h₃
  have hframe := Net.Steps.frame hs₃
  have hclock₃ : e₃.currentTimeMs = e.currentTimeMs + dt := hframe.2.1
  have hrun₃ : e₃.running = true := hframe.2.2.trans hrun
  obtain ⟨k', haw', ht'⟩ := h'.track.awaits hB'
  rw [checkFinished_waiting hc.tcp ((hr.tick hrun hdt).steps hrun hs₃) hrun₃ haw' ht'
    (hclock₃ ▸ hclock)] at he'
  exact ⟨e₃, he.update hdt hδ he', hrun₃, h', hclock₃, hclock⟩

/-- A flight can be brought as near to its end as one likes. -/
theorem slow_glide (hc : e₀.setting.Calm there back) (hsound : e₀.setting.Sound)
    (hall : ∀ e, RunWithin e₀ δ e → e.stats.retransmissions = 0) (hδ : 0 < δ) {mark rest : ℚ} :
    ∀ (n : ℕ) {x : ℚ} {e : Engine σ}, RunWithin e₀ δ e → e.running = true →
      e.OnTime (.gliding mark rest) δ back → 0 ≤ x → x ≤ n * δ → e.currentTimeMs + x < mark →
        ∃ e', RunWithin e₀ δ e' ∧ e'.running = true ∧ e'.OnTime (.gliding mark rest) δ back ∧
          e'.currentTimeMs = e.currentTimeMs + x := by
  intro n
  induction n with
  | zero =>
      intro x e he hrun h hx hxn _
      have : x = 0 := by
        rw [Nat.cast_zero, zero_mul] at hxn
        exact le_antisymm hxn hx
      exact ⟨e, he, hrun, h, by rw [this, add_zero]⟩
  | succ n ih =>
      intro x e he hrun h hx hxn hmark
      have hleads : (Bounds.gliding mark rest).Leads σ (.gliding mark rest)
          e₀.conditions.delayMultiplier δ (routeTime e₀.conditions.delayMultiplier δ there +
            routeTime e₀.conditions.delayMultiplier δ back) e.currentTimeMs
          (e.currentTimeMs + min x δ) := by
        have hshort : e.currentTimeMs + min x δ < mark :=
          lt_of_le_of_lt (by linarith [min_le_left x δ]) hmark
        refine ⟨False.elim, fun _ _ _ _ _ => False.elim, fun _ _ _ h _ => h, ?_, ?_, False.elim⟩
        · rintro sent mark' rest' ⟨-, rfl, -⟩ - hle
          linarith
        · rintro sent mark' ⟨-, rfl, -⟩ - hle
          linarith
      obtain ⟨e₁, he₁, hrun₁, h₁, hclock₁, -⟩ := slow_step hc hsound hall he hrun h
        (Bounds.first_gliding _ _) (Bounds.first_gliding _ _) (le_min hx hδ.le) (min_le_right _ _)
        fun _ => hleads
      rcases le_total x δ with hxδ | hδx
      · rw [min_eq_left hxδ] at hclock₁
        exact ⟨e₁, he₁, hrun₁, h₁, hclock₁⟩
      · rw [min_eq_right hδx] at hclock₁
        rw [Nat.cast_succ] at hxn
        obtain ⟨e', he', hrun', h', hclock'⟩ := ih (x := x - δ) he₁ hrun₁ h₁ (by linarith)
          (by linarith) (by rw [hclock₁]; linarith)
        exact ⟨e', he', hrun', h', by rw [hclock', hclock₁]; ring⟩

/-- The jitter is drawn at its upper end. -/
def DrawsLate (σ : Type) [RandomSource σ] : Prop :=
  ∀ (a b : ℚ) (g : σ), a ≤ b → (RandomSource.uniform a b g).1 = b

/-- From one link to the next, with the round trip still too slow. -/
theorem slow_stage (hc : e₀.setting.Calm there back) (hsound : e₀.setting.Sound)
    (hall : ∀ e, RunWithin e₀ δ e → e.stats.retransmissions = 0) (hδ : 0 < δ) (hlate : DrawsLate σ)
    (he : RunWithin e₀ δ e) (hrun : e.running = true)
    (h : e.OnTime (.slow e.currentTimeMs δ) δ back) :
    ∃ e', RunWithin e₀ δ e' ∧ e'.running = true ∧ e'.OnTime (.slow e'.currentTimeMs δ) δ back ∧
      e.currentTimeMs + 22 ≤ e'.currentTimeMs := by
  have hm := hc.multiplier
  have hbusy : processingDelayMs = 45 := rfl
  -- how much of the last frame is given up
  obtain ⟨mark, rest, hmark, htooLate, hgliding⟩ : ∃ mark rest,
      e.currentTimeMs + processingDelayMs ≤ mark ∧ retransmissionTimeoutMs < mark + δ + rest ∧
        e.OnTime (.gliding mark rest) δ back := by
    obtain ⟨ht, hgates, hre⟩ := h
    cases ht with
    | rest _ _ _ hrest => exact hrest.elim
    | queue _ _ _ _ _ _ htime => exact htime.elim
    | flight haw ht hheld hflights hp hroute hkept hne hleft hpos hothers htime =>
        exact ⟨_, _, htime.2.1, htime.2.2, .flight haw ht hheld hflights hp hroute hkept hne hleft
          hpos hothers ⟨htime.1, rfl, rfl⟩, hgates, hre⟩
  obtain ⟨ε, hε, hεδ, hε22, hslack⟩ : ∃ ε : ℚ, 0 < ε ∧ ε ≤ δ ∧ ε ≤ 22 ∧
      retransmissionTimeoutMs < mark - ε + δ + rest := by
    refine ⟨min δ (min 22 ((mark + δ + rest - retransmissionTimeoutMs) / 2)), ?_, min_le_left _ _,
      (min_le_right _ _).trans (min_le_left _ _), ?_⟩
    · exact lt_min hδ (lt_min (by norm_num) (by linarith))
    · have := (min_le_right δ (min 22 ((mark + δ + rest - retransmissionTimeoutMs) / 2))).trans
        (min_le_right _ _)
      linarith
  -- just short of the end of the link
  obtain ⟨n, hn⟩ := exists_nat_ge ((mark - ε - e.currentTimeMs) / δ)
  obtain ⟨e₁, he₁, hrun₁, h₁, hclock₁⟩ := slow_glide hc hsound hall hδ n
    (x := mark - ε - e.currentTimeMs)
    he hrun hgliding (by linarith) ((div_le_iff₀ hδ).mp hn) (by linarith)
  -- a whole frame
  obtain ⟨e₂, he₂, hrun₂, h₂, hclock₂, -⟩ := slow_step hc hsound hall he₁ hrun₁ h₁
    (Bounds.first_gliding _ _) (Bounds.first_queued (mark - ε + δ + rest)) hδ.le le_rfl
    fun hearly => by
      refine ⟨False.elim, fun _ _ _ _ _ => False.elim, ?_, ?_, ?_, False.elim⟩
      · rintro sent mark' rest' ⟨-, rfl, -⟩ hlt
        linarith
      · rintro sent mark' rest' ⟨rfl, rfl, rfl⟩ - -
        exact ⟨rfl, by rw [hclock₁]; ring⟩
      · -- the last link: the timer would have been due
        rintro sent mark' ⟨-, rfl, rfl⟩ - -
        linarith
  -- onto the next link
  have hqueued : e₂.OnTime { Bounds.queued (mark - ε + δ + rest) with
      onLink := (Bounds.slow e₂.currentTimeMs δ).onLink } δ back := by
    obtain ⟨ht, hgates, hre⟩ := h₂
    refine ⟨?_, hgates, hre⟩
    cases ht with
    | rest _ _ _ hrest => exact hrest.elim
    | queue haw ht hheld hp hroute hfree htime => exact .queue haw ht hheld hp hroute hfree htime
    | flight _ _ _ _ _ _ _ _ _ _ _ htime => exact htime.elim
  have hleads : Bounds.Leads σ { Bounds.queued (mark - ε + δ + rest) with
      onLink := (Bounds.slow e₂.currentTimeMs δ).onLink } (.slow e₂.currentTimeMs δ)
      e₀.conditions.delayMultiplier δ (routeTime e₀.conditions.delayMultiplier δ there +
        routeTime e₀.conditions.delayMultiplier δ back)
      e₂.currentTimeMs (e₂.currentTimeMs + 0) := by
    refine ⟨False.elim, ?_, fun _ _ _ h _ => h, ?_, ?_, False.elim⟩
    · rintro sent d rest' g hlong ⟨rfl, hfinish⟩
      have hjitter : 0 ≤ 80 * e₀.conditions.delayMultiplier :=
        mul_nonneg (by norm_num) hm
      rw [hlate _ _ _ hjitter]
      exact ⟨rfl, by linarith, by linarith⟩
    · rintro sent mark' rest' - hlt hle
      linarith
    · rintro sent mark' - hlt hle
      linarith
  obtain ⟨e₃, he₃, hrun₃, h₃, hclock₃, -⟩ := slow_step hc hsound hall he₂ hrun₂ hqueued
    ⟨id, fun _ _ h => h.1, fun _ _ _ h => h.1⟩ (Bounds.first_slow _ _) le_rfl hδ.le fun _ => hleads
  rw [add_zero] at hclock₃
  exact ⟨e₃, he₃, hrun₃, hclock₃.symm ▸ h₃, by rw [hclock₃, hclock₂, hclock₁]; linarith⟩

theorem slow_start (hc : e₀.setting.Calm there back) (hsound : e₀.setting.Sound)
    (hgoal : 0 < e₀.packetGoal) (hδ : 0 < δ) (hlate : DrawsLate σ)
    (htrip : retransmissionTimeoutMs < routeTime e₀.conditions.delayMultiplier δ there +
      routeTime e₀.conditions.delayMultiplier δ back) :
    ∃ e, RunWithin e₀ δ e ∧ e.running = true ∧ e.OnTime (.slow e.currentTimeMs δ) δ back := by
  obtain ⟨e, hstart, -⟩ := startRun_total hsound
  have hnet := startRun_toNet hstart
  have hclock : e.currentTimeMs = 0 := congrArg Net.clock hnet
  have hrun : e.running = true := congrArg Net.running hnet
  have hr : Net.Run e₀.setting e.toNet := hnet ▸ .start
  have he : RunWithin e₀ δ e := .start hstart
  obtain ⟨e', he', -⟩ := update_total_exact (hr.placed hsound) 0
  obtain ⟨e₁, e₂, e₃, h₁, h₂, h₃, rfl⟩ := (update_eq_ok hrun).mp he'
  -- the send of sequence 0
  have hstarted : e.OnTime { Bounds.slow 0 δ with
      resting := True
      inQueue := (Bounds.queued (routeTime e₀.conditions.delayMultiplier δ there +
        routeTime e₀.conditions.delayMultiplier δ back)).inQueue } δ back :=
    startRun_onTime hc.tcp trivial hstart
  have hearly : e.Early (e.currentTimeMs + 0) := fun k _ hk _ => by
    cases (show e.awaitingAck = none from congrArg Net.awaiting hnet).symm.trans hk
  obtain ⟨htrack₁, hre₁⟩ := hstarted.events hc hr hrun le_rfl hearly
    (fun _ => by rw [hclock]; exact ⟨by ring, zero_add _⟩) h₁
  have hsent := first_send hc.tcp hgoal hstart h₁
  have hsending : e₁.Track { Bounds.slow 0 δ with
      inQueue := (Bounds.queued (routeTime e₀.conditions.delayMultiplier δ there +
        routeTime e₀.conditions.delayMultiplier δ back)).inQueue } δ e.currentTimeMs back := by
    cases htrack₁ with
    | rest hnone _ _ _ => cases hnone.symm.trans hsent
    | queue haw ht hheld hp hroute hfree htime => exact .queue haw ht hheld hp hroute hfree htime
    | flight haw ht hheld hflights hp hroute hkept hne hleft hpos hothers htime =>
        exact .flight haw ht hheld hflights hp hroute hkept hne hleft hpos hothers htime
  -- the launch
  have hframe₁ := (runDueEvents_steps h₁).frame
  have hset₁ : e₁.setting = e₀.setting := hframe₁.1.trans hr.setting
  have hcond₁ : e₁.conditions = e₀.conditions := congrArg Setting.conditions hset₁
  have hclock₁ : e₁.currentTimeMs = e.currentTimeMs + 0 := hframe₁.2.1
  have hm : 0 ≤ e₀.conditions.delayMultiplier := hc.multiplier
  have hB : Bounds.Leads σ { Bounds.slow 0 δ with
      inQueue := (Bounds.queued (routeTime e₀.conditions.delayMultiplier δ there +
        routeTime e₀.conditions.delayMultiplier δ back)).inQueue } (.slow 0 δ)
      e₀.conditions.delayMultiplier δ (routeTime e₀.conditions.delayMultiplier δ there +
        routeTime e₀.conditions.delayMultiplier δ back) e.currentTimeMs (e.currentTimeMs + 0) := by
    refine ⟨False.elim, ?_, fun _ _ _ h _ => h, ?_, ?_, False.elim⟩
    · rintro sent d rest' g hlong ⟨rfl, hfinish⟩
      have hjitter : 0 ≤ 80 * e₀.conditions.delayMultiplier := mul_nonneg (by norm_num) hm
      rw [hlate _ _ _ hjitter]
      rw [hclock] at hfinish ⊢
      exact ⟨rfl, by linarith, by linarith⟩
    · rintro sent mark' rest' - hlt hle
      linarith
    · rintro sent mark' - hlt hle
      linarith
  have h' : e₃.OnTime (.slow 0 δ) δ back := by
    refine hsending.settle (hset₁ ▸ hc) hclock₁ le_rfl (fun v => ?_) (hcond₁ ▸ hB) hre₁ h₂ h₃
    exact (hstarted.gates v).of_gates (runDueEvents_untouched h₁).gates
  have hs₃ := stages_steps h₁ h₂ h₃
  have hframe := Net.Steps.frame hs₃
  have hclock₃ : e₃.currentTimeMs = e.currentTimeMs + 0 := hframe.2.1
  rw [hclock, add_zero] at hclock₃
  have hrun₃ : e₃.running = true := hframe.2.2.trans hrun
  obtain ⟨k, haw, ht⟩ := h'.track.awaits (Bounds.first_slow _ _)
  rw [checkFinished_waiting hc.tcp ((hr.tick hrun le_rfl).steps hrun hs₃) hrun₃ haw ht
    (by rw [hclock₃]; norm_num [retransmissionTimeoutMs])] at he'
  exact ⟨e₃, he.update le_rfl hδ.le he', hrun₃, hclock₃.symm ▸ h'⟩

/-- **A slow round trip.**  If the round trip can take longer than the timeout, with frames of at
most `δ`, then some run with such frames retransmits. -/
theorem slow_run_retransmits (hc : e₀.setting.Calm there back) (hsound : e₀.setting.Sound)
    (hgoal : 0 < e₀.packetGoal) (hδ : 0 < δ) (hlate : DrawsLate σ)
    (htrip : retransmissionTimeoutMs < routeTime e₀.conditions.delayMultiplier δ there +
      routeTime e₀.conditions.delayMultiplier δ back) :
    ∃ e, RunWithin e₀ δ e ∧ e.stats.retransmissions ≠ 0 := by
  by_contra hnone
  have hall : ∀ e, RunWithin e₀ δ e → e.stats.retransmissions = 0 := fun e he => by
    by_contra hne
    exact hnone ⟨e, he, hne⟩
  -- each link takes at least 22 ms, so the timeout passes
  have hnever : ∀ (n : ℕ) (e : Engine σ), RunWithin e₀ δ e → e.running = true →
      e.OnTime (.slow e.currentTimeMs δ) δ back →
        ¬ retransmissionTimeoutMs ≤ e.currentTimeMs + n * 22 := by
    intro n
    induction n with
    | zero =>
        intro e he hrun h hle
        rw [Nat.cast_zero, zero_mul, add_zero] at hle
        obtain ⟨k, haw, ht⟩ := h.track.awaits (Bounds.first_slow _ _)
        obtain ⟨e', he', -⟩ := update_total_exact (he.run.toNet.placed hsound) 0
        have hre := update_resends hc.tcp he.run.toNet hrun le_rfl haw ht (by linarith) he'
        have := hall e' (he.update le_rfl hδ.le he')
        omega
    | succ n ih =>
        intro e he hrun h hle
        obtain ⟨e', he', hrun', h', hclock⟩ := slow_stage hc hsound hall hδ hlate he hrun h
        refine ih e' he' hrun' h' ?_
        rw [Nat.cast_succ] at hle
        linarith
  obtain ⟨e, he, hrun, h⟩ := slow_start hc hsound hgoal hδ hlate htrip
  obtain ⟨n, hn⟩ := exists_nat_ge ((retransmissionTimeoutMs - e.currentTimeMs) / 22)
  refine hnever n e he hrun h ?_
  have := (div_le_iff₀ (by norm_num : (0 : ℚ) < 22)).mp hn
  linarith

end Slow

end Draws

end Engine

/-! ### The presets -/

/-- The tables lead from `u` to `b` over these nodes and delays. -/
def GraphManager.takes (m : GraphManager) (tables : Dict Int (Dict Int Int)) (b : Int) :
    Int → List (Int × Int) → Bool
  | u, [] => u = b
  | u, (v, d) :: l =>
      u ≠ b && u ≠ v && (tables.get? u).bind (·.get? b) = some v &&
        (m.getEdgeDelay u v).toOption = some d && 113 ≤ d && m.takes tables b v l

theorem Setting.route_of_takes {s : Setting} {tables : Dict Int (Dict Int Int)}
    (hrouters : s.routers = routersFrom s.useSdn s.graphManager tables)
    (hm : 4/10 ≤ s.conditions.delayMultiplier) {b : Int} :
    ∀ {l : List (Int × Int)} {u : Int}, s.graphManager.takes tables b u l = true →
      s.Route b u (l.map Prod.snd)
  | [], u, h => by
      obtain rfl : u = b := of_decide_eq_true h
      exact .here
  | (v, d) :: l, u, h => by
      simp only [GraphManager.takes, Bool.and_eq_true, decide_eq_true_eq] at h
      obtain ⟨⟨⟨⟨⟨hu, hne⟩, hnext⟩, hdelay⟩, hlong⟩, hrest⟩ := h
      obtain ⟨table, htable, hentry⟩ := Option.bind_eq_some_iff.mp hnext
      have hd : s.graphManager.getEdgeDelay u v = .ok d := by
        cases hedge : s.graphManager.getEdgeDelay u v with
        | error x =>
            rw [hedge] at hdelay
            cases hdelay
        | ok d' =>
            rw [hedge] at hdelay
            cases hdelay
            rfl
      refine .hop (r := routerAt s.useSdn
        (firewallNodes.get? s.graphManager.currentTopologyName) u table) hu hne ?_ ?_ hd ?_
        (route_of_takes hrouters hm hrest)
      · rw [hrouters, routersFrom, Dict.get?_map, htable]
        rfl
      · rw [Router.nextHop, routerAt, hentry]
      · have hlong' : (113 : ℚ) ≤ d := by exact_mod_cast hlong
        have : (113 : ℚ) * (4/10) ≤ d * s.conditions.delayMultiplier :=
          mul_le_mul hlong' hm (by norm_num) (by linarith)
        exact le_trans (by norm_num [processingDelayMs]) this

/-- The route of a preset's data packets, and that of their acknowledgements. -/
def presetRoutes (name : String) : List (Int × Int) × List (Int × Int) :=
  if name = "Campus Backbone" then ([(2, 180), (4, 230), (5, 190)], [(4, 190), (2, 230), (0, 180)])
  else if name = "Bottleneck Path" then
    ([(1, 180), (2, 220), (4, 420), (5, 180)], [(4, 180), (3, 220), (1, 420), (0, 180)])
  else ([(4, 170), (2, 240)], [(4, 240), (5, 170)])

theorem presetRoutes_taken {name : String} {spec : TopologySpec}
    (h : topologyPresets.get? name = some spec) {tables : Dict Int (Dict Int Int)}
    (htables : (GraphManager.preset spec).buildForwardingTables = .ok tables) :
    let m := GraphManager.preset spec
    m.takes tables m.defaultDestination m.defaultSource (presetRoutes name).1 = true ∧
      m.takes tables m.defaultSource m.defaultDestination (presetRoutes name).2 = true := by
  have hcheck : (GraphManager.preset spec).buildForwardingTables.toOption.all (fun tables =>
      let m := GraphManager.preset spec
      m.takes tables m.defaultDestination m.defaultSource (presetRoutes name).1 &&
        m.takes tables m.defaultSource m.defaultDestination (presetRoutes name).2) = true := by
    rcases GraphManager.presets_cases h with ⟨rfl, rfl⟩ | ⟨rfl, rfl⟩ | ⟨rfl, rfl⟩ <;> decide +kernel
  rw [htables] at hcheck
  simpa [Except.toOption] using hcheck

/-- How long a preset's round trip can take under the multiplier `m`, with frames of at most `δ`:
the delays both ways, the jitter of every link, and a frame for it. -/
def roundTripMs (name : String) (m δ : ℚ) : ℚ :=
  if name = "Campus Backbone" then 2 * ((600 + 3 * 80) * m + 3 * δ)
  else if name = "Bottleneck Path" then 2 * ((1000 + 4 * 80) * m + 4 * δ)
  else 2 * ((410 + 2 * 80) * m + 2 * δ)

theorem routeTime_preset (name : String) (m δ : ℚ) :
    routeTime m δ ((presetRoutes name).1.map Prod.snd) +
      routeTime m δ ((presetRoutes name).2.map Prod.snd) = roundTripMs name m δ := by
  unfold presetRoutes roundTripMs
  split_ifs <;> simp only [routeTime, List.map_cons, List.map_nil, List.sum_cons, List.sum_nil] <;>
    push_cast <;> ring

namespace Engine

variable {σ : Type}

/-- TCP mode, under the multiplier `m`, with nothing that loses, repeats or drops a packet. -/
structure Lossless (e : Engine σ) (m : ℚ) : Prop where
  tcp : e.mode = .tcp
  multiplier : e.conditions.delayMultiplier = m
  loss : e.conditions.lossRate = 0
  chaos : e.conditions.chaosMode = false
  duplicates : e.conditions.duplicateRate = 0
  sdn : e.useSdn = false

theorem Lossless.calm {e : Engine σ} {name : String} {m : ℚ} (h : e.Lossless m)
    (hl : e.Loaded name) (hsrc : e.source = e.graphManager.defaultSource)
    (hdst : e.destination = e.graphManager.defaultDestination) (hm : 4/10 ≤ m) :
    e.setting.Calm ((presetRoutes name).1.map Prod.snd) ((presetRoutes name).2.map Prod.snd) := by
  obtain ⟨spec, hspec, hpreset⟩ := hl.preset
  obtain ⟨tables, htables, hrouters⟩ := hl.wired
  have hm' : 4/10 ≤ e.setting.conditions.delayMultiplier := h.multiplier.symm ▸ hm
  change e.graphManager.buildForwardingTables = .ok tables at htables
  have htaken := presetRoutes_taken hspec (hpreset ▸ htables)
  dsimp only at htaken
  rw [← hpreset, ← hsrc, ← hdst] at htaken
  refine
    { tcp := h.tcp
      chaos := h.chaos
      loss := h.loss.le
      duplicates := h.duplicates.le
      multiplier := le_trans (by norm_num) hm'
      plain := fun v r hr => ?_
      distinct := ?_
      route := Setting.route_of_takes hrouters hm' htaken.1
      returnRoute := Setting.route_of_takes hrouters hm' htaken.2 }
  · rw [hrouters, routersFrom, Dict.get?_map] at hr
    obtain ⟨table, -, rfl⟩ := Option.map_eq_some_iff.mp hr
    have hsdn : ¬ (e.setting.useSdn = true ∧
        firewallNodes.get? e.setting.graphManager.currentTopologyName = some v) := fun hs => by
      cases h.sdn.symm.trans hs.1
    exact ⟨rfl, if_neg hsdn, rfl⟩
  · show e.source ≠ e.destination
    rw [hsrc, hdst, hpreset]
    rcases GraphManager.presets_cases hspec with ⟨-, rfl⟩ | ⟨-, rfl⟩ | ⟨-, rfl⟩ <;> decide

/-- With nothing lost, no TCP run on the preset retransmits, whatever the jitter, under the
multiplier `m` and with frames of at most `δ`. -/
def NeverResends (name : String) (m δ : ℚ) : Prop :=
  ∀ (σ : Type) [RandomSource σ] (e₀ e₁ e₂ e : Engine σ) (ops : List Operation),
    e₀.setupTopology (some name) = .ok e₁ → .cycleTopology ∉ ops → e₁.session ops = .ok e₂ →
      e₂.Lossless m → RunWithin e₂ δ e → e.stats.retransmissions = 0

end Engine

/-- The generator whose draws are at their upper end; `random` gives a half. -/
structure Late where

instance : RandomSource Late where
  random s := (1/2, s)
  uniform _ b s := (b, s)
  randint _ b s := (b, s)
  random_range _ := by norm_num
  uniform_range _ h := ⟨h, le_rfl⟩
  randint_range _ h := ⟨h, le_rfl⟩

/-- `SimulationEngine` in TCP mode, under the multiplier `m`, with nothing that loses a packet. -/
def Late.fresh (m : ℚ) : Engine Late where
  graphManager := .init
  random := {}
  conditions := { lossRate := 0, delayMultiplier := m, duplicateRate := 0 }
  mode := .tcp

namespace Engine

theorem setupTopology_conditions {σ : Type} {e e' : Engine σ} {name : Option String}
    (h : e.setupTopology name = .ok e') : e'.conditions = e.conditions ∧ e'.mode = e.mode ∧
      e'.useSdn = e.useSdn ∧ e'.packetGoal = e.packetGoal := by
  simp only [setupTopology, bind_eq_ok, leaving_eq_ok] at h
  obtain ⟨m, -, e₁, h₁, h⟩ := h
  cases h
  obtain ⟨tables, -, rfl⟩ := rebuildRouters_eq_ok.mp h₁
  exact ⟨rfl, rfl, rfl, rfl⟩

/-- **When no run retransmits for nothing.**  Without losses, exactly when the round trip, with all
the jitter and a whole frame for every link, is within the timeout. -/
theorem never_resends_iff {name : String} (hname : name ∈ GraphManager.getTopologyNames) {m δ : ℚ}
    (hm : 4/10 ≤ m) (hδ : 0 < δ) :
    NeverResends name m δ ↔ roundTripMs name m δ ≤ retransmissionTimeoutMs := by
  constructor
  · intro hnever
    by_contra hlong
    rw [not_le, ← routeTime_preset] at hlong
    obtain ⟨e₁, hsetup, hfit, -⟩ := preset_setup_total (Late.fresh m) hname
    obtain ⟨hcond, hmode, hsdn, hgoal⟩ := setupTopology_conditions hsetup
    obtain ⟨hl, hsrc, hdst⟩ := setupTopology_preset hsetup
    have hlossless : e₁.Lossless m := by
      refine ⟨hmode, ?_, ?_, ?_, ?_, hsdn⟩ <;> rw [hcond] <;> rfl
    obtain ⟨e, he, hre⟩ := slow_run_retransmits (hlossless.calm hl hsrc hdst hm) hfit.sound
      (by rw [hgoal]; exact Nat.succ_pos 5) hδ (fun _ _ _ _ => rfl)
      (hlossless.multiplier.symm ▸ hlong)
    exact hre (hnever Late _ e₁ e₁ e [] hsetup (by simp) rfl hlossless he)
  · intro htrip σ _ e₀ e₁ e₂ e ops hsetup hcycle h hlossless hrun
    obtain ⟨hl, hsrc, hdst⟩ := session_preset hsetup hcycle h
    refine (hrun.onTime (hlossless.calm hl hsrc hdst hm) hδ.le ?_).retransmissions
    rw [hlossless.multiplier, routeTime_preset]
    exact htrip

/-- The campus at half the delay, with frames of at most 16 ms. -/
theorem never_resends_campus : NeverResends "Campus Backbone" (1/2) 16 :=
  (never_resends_iff (by decide +kernel) (by norm_num) (by norm_num)).mpr
    (by norm_num [roundTripMs, retransmissionTimeoutMs])

/-- `SimulationEngine` in TCP mode on the campus, with nothing that loses a packet. -/
def losslessCampus : Engine Steady :=
  (({ Steady.fresh .tcp with
      conditions := { lossRate := 0, duplicateRate := 0 } } : Engine Steady).setupTopology
        (some "Campus Backbone")).toOption.getD (Steady.fresh .tcp)

/-- With the default delays, no jitter and frames of 20 ms, the first sequence is sent again after
48 frames. -/
theorem campus_resends : losslessCampus.Lossless 1 ∧ ∃ e,
    losslessCampus.ticks (List.replicate 49 20) = .ok e ∧ e.stats.retransmissions = 1 ∧
      e.stats.packetsDropped = 0 := by
  have hlossless : losslessCampus.mode = .tcp ∧ losslessCampus.conditions.delayMultiplier = 1 ∧
      losslessCampus.conditions.lossRate = 0 ∧ losslessCampus.conditions.chaosMode = false ∧
      losslessCampus.conditions.duplicateRate = 0 ∧ losslessCampus.useSdn = false := by
    decide +kernel
  obtain ⟨h₁, h₂, h₃, h₄, h₅, h₆⟩ := hlossless
  obtain ⟨e, he, hcheck⟩ := exists_ok_and (x := losslessCampus.ticks (List.replicate 49 20))
    (f := fun e => e.stats.retransmissions = 1 ∧ e.stats.packetsDropped = 0) (by decide +kernel)
  exact ⟨⟨h₁, h₂, h₃, h₄, h₅, h₆⟩, e, he, of_decide_eq_true hcheck⟩

end Engine

end PacketSim
