import PacketSim.Engine.Ledger
import PacketSim.Lib.Passage

/-!
# Engine — Flights

How long a packet is on a link.  A flight counts its delay down by the length of every update, the
one that launches it included (`update_flights`).  So it is taken off as soon as the clock has come
to its delay after the update *before* the launch (`Updates.takenOff_iff`): one update too early,
whenever an update ends in the time between (`flight_punctual_iff`).
-/

namespace PacketSim
open Lib

/-- The flight after `dt`. -/
def InFlightPacket.aged (f : InFlightPacket) (dt : ℚ) : InFlightPacket :=
  { f with remainingTimeMs := f.remainingTimeMs - dt }

namespace Engine

variable {σ : Type}

/-! ### The flights through an update -/

/-- When each router is free again. -/
def gates (e : Engine σ) : Dict Int ℚ := e.routers.map fun _ r => r.nextAvailableTimeMs

/-- The links and the gates are as they were. -/
structure Untouched (e e' : Engine σ) : Prop where
  flights : e'.inFlightPackets = e.inFlightPackets
  gates : e'.gates = e.gates

theorem Untouched.refl (e : Engine σ) : e.Untouched e := ⟨rfl, rfl⟩

theorem schedule_untouched {e e' : Engine σ} {delayMs : ℚ} {c : Callback}
    (h : e.schedule delayMs c = .ok e') : e.Untouched e' := by
  unfold schedule at h
  dsimp only at h
  split at h
  · cases h
  · cases h
    exact ⟨rfl, rfl⟩

theorem enqueue_untouched {e e' : Engine σ} {node : Int} {p : Packet}
    (h : e.enqueue node p = .ok e') : e.Untouched e' := by
  unfold enqueue at h
  split at h
  · cases h
  · rename_i r hr
    cases h
    exact ⟨rfl, Dict.map_modify (g := Router.nextAvailableTimeMs) hr rfl⟩

theorem sendData_untouched {e e' : Engine σ} {k : ℕ} {re : Bool} (h : e.sendData k re = .ok e') :
    e.Untouched e' := by
  unfold sendData at h
  split at h
  · cases h
    exact .refl _
  · dsimp only [makePacket] at h
    rw [bind_eq_ok] at h
    obtain ⟨e₁, h₁, h⟩ := h
    have h₁' := enqueue_untouched h₁
    split at h
    · have h' := schedule_untouched h
      exact ⟨h'.flights.trans h₁'.flights, h'.gates.trans h₁'.gates⟩
    · cases h
      exact ⟨h₁'.flights, h₁'.gates⟩

theorem runCallback_untouched {e e' : Engine σ} {c : Callback} (h : e.runCallback c = .ok e') :
    e.Untouched e' := by
  cases c with
  | sendData k => exact sendData_untouched h
  | onTimeout k token =>
      rw [runCallback, onTimeout] at h
      split at h
      · cases h
        exact .refl _
      · split at h
        · cases h
          exact .refl _
        · exact sendData_untouched h

theorem runDueEvents_untouched {fuel : ℕ} {e e' : Engine σ} (h : runDueEvents fuel e = .ok e') :
    e.Untouched e' :=
  runDueEvents_invariant (P := fun x => e.Untouched x) (fun _ _ _ _ _ _ h hs =>
    have h' := runCallback_untouched h
    ⟨h'.flights.trans hs.flights, h'.gates.trans hs.gates⟩) h (.refl e)

/-- What was on the links stays, and what is put there has all its delay before it. -/
def Adds (e e' : Engine σ) : Prop :=
  ∃ l, e'.inFlightPackets = e.inFlightPackets ++ l ∧ ∀ f ∈ l, f.remainingTimeMs = f.totalTimeMs

theorem Adds.refl (e : Engine σ) : e.Adds e := ⟨[], by simp⟩

theorem Adds.trans {e e₁ e' : Engine σ} (h : e.Adds e₁) (h' : e₁.Adds e') : e.Adds e' := by
  obtain ⟨l, hl, hf⟩ := h
  obtain ⟨l', hl', hf'⟩ := h'
  refine ⟨l ++ l', by rw [hl', hl, List.append_assoc], fun f hmem => ?_⟩
  exact (List.mem_append.mp hmem).elim (hf f) (hf' f)

section Draws
variable [RandomSource σ]

theorem launchLink_adds {e e' : Engine σ} {p : Packet} {a b : Int}
    (h : e.launchLink p a b = .ok e') : e.Adds e' := by
  obtain ⟨d, -, f, g, n, hf, rfl | ⟨-, f', hf', rfl⟩⟩ := launchLink_cases h
  · exact ⟨[f], rfl, by simpa using hf.remaining⟩
  · exact ⟨[f, f'], rfl, by simpa using ⟨hf.remaining, hf'.remaining⟩⟩

theorem dispatchRouter_adds {e e' : Engine σ} {id : Int} (h : e.dispatchRouter id = .ok e') :
    e.Adds e' := by
  obtain ⟨r, -, ⟨-, rfl⟩ | ⟨p, queue, -, -, ⟨value, -, rfl⟩ | ⟨hop, -, h⟩⟩⟩ :=
    dispatchRouter_cases h
  · exact .refl _
  · exact ⟨[], (List.append_nil _).symm, by simp⟩
  · have hadds := launchLink_adds h
    exact hadds

theorem dispatchRouters_adds {e e' : Engine σ} (h : e.dispatchRouters = .ok e') : e.Adds e' :=
  foldlM_invariant (P := fun x => e.Adds x) (fun _ _ _ _ h hs => hs.trans (dispatchRouter_adds h)) h
    (.refl e)

end Draws

/-- The loop over the flights ages them all and keeps those with time left. -/
theorem advanceFlights_kept {dt : ℚ} : ∀ {l : List InFlightPacket}
    {st st' : List InFlightPacket × Engine σ}, l.foldlM (advanceFlight dt) st = .ok st' →
      st'.1 = st.1 ++ (l.map (·.aged dt)).filter (0 < ·.remainingTimeMs)
  | [], st, st', h => by
      cases h
      simp
  | f :: l, (kept, e), st', h => by
      rw [List.foldlM_cons, bind_eq_ok] at h
      obtain ⟨st₁, h₁, h₂⟩ := h
      have hstep : st₁.1 = kept ++ [f.aged dt].filter (0 < ·.remainingTimeMs) := by
        unfold advanceFlight at h₁
        dsimp only at h₁
        split at h₁
        · rename_i hpos
          cases h₁
          rw [List.filter_cons_of_pos (by simpa [InFlightPacket.aged] using hpos), List.filter_nil]
          rfl
        · rename_i hpos
          rw [List.filter_cons_of_neg (by simpa [InFlightPacket.aged] using hpos), List.filter_nil,
            List.append_nil]
          split at h₁
          · cases h₁
            rfl
          · rw [bind_eq_ok] at h₁
            obtain ⟨e', -, h₁⟩ := h₁
            cases h₁
            rfl
      rw [advanceFlights_kept h₂, hstep, List.append_assoc, ← List.filter_append]
      rfl

/-! ### Launches -/

section Draws
variable [RandomSource σ]

/-- The flights that an update puts on links. -/
def launches (e : Engine σ) (dt : ℚ) : List InFlightPacket :=
  if e.running then
    match (e.updatePacketEvents dt).beforeAdvance dt with
    | .ok e' => e'.inFlightPackets.drop e.inFlightPackets.length
    | .error _ => []
  else []

/-- An update ages the flights on the links, those it puts there included, and keeps those with time
left. -/
structure Ages (e : Engine σ) (dt : ℚ) (e' : Engine σ) : Prop where
  clock : e'.currentTimeMs = e.currentTimeMs + dt
  flights : e'.inFlightPackets =
    ((e.inFlightPackets ++ e.launches dt).map (·.aged dt)).filter (0 < ·.remainingTimeMs)
  launched : ∀ f ∈ e.launches dt, f.remainingTimeMs = f.totalTimeMs
  distinct : ((e.inFlightPackets ++ e.launches dt).map fun f => f.packet.packetId).Nodup

theorem update_flights {e₀ e e' : Engine σ} {dt : ℚ} (hr : Run e₀ e) (hdt : 0 ≤ dt)
    (hrun : e.running = true) (h : e.update dt = .ok e') : e.Ages dt e' := by
  obtain ⟨e₁, e₂, e₃, h₁, h₂, h₃, rfl⟩ := (update_eq_ok hrun).mp h
  have hbefore : (e.updatePacketEvents dt).beforeAdvance dt = .ok e₂ := by
    rw [beforeAdvance, bind_eq_ok]
    exact ⟨e₁, h₁, h₂⟩
  obtain ⟨l, hl, hnew⟩ := dispatchRouters_adds h₂
  have hkeeps := (runDueEvents_untouched h₁).flights
  have hl' : e₂.inFlightPackets = e.inFlightPackets ++ l := hl.trans (congrArg (· ++ l) hkeeps)
  have hlaunch : e.launches dt = l := by
    rw [launches, if_pos hrun, hbefore]
    dsimp only
    rw [hl', List.drop_left]
  have hs₂ : Net.Steps (e.toNet.tick dt) e₂.toNet :=
    (runDueEvents_steps (e := e.ticked dt) h₁).trans (dispatchRouters_steps h₂)
  have hs₃ := hs₂.trans (advanceInFlightPackets_steps h₃)
  have hclock : e₃.currentTimeMs = e.currentTimeMs + dt := (Net.Steps.frame hs₃).2.1
  have hkept : e₃.inFlightPackets =
      (e₂.inFlightPackets.map (·.aged dt)).filter (0 < ·.remainingTimeMs) := by
    rw [advanceInFlightPackets, bind_eq_ok] at h₃
    obtain ⟨st, hst, h₃⟩ := h₃
    cases h₃
    exact advanceFlights_kept hst
  have hfinished : e₃.checkFinished.currentTimeMs = e₃.currentTimeMs ∧
      e₃.checkFinished.inFlightPackets = e₃.inFlightPackets := by
    unfold checkFinished finishRun
    split_ifs <;> exact ⟨rfl, rfl⟩
  rw [← hlaunch] at hl' hnew
  refine ⟨hfinished.1.trans hclock, hfinished.2.trans (hl' ▸ hkept), hnew, ?_⟩
  have hids := ((hr.toNet.tick hrun hdt).steps hrun hs₂).ledger.ids.nodup
  have hsub : (e₂.inFlightPackets.map InFlightPacket.held : Multiset (Place × Packet)) ≤
      e₂.toNet.held := Multiset.le_add_left _ _
  have := Multiset.nodup_of_le (Multiset.map_le_map hsub) hids
  rw [Multiset.map_coe, List.map_map, Multiset.coe_nodup, hl'] at this
  exact this

/-! ### Runs, update by update -/

/-- A run and its first `n` updates. -/
structure Updates (e₀ : Engine σ) (states : ℕ → Engine σ) (dts : ℕ → ℚ) (n : ℕ) : Prop where
  start : e₀.startRun = .ok (states 0)
  forward : ∀ i < n, 0 ≤ dts i
  update : ∀ i < n, (states i).update (dts i) = .ok (states (i + 1))

/-- The state after each update, where none raises. -/
def stateAfter (e₀ : Engine σ) (dts : ℕ → ℚ) : ℕ → Engine σ
  | 0 => e₀.startRun.toOption.getD e₀
  | k + 1 => ((stateAfter e₀ dts k).update (dts k)).toOption.getD (stateAfter e₀ dts k)

theorem updates_stateAfter {e₀ : Engine σ} {dts : ℕ → ℚ} {n : ℕ}
    (hstart : e₀.startRun.toBool = true) (hdts : ∀ i < n, 0 ≤ dts i)
    (hupdate : ∀ i < n, ((stateAfter e₀ dts i).update (dts i)).toBool = true) :
    Updates e₀ (stateAfter e₀ dts) dts n where
  start := eq_ok_getD hstart e₀
  forward := hdts
  update i hi := eq_ok_getD (hupdate i hi) _

/-- The packet is on a link. -/
def OnLink (e : Engine σ) (packetId : ℕ) : Prop :=
  ∃ f ∈ e.inFlightPackets, f.packet.packetId = packetId

instance (e : Engine σ) (packetId : ℕ) : Decidable (e.OnLink packetId) :=
  inferInstanceAs (Decidable (∃ f ∈ e.inFlightPackets, f.packet.packetId = packetId))

/-- The packet, put on a link in update `i`, is taken off it in update `j`. -/
structure TakenOff (states : ℕ → Engine σ) (packetId i j : ℕ) : Prop where
  le : i ≤ j
  off : ¬ (states (j + 1)).OnLink packetId
  on : ∀ k, i ≤ k → k < j → (states (k + 1)).OnLink packetId

/-- The packet is on a link, with the time left until the clock comes to `due`. -/
def Flying (e : Engine σ) (packetId : ℕ) (due : ℚ) : Prop :=
  ∃ f ∈ e.inFlightPackets, f.packet.packetId = packetId ∧
    f.remainingTimeMs = due - e.currentTimeMs

/-- A flight, one of those the update finds or launches, stays on while it has time left. -/
theorem Ages.flight {e e' : Engine σ} {dt due : ℚ} {f : InFlightPacket} (h : e.Ages dt e')
    (hf : f ∈ e.inFlightPackets ++ e.launches dt)
    (hdue : f.remainingTimeMs = due - e.currentTimeMs) :
    (e'.OnLink f.packet.packetId ↔ e'.currentTimeMs < due) ∧
      (e'.currentTimeMs < due → e'.Flying f.packet.packetId due) := by
  have hleft : (f.aged dt).remainingTimeMs = due - e'.currentTimeMs := by
    rw [h.clock, InFlightPacket.aged]
    linarith
  have hflying : e'.currentTimeMs < due → e'.Flying f.packet.packetId due := fun hlt => by
    refine ⟨f.aged dt, ?_, rfl, hleft⟩
    rw [h.flights, List.mem_filter]
    exact ⟨List.mem_map_of_mem hf, decide_eq_true (by rw [hleft]; linarith)⟩
  refine ⟨⟨fun hon => ?_, fun hlt => ?_⟩, hflying⟩
  · obtain ⟨g, hg, hid⟩ := hon
    rw [h.flights, List.mem_filter, List.mem_map] at hg
    obtain ⟨⟨f', hf', rfl⟩, hpos⟩ := hg
    obtain rfl : f' = f := List.inj_on_of_nodup_map h.distinct hf' hf hid
    have := of_decide_eq_true hpos
    rw [hleft] at this
    linarith
  · obtain ⟨g, hg, hid, -⟩ := hflying hlt
    exact ⟨g, hg, hid⟩

section Runs
variable {e₀ : Engine σ} {states : ℕ → Engine σ} {dts : ℕ → ℚ} {n i : ℕ} {f : InFlightPacket}

theorem Updates.run (h : Updates e₀ states dts n) : ∀ {i : ℕ}, i ≤ n → Run e₀ (states i)
  | 0, _ => .start h.start
  | i + 1, hi => (h.run (i := i) (by omega)).update (h.forward i hi) (h.update i hi)

/-- Every state of a run is reached by its updates. -/
theorem Run.exists_updates {e : Engine σ} (h : Run e₀ e) :
    ∃ states dts n, Updates e₀ states dts n ∧ states n = e := by
  induction h with
  | @start e h => exact ⟨fun _ => e, fun _ => 0, 0, ⟨h, by simp, by simp⟩, rfl⟩
  | @update e e' dt _ hdt h ih =>
      obtain ⟨states, dts, n, hu, rfl⟩ := ih
      refine ⟨fun i => if i ≤ n then states i else e', fun i => if i < n then dts i else dt, n + 1,
        ⟨?_, fun i hi => ?_, fun i hi => ?_⟩, if_neg (by omega)⟩
      · exact hu.start
      · split
        · exact hu.forward i ‹_›
        · exact hdt
      · rcases Nat.lt_succ_iff_lt_or_eq.mp hi with hi' | rfl
        · have h₁ : i ≤ n := by omega
          have h₂ : i + 1 ≤ n := by omega
          simp only [h₁, h₂, hi', if_true]
          exact hu.update i hi'
        · simpa using h

theorem Updates.clock_idle (h : Updates e₀ states dts n) {k : ℕ} (hk : k < n)
    (hrun : (states k).running = false) :
    (states (k + 1)).currentTimeMs = (states k).currentTimeMs ∧
      (states (k + 1)).inFlightPackets = (states k).inFlightPackets := by
  have := h.update k hk
  rw [update_idle _ hrun] at this
  rw [← Except.ok.inj this]
  exact ⟨rfl, rfl⟩

theorem Updates.ages (h : Updates e₀ states dts n) {k : ℕ} (hk : k < n)
    (hrun : (states k).running = true) : (states k).Ages (dts k) (states (k + 1)) :=
  update_flights (h.run hk.le) (h.forward k hk) hrun (h.update k hk)

theorem Updates.clock_le (h : Updates e₀ states dts n) {k : ℕ} (hk : k < n) :
    (states k).currentTimeMs ≤ (states (k + 1)).currentTimeMs := by
  cases hrun : (states k).running with
  | false => exact (h.clock_idle hk hrun).1.ge
  | true =>
      rw [(h.ages hk hrun).clock]
      exact le_add_of_nonneg_right (h.forward k hk)

theorem Updates.clock_mono (h : Updates e₀ states dts n) {j k : ℕ} (hjk : j ≤ k) (hk : k ≤ n) :
    (states j).currentTimeMs ≤ (states k).currentTimeMs := by
  induction hjk with
  | refl => exact le_rfl
  | @step k _ ih => exact (ih (by omega)).trans (h.clock_le hk)

theorem running_of_launches {e : Engine σ} {dt : ℚ} (h : f ∈ e.launches dt) : e.running = true := by
  unfold launches at h
  split at h
  · assumption
  · cases h

/-- While the clock has not come to its delay after the update before the launch, a flight is on its
link; once it has, the flight is off. -/
theorem Updates.flight (h : Updates e₀ states dts n) (hf : f ∈ (states i).launches (dts i)) :
    ∀ {k : ℕ}, i ≤ k → k < n →
      (∀ m, i ≤ m → m < k →
        (states (m + 1)).currentTimeMs < (states i).currentTimeMs + f.totalTimeMs) →
        ((states (k + 1)).OnLink f.packet.packetId ↔
          (states (k + 1)).currentTimeMs < (states i).currentTimeMs + f.totalTimeMs) ∧
        ((states (k + 1)).currentTimeMs < (states i).currentTimeMs + f.totalTimeMs →
          (states (k + 1)).Flying f.packet.packetId
            ((states i).currentTimeMs + f.totalTimeMs)) := by
  intro k hik
  induction hik with
  | refl =>
      intro hi _
      have hages := h.ages hi (running_of_launches hf)
      exact hages.flight (List.mem_append_right _ hf) (by rw [hages.launched f hf]; ring)
  | @step k hik ih =>
      intro hk hbefore
      have hlt := hbefore k hik (Nat.lt_succ_self k)
      obtain ⟨-, hflying⟩ := ih (by omega) fun m him hmk => hbefore m him (by omega)
      obtain ⟨g, hg, hid, hleft⟩ := hflying hlt
      cases hrun : (states (k + 1)).running with
      | true =>
          have := (h.ages hk hrun).flight (List.mem_append_left _ hg) hleft
          rwa [hid] at this
      | false =>
          obtain ⟨hclock, hflights⟩ := h.clock_idle hk hrun
          have hon : (states (k + 1 + 1)).Flying f.packet.packetId
              ((states i).currentTimeMs + f.totalTimeMs) :=
            ⟨g, hflights ▸ hg, hid, hclock ▸ hleft⟩
          exact ⟨iff_of_true ⟨g, hflights ▸ hg, hid⟩ (hclock ▸ hlt), fun _ => hon⟩

/-- The clock as the updates move it. -/
def clock (states : ℕ → Engine σ) (k : ℕ) : ℚ := (states k).currentTimeMs

theorem Updates.takenOff_iff (h : Updates e₀ states dts n)
    (hf : f ∈ (states i).launches (dts i)) {j : ℕ} (hj : j < n) :
    TakenOff states f.packet.packetId i j ↔
      FirstReach (clock states) i j (clock states i + f.totalTimeMs) := by
  constructor
  · intro ht
    have hbefore : ∀ k, i ≤ k → k < j → clock states (k + 1) < clock states i + f.totalTimeMs := by
      intro k
      induction k using Nat.strong_induction_on with
      | _ k ih =>
          intro hik hkj
          refine (h.flight hf hik (hkj.trans hj) fun m him hmk => ?_).1.mp (ht.on k hik hkj)
          exact ih m hmk him (hmk.trans hkj)
    exact ⟨ht.le, not_lt.mp fun hlt => ht.off ((h.flight hf ht.le hj hbefore).1.mpr hlt), hbefore⟩
  · intro hr
    refine ⟨hr.le, fun hon => ?_, fun k hik hkj => ?_⟩
    · exact absurd ((h.flight hf hr.le hj hr.first).1.mp hon) (not_lt.mpr hr.reached)
    · exact (h.flight hf hik (hkj.trans hj) fun m him hmk =>
        hr.first m him (hmk.trans hkj)).1.mpr (hr.first k hik hkj)

/-- The flight launched in update `i` is taken off its link in the first update after which the
clock has come to its delay after the launch. -/
def Punctual (states : ℕ → Engine σ) (n i : ℕ) (f : InFlightPacket) : Prop :=
  ∀ j < n, TakenOff states f.packet.packetId i j ↔
    FirstReach (clock states) i j (clock states (i + 1) + f.totalTimeMs)

/-- What holds after the updates of a run that is on holds after all of them. -/
theorem Updates.of_running (h : Updates e₀ states dts n) (hrun : (states i).running = true)
    {P : ℚ → Prop}
    (hP : ∀ k, i ≤ k → k < n → (states k).running = true → P (clock states k + dts k)) :
    ∀ k, i ≤ k → k < n → P (clock states (k + 1)) := by
  intro k hik
  induction hik with
  | refl =>
      intro hi
      rw [clock, (h.ages hi hrun).clock]
      exact hP i le_rfl hi hrun
  | @step k hik ih =>
      intro hk
      cases hrun' : (states (k + 1)).running with
      | true =>
          rw [clock, (h.ages hk hrun').clock]
          exact hP (k + 1) (Nat.le_succ_of_le hik) hk hrun'
      | false =>
          rw [clock, (h.clock_idle hk hrun').1]
          exact ih (by omega)

/-- **When a link takes its delay.**  A flight launched in an update is punctual exactly when no
update of the run brings the clock to the time between its delay after the beginning of that update
and its delay after the end of it. -/
theorem flight_punctual_iff (h : Updates e₀ states dts n) (hi : i < n)
    (hf : f ∈ (states i).launches (dts i)) :
    Punctual states n i f ↔ ∀ k, i ≤ k → k < n → (states k).running = true →
      clock states k + dts k < clock states i + f.totalTimeMs ∨
        clock states i + dts i + f.totalTimeMs ≤ clock states k + dts k := by
  have hrun := running_of_launches hf
  have hlaunch : clock states (i + 1) = clock states i + dts i := (h.ages hi hrun).clock
  have hle : clock states i + f.totalTimeMs ≤ clock states (i + 1) + f.totalTimeMs := by
    rw [hlaunch]
    linarith [h.forward i hi]
  have hmono : ∀ k, i ≤ k → k < n → ∀ j, i ≤ j → j ≤ k →
      clock states (j + 1) ≤ clock states (k + 1) :=
    fun k _ hk j _ hjk => h.clock_mono (Nat.succ_le_succ hjk) hk
  have hreach := firstReach_iff hmono hle
  have hpunctual : Punctual states n i f ↔ ∀ k, i ≤ k → k < n →
      clock states (k + 1) < clock states i + f.totalTimeMs ∨
        clock states i + dts i + f.totalTimeMs ≤ clock states (k + 1) := by
    rw [← hlaunch, ← hreach]
    exact forall₂_congr fun j hj => by rw [h.takenOff_iff hf hj]
  rw [hpunctual]
  constructor
  · intro hall k hik hk hrun'
    have := hall k hik hk
    rwa [show clock states (k + 1) = clock states k + dts k from (h.ages hk hrun').clock] at this
  · exact h.of_running hrun (P := fun t => t < clock states i + f.totalTimeMs ∨
      clock states i + dts i + f.totalTimeMs ≤ t)

end Runs

end Draws

/-- The campus in UDP mode, update by update. -/
def campusStates (dts : ℕ → ℚ) : ℕ → Engine Steady :=
  stateAfter (Steady.engine "Campus Backbone" .udp) dts

/-- One frame of 16 ms, then frames of 200 ms. -/
def longFrames (k : ℕ) : ℚ := if k = 0 then 16 else 200

theorem flight_punctual_campus :
    ∃ f ∈ (campusStates longFrames 0).launches 16, Punctual (campusStates longFrames) 3 0 f := by
  have hu : Updates (Steady.engine "Campus Backbone" .udp) (campusStates longFrames) longFrames 3 :=
    updates_stateAfter (by decide +kernel) (by decide +kernel) (by decide +kernel)
  have hd : ∃ f ∈ (campusStates longFrames 0).launches 16, f.totalTimeMs = 180 := by decide +kernel
  obtain ⟨f, hf, hd⟩ := hd
  refine ⟨f, hf, (flight_punctual_iff hu (by decide) hf).mpr fun k _ hk _ => ?_⟩
  rw [hd]
  revert k
  decide +kernel

/-- At 20 ms a frame, the first flight is launched at 20 ms with a delay of 180 ms and taken off at
180 ms. -/
theorem campus_taken_off_early : ∃ f ∈ (campusStates (fun _ => 20) 0).launches 20,
    Updates (Steady.engine "Campus Backbone" .udp) (campusStates fun _ => 20) (fun _ => 20) 9 ∧
      ¬ Punctual (campusStates fun _ => 20) 9 0 f := by
  have hu : Updates (Steady.engine "Campus Backbone" .udp) (campusStates fun _ => 20)
      (fun _ => 20) 9 :=
    updates_stateAfter (by decide +kernel) (by norm_num) (by decide +kernel)
  have hearly : ∃ f ∈ (campusStates (fun _ => 20) 0).launches 20, f.packet.packetId = 1 ∧
      clock (campusStates fun _ => 20) 9 < clock (campusStates fun _ => 20) 1 + f.totalTimeMs := by
    decide +kernel
  obtain ⟨f, hf, hid, hlt⟩ := hearly
  refine ⟨f, hf, hu, fun hp => ?_⟩
  have hoff : TakenOff (campusStates fun _ => 20) f.packet.packetId 0 8 := by
    rw [hid]
    refine ⟨by decide, by decide +kernel, fun k _ hk => ?_⟩
    revert k
    decide +kernel
  exact not_le.mpr hlt ((hp 8 (by decide)).mp hoff).reached

end Engine

end PacketSim
