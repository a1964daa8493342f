import PacketSim.Engine.Lifecycle
import PacketSim.Engine.Packets
import PacketSim.Engine.Placement

/-!
# Engine — Clean

A network that loses nothing: the loss rate is zero, chaos is off, and no rule matches the traffic
of the run (`Setting.Clean`).  Then no flight is ever marked lost, no packet is ever dropped, and a
run that ends before its longest time has delivered every sequence, in either mode (`run_clean`).
-/

namespace PacketSim
open Lib History

/-- Nothing loses a packet of the run. -/
structure Setting.Clean (s : Setting) : Prop where
  chaos : s.conditions.chaosMode = false
  loss : s.conditions.lossRate ≤ 0
  rules : ∀ v r p value, s.routers.get? v = some r → p.Genuine s →
    r.applyRules p ≠ some ⟨.drop, value⟩

/-- The rebuilt routers let the traffic through if SDN is off or the port is not the blocked one. -/
theorem Setting.Wired.clean {s : Setting} (h : s.Wired) (hchaos : s.conditions.chaosMode = false)
    (hloss : s.conditions.lossRate ≤ 0) (hopen : s.useSdn = false ∨ s.trafficPort ≠ 80) :
    s.Clean where
  chaos := hchaos
  loss := hloss
  rules v r p value hr hp := by
    obtain ⟨tables, -, hrouters⟩ := h
    rw [hrouters, routersFrom, Dict.get?_map] at hr
    obtain ⟨table, -, rfl⟩ := Option.map_eq_some_iff.mp hr
    unfold Router.applyRules routerAt
    dsimp only
    split
    · rename_i hsdn
      have hport : p.dstPort ≠ 80 := by
        rw [hp.port]
        exact hopen.resolve_left (by simp [hsdn.1])
      simp [firewallRules, hport]
    · simp

namespace Engine

variable {σ : Type}

/-- Nothing was dropped, and no flight will be. -/
structure Safe (e : Engine σ) : Prop where
  dropped : e.stats.packetsDropped = 0
  flights : ∀ f ∈ e.inFlightPackets, f.dropped = false

variable {e e' : Engine σ} {l : List PacketEvent}

theorem Safe.leaves (h : e.Safe) (hl : e.Leaves e' l) : e'.Safe := by
  have hdropped : e'.stats.packetsDropped = e.stats.packetsDropped :=
    congrArg Links.packetsDropped hl.links
  have hflights : e'.inFlightPackets = e.inFlightPackets := congrArg Links.inFlightPackets hl.links
  exact ⟨hdropped.trans h.dropped, by rw [hflights]; exact h.flights⟩

section Draws
variable [RandomSource σ]

theorem Safe.launchLink (h : e.Safe) (hchaos : e.conditions.chaosMode = false)
    (hloss : e.conditions.lossRate ≤ 0) {p : Packet} {a b : Int}
    (hl : e.launchLink p a b = .ok e') : e'.Safe := by
  obtain ⟨d, -, f, g, n, hf, rfl | ⟨-, f', hf', rfl⟩⟩ := launchLink_cases hl
  · refine ⟨h.dropped, fun x hx => ?_⟩
    rcases List.mem_append.mp hx with hx | hx
    · exact h.flights x hx
    · obtain rfl := List.mem_singleton.mp hx
      exact hf.kept hchaos hloss
  · refine ⟨h.dropped, fun x hx => ?_⟩
    rcases List.mem_append.mp hx with hx | hx
    · exact h.flights x hx
    · rcases List.mem_cons.mp hx with rfl | hx
      · exact hf.kept hchaos hloss
      · obtain rfl := List.mem_singleton.mp hx
        exact hf'.kept hchaos hloss

/-- A router drops nothing: what it holds is of the run, and no rule matches that. -/
theorem Safe.dispatchRouter {s : Setting} (h : e.Safe) (hs : s.Clean) (hn : Net.Run s e.toNet)
    {id : Int} (hd : e.dispatchRouter id = .ok e') : e'.Safe := by
  have hset : e.setting = s := hn.setting
  have hchaos : e.conditions.chaosMode = false := by
    rw [← hset] at hs
    exact hs.chaos
  have hloss : e.conditions.lossRate ≤ 0 := by
    rw [← hset] at hs
    exact hs.loss
  obtain ⟨r, hr, ⟨-, rfl⟩ | ⟨p, queue, hq, -, ⟨value, hrule, rfl⟩ | ⟨hop, -, hl⟩⟩⟩ :=
    dispatchRouter_cases hd
  · exact h
  · obtain ⟨M, hM, -⟩ := takeHead_toNet hr hq
    have hp : p.Genuine s := hn.genuine (.inl ⟨_, Net.mem_head hM⟩)
    have hwired : s.routers.get? id = some r.wiring := hset ▸ router_toNet hr
    exact absurd hrule (hs.rules id r.wiring p value hwired hp)
  · exact Safe.launchLink (e := e.takeHead id r queue) ⟨h.dropped, h.flights⟩ hchaos hloss hl

theorem Safe.dispatchRouters {s : Setting} (h : e.Safe) (hs : s.Clean) (hn : Net.Run s e.toNet)
    (hrun : e.running = true) (hd : e.dispatchRouters = .ok e') : e'.Safe :=
  (foldlM_invariant (P := fun x : Engine σ => x.Safe ∧ x.running = true ∧ Net.Run s x.toNet)
    (fun x _ x' _ hx ⟨hsafe, hon, hnet⟩ => by
      have hsteps := dispatchRouter_steps hx
      exact ⟨hsafe.dispatchRouter hs hnet hx, hsteps.frame.2.2.trans hon, hnet.steps hon hsteps⟩)
    hd ⟨h, hrun, hn⟩).1

end Draws

/-- Every flight that ends arrives. -/
theorem Safe.advanceInFlightPackets (h : e.Safe) {dt : ℚ}
    (ha : e.advanceInFlightPackets dt = .ok e') : e'.Safe := by
  rw [Engine.advanceInFlightPackets, bind_eq_ok] at ha
  obtain ⟨⟨kept, e₁⟩, h₁, ha⟩ := ha
  cases ha
  have hkept : kept = (e.inFlightPackets.map (·.aged dt)).filter (0 < ·.remainingTimeMs) :=
    advanceFlights_kept h₁
  have hsafe : e₁.Safe := foldlM_invariant
    (P := fun st : List InFlightPacket × Engine σ => st.2.Safe) (fun st f st' hf hst hx => by
      obtain ⟨kept, x⟩ := st
      unfold advanceFlight at hst
      dsimp only at hst
      split at hst
      · cases hst
        exact hx
      · split at hst
        · rename_i hdropped
          exact absurd (h.flights f hf) (by simp [hdropped])
        · rw [bind_eq_ok] at hst
          obtain ⟨x', hx', hst⟩ := hst
          cases hst
          exact hx.leaves (handleArrival_leaves hx')) h₁ h
  refine ⟨hsafe.dropped, fun f hf => ?_⟩
  have hf : f ∈ kept := hf
  rw [hkept, List.mem_filter, List.mem_map] at hf
  obtain ⟨⟨f', hf', rfl⟩, -⟩ := hf
  exact h.flights f' hf'

section Runs
variable [RandomSource σ] {e₀ : Engine σ}

theorem Run.safe (h : Run e₀ e) (hs : e₀.setting.Clean) : e.Safe := by
  induction h with
  | start h =>
      have hlinks := (startRun_leaves h).2
      exact ⟨congrArg Links.packetsDropped hlinks, by
        have hflights := congrArg Links.inFlightPackets hlinks
        simp only [links] at hflights
        simp [hflights]⟩
  | @update e e' dt hr hdt hu ih =>
      cases hrun : e.running with
      | false =>
          rw [update_idle dt hrun] at hu
          cases hu
          exact ⟨ih.dropped, ih.flights⟩
      | true =>
          obtain ⟨e₁, e₂, e₃, h₁, h₂, h₃, rfl⟩ := (update_eq_ok hrun).mp hu
          have hsteps := runDueEvents_steps (e := e.ticked dt) h₁
          have hn₁ := (hr.toNet.tick hrun hdt).steps hrun hsteps
          have hticked : (e.ticked dt).Safe := ⟨ih.dropped, ih.flights⟩
          have hsafe := ((hticked.leaves (runDueEvents_leaves h₁)).dispatchRouters hs hn₁
            (hsteps.frame.2.2.trans hrun) h₂).advanceInFlightPackets h₃
          have hfinished : e₃.checkFinished.stats.packetsDropped = e₃.stats.packetsDropped ∧
              e₃.checkFinished.inFlightPackets = e₃.inFlightPackets := by
            unfold checkFinished finishRun
            split_ifs <;> exact ⟨rfl, rfl⟩
          exact ⟨hfinished.1.trans hsafe.dropped, by rw [hfinished.2]; exact hsafe.flights⟩

/-- **Nothing is lost on a clean network.**  With the rebuilt routers, no loss, no chaos, and SDN
off or the traffic on a port that is not blocked, no packet is dropped in any state of a run, and a
run that ends before its longest time has delivered every sequence. -/
theorem run_clean (hw : e₀.setting.Wired) (hchaos : e₀.conditions.chaosMode = false)
    (hloss : e₀.conditions.lossRate ≤ 0) (hopen : e₀.useSdn = false ∨ e₀.trafficPort ≠ 80)
    (h : Run e₀ e) :
    e.stats.packetsDropped = 0 ∧ (∀ f ∈ e.inFlightPackets, f.dropped = false) ∧
      (e.running = false → e.currentTimeMs < maxRuntimeMs →
        e.deliveredSequences = Finset.range e.packetGoal) := by
  have hsafe := h.safe (hw.clean hchaos hloss hopen)
  refine ⟨hsafe.dropped, hsafe.flights, fun hend hearly => ?_⟩
  have hs := (h.settled hend).resolve_right (not_le.mpr hearly)
  cases hm : e.mode with
  | udp => exact (hs.udp hm).2.2 hsafe.dropped
  | tcp => exact (hs.tcp hm).1

omit [RandomSource σ] in
theorem fit_conditions {e : Engine σ} (h : e.setting.Fit) (conditions : NetworkConditions) :
    (setting { e with conditions }).Fit :=
  ⟨h.good, h.wired, h.source, h.destination, h.distinct⟩

/-- The ring without loss. -/
def cleanRing : Engine Steady :=
  { Steady.engine "Redundant Ring" .udp with conditions := { lossRate := 0 } }

theorem run_clean_ring : ∃ e, cleanRing.ticks (List.replicate 7 300) = .ok e ∧
    e.stats.packetsDropped = 0 ∧ e.deliveredSequences = Finset.range e.packetGoal := by
  obtain ⟨e, he, hcheck⟩ := exists_ok_and (x := cleanRing.ticks (List.replicate 7 300))
    (f := fun e => !e.running && decide (e.currentTimeMs < maxRuntimeMs)) (by decide +kernel)
  obtain ⟨hend, hearly⟩ := Bool.and_eq_true_iff.mp hcheck
  have hfit : cleanRing.setting.Fit := fit_conditions (steady_fit (by decide +kernel) .udp) _
  have hclean := run_clean hfit.wired (by decide +kernel) (by norm_num [cleanRing])
    (.inl (by decide +kernel)) (.of_ticks (by decide +kernel) he)
  exact ⟨e, he, hclean.1, hclean.2.2 (by simpa using hend) (of_decide_eq_true hearly)⟩

end Runs

end Engine

end PacketSim
