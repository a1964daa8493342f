import PacketSim.Engine.Definitions
import PacketSim.Lib.Except

/-!
# Engine — Links

What a router does in one pass of `_dispatch_routers`, with the draws put away: a packet is left
waiting, dropped by a rule, or launched onto a link, once or twice (`dispatchRouter_cases`,
`launchLink_cases`).  All that later modules know of the draws is `InFlightPacket.Launched`.
-/

namespace PacketSim
open Lib

/-- The router sends the packet on to `hop`. -/
def Router.Chooses (r : Router) (p : Packet) (hop : Int) : Prop :=
  (r.applyRules p = none ∧ r.nextHop p.destination = .ok hop) ∨
    r.applyRules p = some ⟨.forward, some hop⟩

/-- A flight as it is put on a link whose delay is `baseDelayMs`, under the conditions `c`. -/
structure InFlightPacket.Launched (σ : Type) [RandomSource σ] (c : NetworkConditions) (p : Packet)
    (startNode endNode : Int) (baseDelayMs : Int) (f : InFlightPacket) : Prop where
  packet : f.packet = p
  startNode : f.startNode = startNode
  endNode : f.endNode = endNode
  remaining : f.remainingTimeMs = f.totalTimeMs
  drawn : c.chaosMode = false → ∃ g : σ, f.totalTimeMs = baseDelayMs * c.delayMultiplier +
    (RandomSource.uniform 0 (80 * c.delayMultiplier) g).1
  kept : c.chaosMode = false → c.lossRate ≤ 0 → f.dropped = false

/-- The drawn delay is between the scaled delay and that with all the jitter. -/
theorem InFlightPacket.Launched.totalTime {σ : Type} [RandomSource σ] {c : NetworkConditions}
    {p : Packet} {a b d : Int} {f : InFlightPacket} (h : f.Launched σ c p a b d)
    (hc : c.chaosMode = false) (hm : 0 ≤ c.delayMultiplier) :
    d * c.delayMultiplier ≤ f.totalTimeMs ∧ f.totalTimeMs ≤ (d + 80) * c.delayMultiplier := by
  obtain ⟨g, hg⟩ := h.drawn hc
  have hr := RandomSource.uniform_range (a := 0) (b := 80 * c.delayMultiplier) g (by positivity)
  rw [hg]
  constructor <;> linarith [hr.1, hr.2]

namespace Engine

variable {σ : Type} [RandomSource σ]

/-! ### Draws -/

theorem drawRandom_spec (e : Engine σ) : ∃ x random, e.drawRandom = (x, { e with random }) :=
  ⟨_, _, rfl⟩

theorem sampleLinkDelay_spec (e : Engine σ) (baseDelayMs : Int) :
    ∃ d delayed random, e.sampleLinkDelay baseDelayMs = ((d, delayed), { e with random }) ∧
      (e.conditions.chaosMode = false → ∃ g : σ, d = baseDelayMs * e.conditions.delayMultiplier +
        (RandomSource.uniform 0 (80 * e.conditions.delayMultiplier) g).1) := by
  unfold sampleLinkDelay drawUniform drawRandom
  dsimp only
  split
  · rename_i hc
    split
    · exact ⟨_, _, _, rfl, fun h => absurd hc (by simp [h])⟩
    · exact ⟨_, _, _, rfl, fun h => absurd hc (by simp [h])⟩
  · exact ⟨_, _, _, rfl, fun _ => ⟨_, rfl⟩⟩

theorem shouldDropPacket_spec (e : Engine σ) :
    ∃ dropped random chaosDropRemaining,
      e.shouldDropPacket = (dropped, { e with random, chaosDropRemaining }) ∧
        (e.conditions.chaosMode = false → e.conditions.lossRate ≤ 0 → dropped = false) := by
  unfold shouldDropPacket drawInt drawRandom
  dsimp only
  split
  · rename_i hc
    split
    · exact ⟨_, _, _, rfl, fun h => absurd hc (by simp [h])⟩
    · split
      · exact ⟨_, _, _, rfl, fun h => absurd hc (by simp [h])⟩
      · exact ⟨_, _, _, rfl, fun h => absurd hc (by simp [h])⟩
  · refine ⟨_, _, _, rfl, fun _ hl => ?_⟩
    have h := (RandomSource.random_range e.random).1
    exact decide_eq_false (not_lt.mpr (hl.trans h))

theorem putOnLink_spec (e : Engine σ) (p : Packet) (a b baseDelayMs : Int) :
    ∃ f random chaosDropRemaining,
      InFlightPacket.Launched σ e.conditions p a b baseDelayMs f ∧
        e.putOnLink p a b baseDelayMs =
          { e with random, chaosDropRemaining, inFlightPackets := e.inFlightPackets ++ [f] } := by
  obtain ⟨d, delayed, g, hd, hrange⟩ := e.sampleLinkDelay_spec baseDelayMs
  obtain ⟨dropped, g', n, hdrop, hkept⟩ := shouldDropPacket_spec { e with random := g }
  refine ⟨{ packet := p, startNode := a, endNode := b, totalTimeMs := d, remainingTimeMs := d,
            delayed, dropped }, g', n, ⟨rfl, rfl, rfl, rfl, hrange, hkept⟩, ?_⟩
  simp only [putOnLink, hd, hdrop]

/-! ### Launches -/

/-- The copy of `p` that the link from `startNode` repeats. -/
def copyOf (e : Engine σ) (p : Packet) (startNode : Int) : Packet :=
  { (e.makePacket p.source p.destination p.packetType p.sequence p.ackFor p.retransmission true
      (some p.packetId)).1 with
    currentNode := startNode
    routeHistory := p.routeHistory }

/-- The packet goes onto the link alone, or with a copy. -/
theorem launchLink_cases {e e' : Engine σ} {p : Packet} {a b : Int}
    (h : e.launchLink p a b = .ok e') :
    ∃ d, e.graphManager.getEdgeDelay a b = .ok d ∧
      ∃ f random chaosDropRemaining, InFlightPacket.Launched σ e.conditions p a b d f ∧
        (e' = { e with random, chaosDropRemaining, inFlightPackets := e.inFlightPackets ++ [f] } ∨
          0 < e.conditions.duplicateRate ∧
            ∃ f', InFlightPacket.Launched σ e.conditions (e.copyOf p a) a b d f' ∧
              e' = { e with
                random, chaosDropRemaining
                nextPacketId := e.nextPacketId + 1
                stats := { e.stats with
                  packetsSent := e.stats.packetsSent + 1
                  duplicatePackets := e.stats.duplicatePackets + 1 }
                inFlightPackets := e.inFlightPackets ++ [f, f'] }) := by
  rw [launchLink, bind_eq_ok] at h
  obtain ⟨d, hd, h⟩ := h
  refine ⟨d, hd, ?_⟩
  obtain ⟨f, g, n, hf, he⟩ := e.putOnLink_spec p a b d
  dsimp only at h
  rw [he] at h
  split at h
  · rename_i hrate
    obtain ⟨x, g₁, hdraw⟩ := drawRandom_spec
      { e with
        random := g, chaosDropRemaining := n, inFlightPackets := e.inFlightPackets ++ [f] }
    rw [hdraw] at h
    dsimp only [makePacket] at h
    split at h
    · -- repeated: the copy's jitter and loss are drawn after those of the packet
      unfold injectDuplicateFlight at h
      dsimp only at h
      obtain ⟨f', g', n', hf', he'⟩ := putOnLink_spec
        { e with
          random := g₁
          chaosDropRemaining := n
          nextPacketId := e.nextPacketId + 1
          stats := { e.stats with
            packetsSent := e.stats.packetsSent + 1
            duplicatePackets := e.stats.duplicatePackets + 1 }
          inFlightPackets := e.inFlightPackets ++ [f] } (e.copyOf p a) a b d
      refine ⟨f, g', n', hf, .inr ⟨hrate, f', hf', ?_⟩⟩
      have := he'.symm.trans (Except.ok.inj h)
      rw [← this, List.append_assoc]
      rfl
    · -- drawn, and not repeated
      cases h
      exact ⟨f, _, n, hf, .inl rfl⟩
  · -- at a rate of zero nothing is drawn
    cases h
    exact ⟨f, g, n, hf, .inl rfl⟩

/-! ### Routers -/

/-- The engine once the packet at the head of router `id` is taken. -/
def takeHead [Clock] (e : Engine σ) (id : Int) (r : Router) (queue : List Packet) : Engine σ :=
  { e with routers := e.routers.modify id fun _ =>
      { r with queue, nextAvailableTimeMs := Clock.after e.currentTimeMs r.processingDelayMs } }

/-- A router waits, or its head packet is dropped by a rule or launched. -/
theorem dispatchRouter_cases [Clock] {e e' : Engine σ} {id : Int}
    (h : e.dispatchRouter id = .ok e') : ∃ r, e.routers.get? id = some r ∧
      ((r.queue = [] ∨ e.currentTimeMs < r.nextAvailableTimeMs) ∧ e' = e ∨
        ∃ p queue, r.queue = p :: queue ∧ r.nextAvailableTimeMs ≤ e.currentTimeMs ∧
          ((∃ value, r.applyRules p = some ⟨.drop, value⟩ ∧
              e' = (e.takeHead id r queue).recordDrop (some r.routerId) none "SDN drop") ∨
            ∃ hop, r.Chooses p hop ∧
              (e.takeHead id r queue).launchLink p r.routerId hop = .ok e')) := by
  rw [dispatchRouter, bind_eq_ok] at h
  obtain ⟨r, hr, h⟩ := h
  refine ⟨r, getItem_eq_ok.mp hr, ?_⟩
  dsimp only at h
  split at h
  · rename_i hq
    cases h
    exact .inl ⟨.inl hq, rfl⟩
  · rename_i p queue hq
    split at h
    · rename_i ht
      cases h
      exact .inl ⟨.inr ht, rfl⟩
    · rename_i ht
      refine .inr ⟨p, queue, hq, not_lt.mp ht, ?_⟩
      split at h
      · rename_i value hrule
        cases h
        exact .inl ⟨value, hrule, rfl⟩
      · rename_i hop hrule
        exact .inr ⟨hop, .inr hrule, h⟩
      · -- an action of any other kind raises
        cases h
      · rename_i hrule
        rw [bind_eq_ok] at h
        obtain ⟨hop, hhop, h⟩ := h
        exact .inr ⟨hop, .inl ⟨hrule, hhop⟩, h⟩

end Engine

end PacketSim
