import PacketSim.Engine.Flights
import PacketSim.Engine.Placement

/-!
# Engine — Timing

When a TCP run without losses retransmits.  As long as nothing is retransmitted, there is at most
one packet under way, and its timer runs.  `Track` follows that packet: in the queue of a router or
on a link, with the rest of its route, and in time to be back before the timer is due.

An update may find the packet's flight just short of its end, so a link takes up to its delay and
one more frame.  The round trip is in time for every sequence of frames no longer than `δ` if the
delays of both routes, at the upper end of the jitter, and a frame for each of their links do not
exceed the timeout: no run with such frames retransmits (`RunWithin.onTime`).
-/

namespace PacketSim
open Lib History

/-! ### Routes -/

/-- The links a packet takes from a node to `b`, by their delays.  Each takes longer than a router
is busy with a packet. -/
inductive Setting.Route (s : Setting) (b : Int) : Int → List Int → Prop where
  | here : Route s b b []
  | hop {u v d : Int} {r : Router} {l : List Int} (hu : u ≠ b) (hne : u ≠ v)
      (hr : s.routers.get? u = some r) (hhop : r.nextHop b = .ok v)
      (hd : s.graphManager.getEdgeDelay u v = .ok d)
      (hlong : processingDelayMs ≤ d * s.conditions.delayMultiplier) (h : Route s b v l) :
      Route s b u (d :: l)

/-- The longest a route takes, under the multiplier `m`, with frames of at most `δ`. -/
def routeTime (m δ : ℚ) (l : List Int) : ℚ := (l.map fun d : Int => (d + 80) * m + δ).sum

theorem routeTime_cons (m δ : ℚ) (d : Int) (l : List Int) :
    routeTime m δ (d :: l) = (d + 80) * m + δ + routeTime m δ l := rfl

/-- TCP mode with no loss, no chaos, no copies and no rules, on the routes `there` and `back`. -/
structure Setting.Calm (s : Setting) (there back : List Int) : Prop where
  tcp : s.mode = .tcp
  chaos : s.conditions.chaosMode = false
  loss : s.conditions.lossRate ≤ 0
  duplicates : s.conditions.duplicateRate ≤ 0
  multiplier : 0 ≤ s.conditions.delayMultiplier
  plain : ∀ v r, s.routers.get? v = some r →
    r.routerId = v ∧ r.rules = none ∧ r.processingDelayMs = processingDelayMs
  distinct : s.source ≠ s.destination
  route : s.Route s.destination s.source there
  returnRoute : s.Route s.source s.destination back

theorem Setting.Route.time_nonneg {s : Setting} {b u : Int} {l : List Int} {δ : ℚ}
    (h : s.Route b u l) (hm : 0 ≤ s.conditions.delayMultiplier) (hδ : 0 ≤ δ) :
    0 ≤ routeTime s.conditions.delayMultiplier δ l := by
  induction h with
  | here => exact le_rfl
  | hop _ _ _ _ _ hlong _ ih =>
      rw [routeTime_cons]
      have := processingDelayMs_pos
      linarith

theorem Setting.Route.eq_nil {s : Setting} {b u : Int} {l : List Int} (h : s.Route b u l)
    (heq : u = b) : l = [] := by
  cases h with
  | here => rfl
  | hop hu _ _ _ _ _ _ => exact absurd heq hu

theorem Setting.Route.eq_cons {s : Setting} {b u : Int} {l : List Int} (h : s.Route b u l)
    (hne : u ≠ b) : ∃ d l', l = d :: l' := by
  cases h with
  | here => exact absurd rfl hne
  | hop _ _ _ _ _ _ _ => exact ⟨_, _, rfl⟩

/-- The packet takes sequence `k` there, or its acknowledgement back. -/
def Packet.Carries (p : Packet) (s : Setting) (k : ℕ) : Prop :=
  p.packetType = .data ∧ p.sequence = k ∧ p.destination = s.destination ∨
    p.packetType = .ack ∧ p.ackFor = some k ∧ p.destination = s.source

theorem Packet.Carries.of_data {p : Packet} {s : Setting} {k : ℕ} (h : p.Carries s k)
    (hp : p.packetType = .data) : p.sequence = k ∧ p.destination = s.destination := by
  rcases h with ⟨-, h⟩ | ⟨hack, -⟩
  · exact h
  · cases hp.symm.trans hack

theorem Packet.Carries.of_ack {p : Packet} {s : Setting} {k : ℕ} (h : p.Carries s k)
    (hp : p.packetType = .ack) : p.ackFor = some k ∧ p.destination = s.source := by
  rcases h with ⟨hdata, -⟩ | ⟨-, h⟩
  · cases hp.symm.trans hdata
  · exact h

/-- The time still needed once the packet has arrived, if the way back takes `backTime`. -/
def Packet.returnTime (p : Packet) (backTime : ℚ) : ℚ :=
  if p.packetType = .data then backTime else 0

namespace Engine

variable {σ : Type}

/-! ### Gates -/

/-- The router is free again by `t`. -/
def FreeBy (e : Engine σ) (v : Int) (t : ℚ) : Prop := ∀ g, e.gates.get? v = some g → g ≤ t

theorem FreeBy.mono {e : Engine σ} {v : Int} {t t' : ℚ} (h : e.FreeBy v t) (ht : t ≤ t') :
    e.FreeBy v t' :=
  fun g hg => (h g hg).trans ht

theorem FreeBy.of_gates {e e' : Engine σ} {v : Int} {t : ℚ} (h : e.FreeBy v t)
    (he : e'.gates = e.gates) : e'.FreeBy v t := by
  rw [FreeBy, he]
  exact h

theorem FreeBy.router {e : Engine σ} {v : Int} {t : ℚ} {r : Router} (h : e.FreeBy v t)
    (hr : e.routers.get? v = some r) : r.nextAvailableTimeMs ≤ t :=
  h _ (by simp [gates, hr])

/-- A router that takes a packet off its queue is busy from now on. -/
theorem gates_takeHead {e : Engine σ} {x : Int} {r : Router} (hr : e.routers.get? x = some r)
    (queue : List Packet) (v : Int) : (e.takeHead x r queue).gates.get? v =
      if v = x then some (e.currentTimeMs + r.processingDelayMs) else e.gates.get? v := by
  rw [gates, takeHead, Dict.get?_map, Dict.get?_modify]
  split
  · rename_i hv
    rw [hv, hr]
    rfl
  · rw [gates, Dict.get?_map]

theorem noteDelivered_gates (e : Engine σ) (k : ℕ) : (e.noteDelivered k).gates = e.gates := by
  unfold noteDelivered
  split <;> rfl

/-! ### One packet under way -/

theorem heldAt_eq_zero {r : Router} {v : Int} : r.heldAt v = 0 ↔ r.queue = [] := by
  rw [Router.heldAt, Multiset.map_eq_zero, Multiset.coe_eq_zero]

/-- Where nothing is held in queues, the queues are empty. -/
theorem queue_nil {e : Engine σ} (h : ∀ v p, (.queue v, p) ∉ e.toNet.held) {v : Int} {r : Router}
    (hr : e.routers.get? v = some r) : r.queue = [] := by
  obtain ⟨M, hM, -⟩ := held_modify hr
  refine List.eq_nil_iff_forall_not_mem.mpr fun p hp => h v p ?_
  show (.queue v, p) ∈ e.held
  rw [hM]
  exact Multiset.mem_add.mpr (.inr (Multiset.mem_map_of_mem _ hp))

/-- What is held in a queue is in the queue of a router. -/
theorem exists_router {e : Engine σ} {v : Int} {p : Packet} (h : (.queue v, p) ∈ e.toNet.held) :
    ∃ r, e.routers.get? v = some r ∧ p ∈ r.queue := by
  rcases Multiset.mem_add.mp h with h | h
  · have hsum : ∀ l : List (Int × Router), (Place.queue v, p) ∈
        (l.map fun entry => entry.2.heldAt entry.1).sum → ∃ entry ∈ l, (Place.queue v, p) ∈
          entry.2.heldAt entry.1 := by
      intro l
      induction l with
      | nil => exact fun h => absurd h (Multiset.notMem_zero _)
      | cons x l ih =>
          intro h
          rw [List.map_cons, List.sum_cons, Multiset.mem_add] at h
          rcases h with h | h
          · exact ⟨x, by simp, h⟩
          · obtain ⟨y, hy, h⟩ := ih h
            exact ⟨y, List.mem_cons_of_mem _ hy, h⟩
    obtain ⟨⟨u, r⟩, hmem, h⟩ := hsum _ h
    obtain ⟨q, hq, heq⟩ := Multiset.mem_map.mp h
    cases heq
    exact ⟨r, Dict.get?_eq_some.mpr hmem, hq⟩
  · obtain ⟨f, -, hf⟩ := List.mem_map.mp (Multiset.mem_coe.mp h)
    cases hf

/-- The one packet held is at the head of its queue; the other queues and the links are empty. -/
theorem alone_in_queue {e : Engine σ} {v : Int} {p : Packet} (h : e.toNet.held = {(.queue v, p)}) :
    ∃ r, e.routers.get? v = some r ∧ r.queue = [p] ∧
      (∀ w s, w ≠ v → e.routers.get? w = some s → s.queue = []) ∧ e.inFlightPackets = [] := by
  have hle : ∀ {w : Int} {s : Router}, e.routers.get? w = some s →
      s.heldAt w ≤ {(Place.queue v, p)} := by
    intro w s hs
    obtain ⟨M, hM, -⟩ := held_modify hs
    have : e.held = {(Place.queue v, p)} := h
    rw [← this, hM]
    exact Multiset.le_add_left _ _
  obtain ⟨r, hr, hp⟩ := exists_router (v := v) (p := p)
    (by rw [h]; exact Multiset.mem_singleton_self _)
  refine ⟨r, hr, ?_, fun w s hw hs => ?_, ?_⟩
  · have hmap := (Multiset.le_singleton.mp (hle hr)).resolve_left fun h0 => by
      rw [heldAt_eq_zero.mp h0] at hp
      cases hp
    have hcard := congrArg Multiset.card hmap
    rw [Router.heldAt, Multiset.card_map, Multiset.coe_card, Multiset.card_singleton] at hcard
    obtain ⟨q, hq⟩ := List.length_eq_one_iff.mp hcard
    rw [hq] at hp ⊢
    rw [List.mem_singleton.mp hp]
  · refine heldAt_eq_zero.mp ((Multiset.le_singleton.mp (hle hs)).resolve_right fun hmap => ?_)
    have : (Place.queue v, p) ∈ s.heldAt w := hmap ▸ Multiset.mem_singleton_self _
    obtain ⟨q, -, heq⟩ := Multiset.mem_map.mp this
    cases heq
    exact hw rfl
  · refine List.eq_nil_iff_forall_not_mem.mpr fun f hf => ?_
    have : f.held ∈ e.toNet.held :=
      Multiset.mem_add.mpr (.inr (Multiset.mem_coe.mpr (List.mem_map_of_mem hf)))
    rw [h, Multiset.mem_singleton, InFlightPacket.held] at this
    cases this

/-! ### Dispatch -/

section Draws
variable [RandomSource σ]

theorem dispatchRouter_empty {e : Engine σ} {v : Int} {r : Router}
    (hr : e.routers.get? v = some r) (hq : r.queue = []) : e.dispatchRouter v = .ok e := by
  unfold dispatchRouter
  rw [getItem_eq_ok.mpr hr]
  simp only [bind, Except.bind, hq]
  rfl

theorem dispatch_empty {e : Engine σ} (h : ∀ v r, e.routers.get? v = some r → r.queue = [])
    {l : List Int} (hl : ∀ v ∈ l, v ∈ e.routers.keys) : l.foldlM dispatchRouter e = .ok e :=
  foldlM_fixed fun v hv =>
    let ⟨r, hr⟩ := Dict.mem_keys.mp (hl v hv)
    dispatchRouter_empty hr (h v r hr)

/-- Where one packet is held, at a free router, a round of dispatches is that router's turn. -/
theorem dispatchRouters_alone {e e' : Engine σ} {x : Int} {p : Packet} {r : Router}
    (hr : e.routers.get? x = some r) (hq : r.queue = [p])
    (hothers : ∀ w s, w ≠ x → e.routers.get? w = some s → s.queue = [])
    (hfree : r.nextAvailableTimeMs ≤ e.currentTimeMs) (h : e.dispatchRouters = .ok e') :
    e.dispatchRouter x = .ok e' := by
  have hperm := List.perm_insertionSort (· ≤ ·) e.routers.keys
  obtain ⟨l₁, l₂, hsplit⟩ := List.append_of_mem
    (hperm.mem_iff.mpr (Dict.mem_keys_of_get? hr))
  have hnodup : (l₁ ++ x :: l₂).Nodup := hsplit ▸ hperm.nodup_iff.mpr e.routers.keys_nodup
  rw [List.nodup_append, List.nodup_cons] at hnodup
  obtain ⟨-, ⟨hx₂, -⟩, hdisj⟩ := hnodup
  have hkeys : ∀ v ∈ l₁ ++ x :: l₂, v ∈ e.routers.keys := fun v hv =>
    hperm.mem_iff.mp (hsplit ▸ hv)
  have hother : ∀ v, v ≠ x → v ∈ e.routers.keys → e.dispatchRouter v = .ok e := fun v hv hmem =>
    let ⟨s, hs⟩ := Dict.mem_keys.mp hmem
    dispatchRouter_empty hs (hothers v s hv hs)
  rw [dispatchRouters, hsplit, List.foldlM_append, foldlM_fixed fun v hv =>
    hother v (hdisj v hv x (by simp)) (hkeys v (by simp [hv]))] at h
  change (x :: l₂).foldlM dispatchRouter e = .ok e' at h
  rw [List.foldlM_cons, bind_eq_ok] at h
  obtain ⟨e₁, h₁, h₂⟩ := h
  -- the head is gone, so the routers after `x` find their queues empty too
  have hempty : (∀ v s, e₁.routers.get? v = some s → s.queue = []) ∧
      e₁.routers.keys = e.routers.keys := by
    obtain ⟨r', hr', hcase⟩ := dispatchRouter_cases h₁
    obtain rfl : r' = r := Option.some.inj (hr'.symm.trans hr)
    have hrouters : e₁.routers = (e.takeHead x r' []).routers := by
      rcases hcase with ⟨hw, -⟩ | ⟨p', queue, hq', -, hcase⟩
      · rcases hw with hw | hw
        · rw [hq] at hw
          cases hw
        · exact absurd hw (not_lt.mpr hfree)
      · rw [hq] at hq'
        cases hq'
        rcases hcase with ⟨value, -, rfl⟩ | ⟨hop, -, h⟩
        · rfl
        · obtain ⟨d, -, f, g, n, -, rfl | ⟨-, f', -, rfl⟩⟩ := launchLink_cases h <;> rfl
    rw [hrouters]
    refine ⟨fun v s hs => ?_, Dict.keys_modify _ _ _⟩
    rw [takeHead, Dict.get?_modify] at hs
    split at hs
    · obtain ⟨_, -, rfl⟩ := Option.map_eq_some_iff.mp hs
      rfl
    · rename_i hv
      exact hothers v s (by tauto) hs
  rw [dispatch_empty hempty.1 fun v hv => hempty.2 ▸ hkeys v (by simp [hv])] at h₂
  rw [h₁, Except.ok.inj h₂]

end Draws

/-! ### The packet under way -/

/-- What is asked of the time, depending on where the packet is.  A packet in a queue was last
transmitted at `sent`, and the round trip ends at `finish` if every further link takes its longest.
A flight ends at `mark`, after which the round trip takes `rest` at its longest. -/
structure Bounds where
  resting : Prop
  inQueue (sent finish : ℚ) : Prop
  onLink (sent mark rest : ℚ) : Prop

/-- What an update that takes the clock from `before` to `now` does to the bounds. -/
structure Bounds.Leads (σ : Type) [RandomSource σ] (B B' : Bounds) (m δ roundTrip before now : ℚ) :
    Prop where
  send : B.resting → B.inQueue now (before + roundTrip)
  launch : ∀ (sent : ℚ) (d : Int) (rest : ℚ) (g : σ), processingDelayMs ≤ d * m →
    B.inQueue sent (before + ((d + 80) * m + δ + rest)) →
      B.onLink sent (before + (d * m + (RandomSource.uniform 0 (80 * m) g).1)) rest
  stay : ∀ sent mark rest, B.onLink sent mark rest → now < mark → B'.onLink sent mark rest
  arrive : ∀ sent mark rest, B.onLink sent mark rest → before < mark → mark ≤ now →
    B'.inQueue sent (now + rest)
  home : ∀ sent mark, B.onLink sent mark 0 → before < mark → mark ≤ now → B'.resting
  rest : B.resting → B'.resting

/-- Where the one packet is.  The last update, or in the one under way the update before it, brought
the clock to `now`. -/
inductive Track (e : Engine σ) (B : Bounds) (δ now : ℚ) (back : List Int) : Prop where
  | rest (haw : e.awaitingAck = none) (hheld : e.toNet.held = 0) (hfree : e.FreeBy e.source now)
      (htime : B.resting)
  | queue {k : ℕ} {sent : ℚ} {x d : Int} {p : Packet} {l : List Int} (haw : e.awaitingAck = some k)
      (ht : lastTransmission k e.history = some sent) (hheld : e.toNet.held = {(.queue x, p)})
      (hp : p.Carries e.setting k) (hroute : e.setting.Route p.destination x (d :: l))
      (hfree : e.FreeBy x now)
      (htime : B.inQueue sent (now + (routeTime e.conditions.delayMultiplier δ (d :: l) +
        p.returnTime (routeTime e.conditions.delayMultiplier δ back))))
  | flight {k : ℕ} {sent mark : ℚ} {f : InFlightPacket} {l : List Int}
      (haw : e.awaitingAck = some k) (ht : lastTransmission k e.history = some sent)
      (hheld : e.toNet.held = {f.held}) (hflights : e.inFlightPackets = [f])
      (hp : f.packet.Carries e.setting k)
      (hroute : e.setting.Route f.packet.destination f.endNode l) (hkept : f.dropped = false)
      (hne : f.endNode ≠ f.startNode) (hleft : f.remainingTimeMs = mark - now)
      (hpos : 0 < f.remainingTimeMs) (hothers : ∀ v, v ≠ f.startNode → e.FreeBy v mark)
      (htime : B.onLink sent mark (routeTime e.conditions.delayMultiplier δ l +
        f.packet.returnTime (routeTime e.conditions.delayMultiplier δ back)))

theorem Track.congr {e e' : Engine σ} {B : Bounds} {δ now : ℚ} {back : List Int}
    (h : e.Track B δ now back) (haw : e'.awaitingAck = e.awaitingAck)
    (hhist : e'.history = e.history) (hheld : e'.toNet.held = e.toNet.held)
    (hset : e'.setting = e.setting) (hu : e.Untouched e') : e'.Track B δ now back := by
  have hsrc : e'.source = e.source := congrArg Setting.source hset
  have hcond : e'.conditions = e.conditions := congrArg Setting.conditions hset
  cases h with
  | rest h₁ h₂ h₃ h₄ =>
      exact .rest (haw.trans h₁) (hheld.trans h₂) (hsrc ▸ h₃.of_gates hu.gates) h₄
  | queue h₁ h₂ h₃ h₄ h₅ h₆ h₇ =>
      exact .queue (haw.trans h₁) (hhist ▸ h₂) (hheld.trans h₃) (hset ▸ h₄) (hset ▸ h₅)
        (h₆.of_gates hu.gates) (hcond ▸ h₇)
  | flight h₁ h₂ h₃ h₄ h₅ h₆ h₇ h₈ h₉ h₁₀ h₁₁ h₁₂ =>
      exact .flight (haw.trans h₁) (hhist ▸ h₂) (hheld.trans h₃) (hu.flights.trans h₄) (hset ▸ h₅)
        (hset ▸ h₆) h₇ h₈ h₉ h₁₀ (fun v hv => (h₁₁ v hv).of_gates hu.gates) (hcond ▸ h₁₂)

section Calm
variable {B B' : Bounds} {δ now : ℚ} {there back : List Int} {e e' : Engine σ}

/-- The timer of the awaited acknowledgement is not due. -/
def Early (e : Engine σ) (now : ℚ) : Prop :=
  ∀ k sent, e.awaitingAck = some k → lastTransmission k e.history = some sent →
    now < sent + retransmissionTimeoutMs

/-! ### Events -/

/-- A due callback does nothing, or sends. -/
theorem Track.callback {ev : Event} {events : Heap Event Event.Before} {ph : Phase}
    (h : e.Track B δ now back) (hc : e.setting.Calm there back) (hholds : e.toNet.Holds ph)
    (hsend : B.resting → B.inQueue e.currentTimeMs
      (now + (routeTime e.conditions.delayMultiplier δ there +
        routeTime e.conditions.delayMultiplier δ back)))
    (hearly : e.Early e.currentTimeMs) (hpop : e.events.pop? = some (ev, events))
    (hdue : ev.dueTime ≤ e.currentTimeMs)
    (hcall : runCallback { e with events } ev.callback = .ok e') :
    e'.Track B δ now back ∧ e'.Early e'.currentTimeMs ∧
      e'.stats.retransmissions = e.stats.retransmissions := by
  have hev := pending_pop hpop
  have hu := runCallback_untouched hcall
  rcases runCallback_cases hcall with ⟨-, rfl⟩ | ⟨k, hcb, hk, hn⟩ | ⟨k, hcb, hrun, -, haw, -, -⟩
  · -- the callback is ignored
    exact ⟨h.congr rfl rfl rfl rfl ⟨rfl, rfl⟩, hearly, rfl⟩
  · -- the next send, so the last packet is back
    obtain ⟨rfl, -⟩ := hholds.eq_ready hev hcb
    have hnone : e.awaitingAck = none := hholds.awaiting
    cases h with
    | queue haw _ _ _ _ _ _ => cases hnone.symm.trans haw
    | flight haw _ _ _ _ _ _ _ _ _ _ _ => cases hnone.symm.trans haw
    | rest _ hheld hfree hrest =>
        rw [Net.transmit_tcp (toNet { e with events }) k false hc.tcp] at hn
        have hset : e'.setting = e.setting := congrArg Net.setting hn
        have hcond : e'.conditions = e.conditions := congrArg Setting.conditions hset
        have hclock : e'.currentTimeMs = e.currentTimeMs := congrArg Net.clock hn
        have haw : e'.awaitingAck = some k := congrArg Net.awaiting hn
        have hheld' : e'.toNet.held = {(.queue e.source, e.toNet.newPacket e.source e.destination
            .data k none false)} := by
          rw [hn]
          exact congrArg (_ ::ₘ ·) hheld
        have hlast : lastTransmission k e'.history = some e.currentTimeMs := by
          have : e'.history = .transmitted k false e.currentTimeMs :: e.history :=
            congrArg Net.history hn
          rw [this, lastTransmission_transmitted]
        refine ⟨?_, fun j sent hj hsent => ?_,
          congrArg (fun n : Net => n.stats.retransmissions) hn⟩
        · obtain ⟨d, l, rfl⟩ := hc.route.eq_cons hc.distinct
          refine .queue (d := d) (l := l) haw hlast hheld'
            (.inl ⟨rfl, rfl, (congrArg Setting.destination hset).symm⟩) ?_
            (hfree.of_gates hu.gates) ?_
          · rw [hset]
            exact hc.route
          · rw [hcond, Packet.returnTime, if_pos (by rfl)]
            exact hsend hrest
        · cases haw.symm.trans hj
          cases hlast.symm.trans hsent
          rw [hclock]
          have := retransmissionTimeoutMs_pos
          linarith
  · -- the live timer, which is not due
    obtain ⟨rfl, -, sent, hlast, hdue'⟩ := hholds.eq_waiting hev hcb haw
    have := hearly k sent haw hlast
    linarith

/-! ### Dispatch -/

/-- Only the gate of the router that launched closes. -/
theorem gates_launched {x : Int} {r : Router} {f : InFlightPacket} {random : σ}
    {chaosDropRemaining : ℕ} (hc : e.setting.Calm there back) (hr : e.routers.get? x = some r)
    (he' : e' = { e.takeHead x r [] with random, chaosDropRemaining, inFlightPackets := [f] })
    (v : Int) : e'.gates.get? v =
      if v = x then some (e.currentTimeMs + processingDelayMs) else e.gates.get? v := by
  have hbusy : r.processingDelayMs = processingDelayMs :=
    (hc.plain x r.wiring (router_toNet hr)).2.2
  have hgates : e'.gates = (e.takeHead x r []).gates := by
    rw [he']
    rfl
  rw [hgates, gates_takeHead hr, hbusy]

section Draws
variable [RandomSource σ]

/-- The one packet, in the queue of a free router, is put on the link to the next hop. -/
theorem launch_alone {x : Int} {p : Packet} (hc : e.setting.Calm there back)
    (hheld : e.toNet.held = {(.queue x, p)}) (hfree : e.FreeBy x e.currentTimeMs)
    (hd : e.dispatchRouters = .ok e') :
    ∃ r hop d f random chaosDropRemaining, e.routers.get? x = some r ∧
      r.nextHop p.destination = .ok hop ∧ e.graphManager.getEdgeDelay x hop = .ok d ∧
      InFlightPacket.Launched σ e.conditions p x hop d f ∧
      e' = { e.takeHead x r [] with random, chaosDropRemaining, inFlightPackets := [f] } ∧
      e'.toNet = { e.toNet with held := {f.held} } := by
  obtain ⟨r, hr, hq, hothers, hflights⟩ := alone_in_queue hheld
  obtain ⟨r', hr', hcase⟩ :=
    dispatchRouter_cases (dispatchRouters_alone hr hq hothers (hfree.router hr) hd)
  obtain rfl : r' = r := Option.some.inj (hr'.symm.trans hr)
  obtain ⟨hid, hrules, -⟩ := hc.plain x r'.wiring (router_toNet hr)
  change r'.routerId = x at hid
  have hnone : r'.applyRules p = none := by
    change r'.rules = none at hrules
    rw [Router.applyRules, hrules, Option.bind_none]
  rcases hcase with ⟨hw | hw, -⟩ | ⟨p', queue, hq', -, hcase⟩
  · rw [hq] at hw
    cases hw
  · exact absurd hw (not_lt.mpr (hfree.router hr))
  · rw [hq] at hq'
    cases hq'
    rcases hcase with ⟨value, hrule, -⟩ | ⟨hop, hchoose, hlaunch⟩
    · rw [hnone] at hrule
      cases hrule
    · have hnext : r'.nextHop p.destination = .ok hop := by
        rcases hchoose with ⟨-, h⟩ | h
        · exact h
        · rw [hnone] at h
          cases h
      rw [hid] at hlaunch
      obtain ⟨d, hdelay, f, g, n, hf, rfl | ⟨hrate, -⟩⟩ := launchLink_cases hlaunch
      · have heq : (e.takeHead x r' []).inFlightPackets ++ [f] = [f] := by
          show e.inFlightPackets ++ [f] = [f]
          rw [hflights, List.nil_append]
        refine ⟨r', hop, d, f, g, n, hr, hnext, hdelay, hf, by rw [heq], ?_⟩
        obtain ⟨M, hM, htake⟩ := takeHead_toNet hr hq
        have hM0 : M = 0 := by
          rw [hheld] at hM
          have := congrArg Multiset.card hM
          simpa using this
        have hqueued : (e.takeHead x r' []).queued = 0 := by
          have : (e.takeHead x r' []).toNet.held = 0 := by rw [htake, hM0]
          exact (add_eq_zero.mp this).1
        have hnet : ({ e.takeHead x r' [] with
            random := g, chaosDropRemaining := n, inFlightPackets := [f] } : Engine σ).toNet =
            { (e.takeHead x r' []).toNet with
              held := (e.takeHead x r' []).queued + ([f].map InFlightPacket.held : List _) } := rfl
        rw [heq, hnet, hqueued, htake, zero_add]
        rfl
      · exact absurd hrate (not_lt.mpr hc.duplicates)

/-- The packet launched is on the first link of its route. -/
theorem Track.launch {k : ℕ} {sent : ℚ} {x hop d d' : Int} {p : Packet} {r : Router}
    {l : List Int} {f : InFlightPacket} {random : σ} {chaosDropRemaining : ℕ}
    (hc : e.setting.Calm there back)
    (hlaunch : ∀ (sent : ℚ) (d : Int) (rest : ℚ) (g : σ),
      processingDelayMs ≤ d * e.conditions.delayMultiplier →
      B.inQueue sent (now + ((d + 80) * e.conditions.delayMultiplier + δ + rest)) →
        B.onLink sent (now + (d * e.conditions.delayMultiplier +
          (RandomSource.uniform 0 (80 * e.conditions.delayMultiplier) g).1)) rest)
    (hgates : ∀ v, e.FreeBy v (now + processingDelayMs))
    (haw : e.awaitingAck = some k) (ht : lastTransmission k e.history = some sent)
    (hp : p.Carries e.setting k) (hroute : e.setting.Route p.destination x (d :: l))
    (htime : B.inQueue sent (now + (routeTime e.conditions.delayMultiplier δ (d :: l) +
      p.returnTime (routeTime e.conditions.delayMultiplier δ back))))
    (hr : e.routers.get? x = some r) (hnext : r.nextHop p.destination = .ok hop)
    (hdelay : e.graphManager.getEdgeDelay x hop = .ok d')
    (hf : InFlightPacket.Launched σ e.conditions p x hop d' f)
    (he' : e' = { e.takeHead x r [] with random, chaosDropRemaining, inFlightPackets := [f] })
    (hnet : e'.toNet = { e.toNet with held := {f.held} }) : e'.Track B δ now back := by
  have hset : e'.setting = e.setting := congrArg Net.setting hnet
  have hcond : e'.conditions = e.conditions := congrArg Setting.conditions hset
  cases hroute with
  | @hop _ v _ r₀ _ hu hne hr₀ hhop₀ hd₀ hlong hrest =>
      obtain rfl : r₀ = r.wiring := Option.some.inj (hr₀.symm.trans (router_toNet hr))
      obtain rfl : v = hop := Except.ok.inj (hhop₀.symm.trans hnext)
      obtain rfl : d' = d := Except.ok.inj (hdelay.symm.trans hd₀)
      obtain ⟨g', hdrawn⟩ := hf.drawn hc.chaos
      have hstart : f.startNode = x := hf.startNode
      have hend : f.endNode = v := hf.endNode
      have hpacket : f.packet = p := hf.packet
      have hbusy := processingDelayMs_pos
      have hlow : processingDelayMs ≤ f.totalTimeMs :=
        hlong.trans (hf.totalTime hc.chaos hc.multiplier).1
      have ht' : lastTransmission k e'.history = some sent :=
        (congrArg (fun n : Net => lastTransmission k n.history) hnet).trans ht
      have hleft : f.remainingTimeMs = now + f.totalTimeMs - now := by
        rw [hf.remaining]
        ring
      refine .flight (f := f) (l := l) ?_ ht' (congrArg Net.held hnet) (by rw [he']) ?_ ?_
        (hf.kept hc.chaos hc.loss) ?_ hleft ?_ ?_ ?_
      · exact (congrArg Net.awaiting hnet).trans haw
      · rw [hset, hpacket]
        exact hp
      · rw [hset, hpacket, hend]
        exact hrest
      · rw [hstart, hend]
        exact hne.symm
      · rw [hf.remaining]
        linarith
      · intro w hw y hy
        rw [gates_launched hc hr he', if_neg (hstart ▸ hw)] at hy
        exact (hgates w y hy).trans (by linarith)
      · rw [hcond, hpacket, hdrawn]
        refine hlaunch sent d' _ g' hlong ?_
        rw [routeTime_cons, add_assoc] at htime
        exact htime

/-- After the routers' turn the packet is on a link, if there is one. -/
theorem Track.dispatch (h : e.Track B δ now back) (hc : e.setting.Calm there back)
    (hlaunch : ∀ (sent : ℚ) (d : Int) (rest : ℚ) (g : σ),
      processingDelayMs ≤ d * e.conditions.delayMultiplier →
      B.inQueue sent (now + ((d + 80) * e.conditions.delayMultiplier + δ + rest)) →
        B.onLink sent (now + (d * e.conditions.delayMultiplier +
          (RandomSource.uniform 0 (80 * e.conditions.delayMultiplier) g).1)) rest)
    (hnow : now ≤ e.currentTimeMs) (hgates : ∀ v, e.FreeBy v (now + processingDelayMs))
    (hd : e.dispatchRouters = .ok e') :
    e'.Track B δ now back ∧ (∀ v p, (.queue v, p) ∉ e'.toNet.held) ∧
      (∀ v, e'.FreeBy v (e.currentTimeMs + processingDelayMs)) ∧
      e'.stats.retransmissions = e.stats.retransmissions := by
  have hstill : (∀ v p, (.queue v, p) ∉ e.toNet.held) → e' = e := by
    intro hnone
    have := dispatch_empty (l := e.routers.keys.insertionSort (· ≤ ·))
      (fun v r hr => queue_nil hnone hr) fun v hv => (List.perm_insertionSort _ _).mem_iff.mp hv
    exact Except.ok.inj (hd.symm.trans this)
  have hgates' : ∀ v, e.FreeBy v (e.currentTimeMs + processingDelayMs) := fun v =>
    (hgates v).mono (by linarith)
  cases h with
  | rest haw hheld hfree htime =>
      have hnone : ∀ v p, (.queue v, p) ∉ e.toNet.held := by simp [hheld]
      rw [hstill hnone]
      exact ⟨.rest haw hheld hfree htime, hnone, hgates', rfl⟩
  | flight haw ht hheld hflights hp hroute hkept hne hleft hpos hothers htime =>
      have hnone : ∀ v p, (.queue v, p) ∉ e.toNet.held := by simp [hheld, InFlightPacket.held]
      rw [hstill hnone]
      exact ⟨.flight haw ht hheld hflights hp hroute hkept hne hleft hpos hothers htime, hnone,
        hgates', rfl⟩
  | @queue k sent x d p l haw ht hheld hp hroute hfree htime =>
      obtain ⟨r, hop, d', f, g, n, hr, hnext, hdelay, hf, he', hnet⟩ :=
        launch_alone hc hheld (hfree.mono hnow) hd
      refine ⟨.launch hc hlaunch hgates haw ht hp hroute htime hr hnext hdelay hf he' hnet,
        fun w q hq => ?_, fun w y hy => ?_, congrArg (fun n : Net => n.stats.retransmissions) hnet⟩
      · have hheld' := congrArg Net.held hnet
        rw [hheld', Multiset.mem_singleton, InFlightPacket.held] at hq
        cases hq
      · rw [gates_launched hc hr he'] at hy
        split at hy
        · cases hy
          exact le_rfl
        · exact hgates' w y hy

end Draws

/-! ### Flights -/

theorem handleArrival_gates {f : InFlightPacket} (h : e.handleArrival f = .ok e') :
    e'.gates = e.gates := by
  unfold handleArrival at h
  dsimp only at h
  split at h
  · split at h
    · unfold onDataReceived at h
      dsimp only at h
      split at h
      · exact (enqueue_untouched h).gates.trans (noteDelivered_gates _ _)
      · cases h
        exact noteDelivered_gates _ _
    · unfold onAckReceived at h
      split at h
      · cases h
        rfl
      · dsimp only at h
        split at h
        · cases h
          rfl
        · split at h
          · cases h
            rfl
          · exact (schedule_untouched h).gates
  · exact (enqueue_untouched h).gates

theorem Arrival.retransmissions {n n' : Net} {p : Packet} {node : Int} (h : Arrival n p node n') :
    n'.stats.retransmissions = n.stats.retransmissions := by
  cases h with
  | relay _ => rfl
  | data _ _ => exact Net.retransmissions_receive _ _
  | ignored _ _ _ => rfl
  | accepted _ _ _ _ => exact Net.retransmissions_accept _ _

/-- The one flight is aged, lost, or arrives. -/
theorem advance_alone {f : InFlightPacket} {dt : ℚ} (hf : e.inFlightPackets = [f])
    (h : e.advanceInFlightPackets dt = .ok e') :
    (0 < (f.aged dt).remainingTimeMs ∧ e' = e.withFlights [f.aged dt]) ∨
      ¬ 0 < (f.aged dt).remainingTimeMs ∧
        (f.dropped = true ∨ (e.withFlights []).handleArrival (f.aged dt) = .ok e') := by
  rw [advanceInFlightPackets, hf, List.foldlM_cons, bind_eq_ok] at h
  obtain ⟨st, h, h'⟩ := h
  rw [bind_eq_ok] at h
  obtain ⟨st₁, h₁, h₂⟩ := h
  cases h₂
  cases h'
  unfold advanceFlight at h₁
  dsimp only at h₁
  split at h₁
  · rename_i hpos
    cases h₁
    exact .inl ⟨hpos, rfl⟩
  · rename_i hpos
    refine .inr ⟨hpos, ?_⟩
    split at h₁
    · exact .inl ‹_›
    · rw [bind_eq_ok] at h₁
      obtain ⟨e₁, h₁, h'⟩ := h₁
      cases h'
      exact .inr (handleArrival_withFlights [] h₁)

/-- The packet at the end of its link: in the next queue, on its way back, or home. -/
theorem Track.arrive {k : ℕ} {sent : ℚ} {f : InFlightPacket} {l : List Int}
    (hc : e.setting.Calm there back) (haw : e.awaitingAck = some k)
    (ht : lastTransmission k e.history = some sent) (hp : f.packet.Carries e.setting k)
    (hroute : e.setting.Route f.packet.destination f.endNode l)
    (hfree : e.FreeBy f.endNode e.currentTimeMs) (hgates : e'.gates = e.gates)
    (hqueue : B.inQueue sent (e.currentTimeMs + (routeTime e.conditions.delayMultiplier δ l +
      f.packet.returnTime (routeTime e.conditions.delayMultiplier δ back))))
    (hhome : routeTime e.conditions.delayMultiplier δ l +
      f.packet.returnTime (routeTime e.conditions.delayMultiplier δ back) = 0 → B.resting)
    (hnet : Arrival { e.toNet with held := 0 } f.packet f.endNode e'.toNet) :
    e'.Track B δ e.currentTimeMs back := by
  generalize hn' : e'.toNet = n' at hnet
  cases hnet with
  | relay hdst =>
      have hset : e'.setting = e.setting := congrArg Net.setting hn'
      have hcond : e'.conditions = e.conditions := congrArg Setting.conditions hset
      obtain ⟨d, l', rfl⟩ := hroute.eq_cons hdst
      refine .queue (d := d) (l := l')
        ((congrArg Net.awaiting hn').trans haw)
        ((congrArg (fun n : Net => lastTransmission k n.history) hn').trans ht)
        (congrArg Net.held hn') ?_ ?_ (hfree.of_gates hgates) ?_
      · rw [hset]
        exact hp
      · rw [hset]
        exact hroute
      · rw [hcond]
        exact hqueue
  | data hdst htype =>
      -- the acknowledgement starts back
      obtain ⟨rfl, hdest⟩ := hp.of_data htype
      have hm : (Net.arrive { e.toNet with held := 0 } 0
          (f.packet.arriveAt f.endNode)).setting.mode = .tcp := hc.tcp
      change e'.toNet = (Net.arrive { e.toNet with held := 0 } 0
        (f.packet.arriveAt f.endNode)).receive f.packet.sequence at hn'
      rw [Net.receive_tcp _ _ hm] at hn'
      have hset : e'.setting = e.setting := congrArg Net.setting hn'
      have hcond : e'.conditions = e.conditions := congrArg Setting.conditions hset
      have hl : l = [] := hroute.eq_nil hdst
      obtain ⟨d, l', rfl⟩ := hc.returnRoute.eq_cons hc.distinct.symm
      refine .queue (d := d) (l := l')
        ((congrArg Net.awaiting hn').trans haw)
        ((congrArg (fun n : Net => lastTransmission _ n.history) hn').trans ht)
        (congrArg Net.held hn')
        (.inr ⟨rfl, rfl, (congrArg Setting.source hset).symm⟩) ?_ ?_ ?_
      · rw [hset]
        exact hc.returnRoute
      · have : f.endNode = e.destination := hdst.trans hdest
        exact this ▸ hfree.of_gates hgates
      · rw [hl, Packet.returnTime, if_pos (show f.packet.packetType = .data from htype)] at hqueue
        rw [hcond, Packet.returnTime, if_neg (by simp [Net.newPacket]), add_zero]
        simpa [routeTime] using hqueue
  | ignored hdst htype hne =>
      obtain ⟨hack, -⟩ := hp.of_ack htype
      exact absurd hack (hne k haw)
  | @accepted j hdst htype hk hack =>
      obtain ⟨-, hdest⟩ := hp.of_ack htype
      have hacc : ∀ n : Net, (n.accept j).awaiting = none ∧ (n.accept j).held = n.held ∧
          (n.accept j).setting = n.setting := by
        intro n
        rw [Net.accept_eq n j]
        exact ⟨rfl, rfl, rfl⟩
      have hset : e'.setting = e.setting := (congrArg Net.setting hn').trans (hacc _).2.2
      have hsrc : f.endNode = e'.source :=
        (hdst.trans hdest).trans (congrArg Setting.source hset).symm
      have hl : l = [] := hroute.eq_nil hdst
      refine .rest ?_ ?_ (hsrc ▸ hfree.of_gates hgates) (hhome ?_)
      · exact (congrArg Net.awaiting hn').trans (hacc _).1
      · exact (congrArg Net.held hn').trans (hacc _).2.1
      · -- neither a link nor a way back is left
        rw [hl, Packet.returnTime, if_neg fun hd => by cases htype.symm.trans hd]
        simp [routeTime]

/-- The flights advance: the packet stays on its link, or is in the queue of a router, or back. -/
theorem Track.advance {dt : ℚ} (h : e.Track B δ now back) (hc : e.setting.Calm there back)
    (hclock : e.currentTimeMs = now + dt) (hdt : 0 ≤ dt)
    (hstay : ∀ sent mark rest, B.onLink sent mark rest → e.currentTimeMs < mark →
      B'.onLink sent mark rest)
    (harrive : ∀ sent mark rest, B.onLink sent mark rest → now < mark → mark ≤ e.currentTimeMs →
      B'.inQueue sent (e.currentTimeMs + rest))
    (hhome : ∀ sent mark, B.onLink sent mark 0 → now < mark → mark ≤ e.currentTimeMs → B'.resting)
    (hrest : B.resting → B'.resting) (hnone : ∀ v p, (.queue v, p) ∉ e.toNet.held)
    (ha : e.advanceInFlightPackets dt = .ok e') :
    e'.Track B' δ e.currentTimeMs back ∧ e'.gates = e.gates ∧
      e'.stats.retransmissions = e.stats.retransmissions := by
  have hnow : now ≤ e.currentTimeMs := by linarith
  cases h with
  | @queue _ _ x _ p _ _ _ hheld _ _ _ _ =>
      exact absurd (hheld ▸ Multiset.mem_singleton_self _) (hnone x p)
  | rest haw hheld hfree htime =>
      have hflights : e.inFlightPackets = [] := by
        have : (e.inFlightPackets.map InFlightPacket.held : Multiset (Place × Packet)) = 0 :=
          (add_eq_zero.mp hheld).2
        simpa using this
      rw [advanceInFlightPackets, hflights] at ha
      cases ha
      have heq : ({ e with inFlightPackets := [] } : Engine σ) = e := by rw [← hflights]
      rw [heq]
      exact ⟨.rest haw hheld (hfree.mono hnow) (hrest htime), rfl, rfl⟩
  | @flight k sent mark f l haw ht hheld hflights hp hroute hkept hne hleft hpos hothers htime =>
      have hqueued : e.queued = 0 := by
        have : e.queued + {f.held} = {f.held} := by
          have := hheld
          rw [toNet, held, hflights] at this
          exact this
        simpa using this
      have hleft' : (f.aged dt).remainingTimeMs = mark - e.currentTimeMs := by
        rw [InFlightPacket.aged, hclock]
        linarith
      rcases advance_alone hflights ha with ⟨hpos', rfl⟩ | ⟨hpos', hlost | harr⟩
      · refine ⟨.flight (f := f.aged dt) (l := l) haw ht ?_ rfl
          hp hroute hkept hne hleft' hpos' hothers (hstay _ _ _ htime (by linarith)), rfl, rfl⟩
        rw [withFlights_toNet, hqueued, zero_add]
        rfl
      · rw [hkept] at hlost
        cases hlost
      · have hbefore : now < mark := by linarith
        have harrived : mark ≤ e.currentTimeMs := by linarith
        have hfree : e.FreeBy f.endNode e.currentTimeMs := (hothers _ hne).mono harrived
        have hgates := handleArrival_gates harr
        change e'.gates = e.gates at hgates
        have hnet := handleArrival_cases harr
        have hn : (e.withFlights []).toNet = { e.toNet with held := 0 } := by
          rw [withFlights_toNet, hqueued]
          rfl
        rw [hn] at hnet
        have hqueue := harrive _ _ _ htime hbefore harrived
        refine ⟨.arrive (f := f.aged dt) hc haw ht hp hroute hfree hgates hqueue (fun h0 => ?_)
          hnet, hgates, hnet.retransmissions⟩
        exact hhome sent mark (h0 ▸ htime) hbefore harrived

/-! ### Updates -/

/-- What holds between the updates of a run without losses that has not retransmitted. -/
structure OnTime (e : Engine σ) (B : Bounds) (δ : ℚ) (back : List Int) : Prop where
  track : e.Track B δ e.currentTimeMs back
  gates : ∀ v, e.FreeBy v (e.currentTimeMs + processingDelayMs)
  retransmissions : e.stats.retransmissions = 0

theorem startRun_onTime (hm : e.mode = .tcp) (hB : B.resting) (h : e.startRun = .ok e') :
    e'.OnTime B δ back := by
  have hnet := startRun_toNet h
  have hgates : ∀ v g, e'.gates.get? v = some g → g = 0 := by
    intro v g hg
    rw [(schedule_untouched ((startRun_tcp hm).mp h)).gates, gates, Dict.get?_map] at hg
    obtain ⟨r, hr, rfl⟩ := Option.map_eq_some_iff.mp hg
    have : e.begun.routers = e.routers.map fun _ r =>
      { r with queue := [], nextAvailableTimeMs := 0 } := rfl
    rw [this, Dict.get?_map] at hr
    obtain ⟨_, -, rfl⟩ := Option.map_eq_some_iff.mp hr
    rfl
  have hclock : e'.currentTimeMs = 0 := congrArg Net.clock hnet
  refine ⟨.rest (congrArg Net.awaiting hnet) (congrArg Net.held hnet) (fun g hg => ?_) hB,
    fun v g hg => ?_, congrArg (fun n : Net => n.stats.retransmissions) hnet⟩
  · rw [hgates _ g hg, hclock]
  · rw [hgates _ g hg, hclock]
    linarith [processingDelayMs_pos]

theorem OnTime.checkFinished (h : e.OnTime B δ back) : e.checkFinished.OnTime B δ back := by
  unfold Engine.checkFinished finishRun
  split_ifs <;> exact ⟨h.track.congr rfl rfl rfl rfl ⟨rfl, rfl⟩, h.gates, h.retransmissions⟩

/-- The packet will be back before its timer is due, whatever the next frame. -/
def Bounds.timely (δ : ℚ) : Bounds where
  resting := True
  inQueue sent finish := finish ≤ sent + retransmissionTimeoutMs
  onLink sent mark rest := mark + δ + rest ≤ sent + retransmissionTimeoutMs

/-- While the round trip is in time, the timer is more than a frame away. -/
theorem Track.early (h : e.Track (.timely δ) δ now back) (hc : e.setting.Calm there back)
    (hδ : 0 ≤ δ) : e.Early (now + δ) := by
  have hback : 0 ≤ routeTime e.conditions.delayMultiplier δ back :=
    hc.returnRoute.time_nonneg hc.multiplier hδ
  have hreturn : ∀ p : Packet,
      0 ≤ p.returnTime (routeTime e.conditions.delayMultiplier δ back) := by
    intro p
    unfold Packet.returnTime
    split
    · exact hback
    · exact le_rfl
  have hbusy := processingDelayMs_pos
  intro j sent hj hsent
  cases h with
  | rest hnone _ _ _ =>
      rw [hj] at hnone
      cases hnone
  | @queue k sent' x d p l haw ht _ _ hroute _ htime =>
      cases hj.symm.trans haw
      cases hsent.symm.trans ht
      cases hroute with
      | hop _ _ _ _ _ hlong hrest =>
          have hl : 0 ≤ routeTime e.conditions.delayMultiplier δ l :=
            hrest.time_nonneg hc.multiplier hδ
          have hm : 0 ≤ e.conditions.delayMultiplier := hc.multiplier
          have hp := hreturn p
          change processingDelayMs ≤ (d : ℚ) * e.conditions.delayMultiplier at hlong
          change now + (routeTime _ δ (d :: l) + _) ≤ sent + retransmissionTimeoutMs at htime
          rw [routeTime_cons] at htime
          linarith
  | @flight k sent' mark f l haw ht _ _ _ hroute _ _ hleft hpos _ htime =>
      cases hj.symm.trans haw
      cases hsent.symm.trans ht
      have hl : 0 ≤ routeTime e.conditions.delayMultiplier δ l :=
        hroute.time_nonneg hc.multiplier hδ
      have hp := hreturn f.packet
      change mark + δ + (routeTime _ δ l + _) ≤ sent + retransmissionTimeoutMs at htime
      linarith

/-- The events of an update in which the timer is not due. -/
theorem OnTime.events {s : Setting} {dt : ℚ} (h : e.OnTime B δ back) (hc : s.Calm there back)
    (hr : Net.Run s e.toNet) (hrun : e.running = true) (hdt : 0 ≤ dt)
    (hearly : e.Early (e.currentTimeMs + dt))
    (hsend : B.resting → B.inQueue (e.currentTimeMs + dt) (e.currentTimeMs +
      (routeTime s.conditions.delayMultiplier δ there +
        routeTime s.conditions.delayMultiplier δ back)))
    (h₁ : runDueEvents e.events.items.length (e.ticked dt) = .ok e') :
    e'.Track B δ e.currentTimeMs back ∧ e'.stats.retransmissions = 0 := by
  have hevents := runDueEvents_run (s := s)
    (P := fun x : Engine σ => x.Track B δ e.currentTimeMs back ∧ x.Early x.currentTimeMs ∧
      x.stats.retransmissions = 0)
    (fun x x' ev events hxr hxc hpop hdue hcall ⟨hxt, hxe, hx0⟩ => by
      have hset : x.setting = s := hxr.setting
      obtain ⟨ph, hph⟩ := hxr.holds hc.tcp
      subst hset
      obtain ⟨ht, he, hre⟩ := hxt.callback hc hph (hxc.symm ▸ hsend) hxe hpop hdue hcall
      exact ⟨ht, he, hre.trans hx0⟩)
    h₁ (hr.tick hrun hdt) hrun
    ⟨h.track.congr rfl rfl rfl rfl ⟨rfl, rfl⟩, hearly, h.retransmissions⟩
  exact ⟨hevents.2.1, hevents.2.2.2⟩

section Draws
variable [RandomSource σ]

/-- The rest of the update: the routers' turn, and the flights. -/
theorem Track.settle {dt : ℚ} {e₂ : Engine σ} (h : e.Track B δ now back)
    (hc : e.setting.Calm there back) (hclock : e.currentTimeMs = now + dt) (hdt : 0 ≤ dt)
    (hgates : ∀ v, e.FreeBy v (now + processingDelayMs))
    (hB : B.Leads σ B' e.conditions.delayMultiplier δ
      (routeTime e.conditions.delayMultiplier δ there +
        routeTime e.conditions.delayMultiplier δ back) now (now + dt))
    (hre : e.stats.retransmissions = 0) (h₂ : e.dispatchRouters = .ok e₂)
    (h₃ : e₂.advanceInFlightPackets dt = .ok e') : e'.OnTime B' δ back := by
  obtain ⟨htrack₂, hnone, hgates₂, hre₂⟩ := h.dispatch hc hB.launch (by linarith) hgates h₂
  have hframe₂ := (dispatchRouters_steps h₂).frame
  have hset₂ : e₂.setting = e.setting := hframe₂.1
  have hclock₂ : e₂.currentTimeMs = now + dt := hframe₂.2.1.trans hclock
  have hstay := hB.stay
  have harrive := hB.arrive
  have hhome := hB.home
  rw [← hclock₂] at hstay harrive hhome
  obtain ⟨htrack', hgates', hre'⟩ := htrack₂.advance (hset₂ ▸ hc) hclock₂ hdt hstay harrive hhome
    hB.rest hnone h₃
  have hclock' : e'.currentTimeMs = e₂.currentTimeMs :=
    (advanceInFlightPackets_steps h₃).frame.2.1
  refine ⟨hclock' ▸ htrack', fun v => ?_, hre'.trans (hre₂.trans hre)⟩
  rw [hclock', hclock₂, ← hclock]
  exact (hgates₂ v).of_gates hgates'

/-- An update in which the timer is not due, up to its last check. -/
theorem OnTime.stages {s : Setting} {dt : ℚ} {e₁ e₂ e₃ : Engine σ} (h : e.OnTime B δ back)
    (hc : s.Calm there back) (hr : Net.Run s e.toNet) (hrun : e.running = true) (hdt : 0 ≤ dt)
    (hearly : e.Early (e.currentTimeMs + dt))
    (hB : B.Leads σ B' s.conditions.delayMultiplier δ
      (routeTime s.conditions.delayMultiplier δ there +
        routeTime s.conditions.delayMultiplier δ back) e.currentTimeMs (e.currentTimeMs + dt))
    (h₁ : runDueEvents e.events.items.length (e.ticked dt) = .ok e₁)
    (h₂ : e₁.dispatchRouters = .ok e₂) (h₃ : e₂.advanceInFlightPackets dt = .ok e₃) :
    e₃.OnTime B' δ back := by
  obtain ⟨htrack₁, hre₁⟩ := h.events hc hr hrun hdt hearly hB.send h₁
  have hframe₁ := (runDueEvents_steps h₁).frame
  have hset₁ : e₁.setting = s := hframe₁.1.trans hr.setting
  subst hset₁
  have hgates₁ : ∀ v, e₁.FreeBy v (e.currentTimeMs + processingDelayMs) := fun v =>
    (h.gates v).of_gates (runDueEvents_untouched h₁).gates
  exact htrack₁.settle hc hframe₁.2.1 hdt hgates₁ hB hre₁ h₂ h₃

/-! ### Runs with short frames -/

/-- The states of a run with frames of at most `δ`. -/
inductive RunWithin (e₀ : Engine σ) (δ : ℚ) : Engine σ → Prop where
  | start {e : Engine σ} (h : e₀.startRun = .ok e) : RunWithin e₀ δ e
  | update {e e' : Engine σ} {dtMs : ℚ} (t : RunWithin e₀ δ e) (hdt : 0 ≤ dtMs) (hδ : dtMs ≤ δ)
      (h : e.update dtMs = .ok e') : RunWithin e₀ δ e'

theorem RunWithin.run {e₀ : Engine σ} (h : RunWithin e₀ δ e) : Run e₀ e := by
  induction h with
  | start h => exact .start h
  | update _ hdt _ h ih => exact ih.update hdt h

theorem Bounds.timely_leads {m roundTrip before now : ℚ} (hm : 0 ≤ m) (hle : before ≤ now)
    (hδ : now ≤ before + δ) (htrip : roundTrip ≤ retransmissionTimeoutMs) :
    (timely δ).Leads σ (timely δ) m δ roundTrip before now where
  send _ := by
    show before + roundTrip ≤ now + retransmissionTimeoutMs
    linarith
  launch sent d rest g _ h := by
    have hr := (RandomSource.uniform_range (a := 0) (b := 80 * m) g (by positivity)).2
    change before + ((d + 80) * m + δ + rest) ≤ sent + retransmissionTimeoutMs at h
    show before + (d * m + _) + δ + rest ≤ sent + retransmissionTimeoutMs
    linarith
  stay _ _ _ h _ := h
  arrive sent mark rest h hbefore _ := by
    change mark + δ + rest ≤ sent + retransmissionTimeoutMs at h
    show now + rest ≤ sent + retransmissionTimeoutMs
    linarith
  home _ _ _ _ _ := trivial
  rest _ := trivial

/-- No run whose frames are short enough retransmits. -/
theorem RunWithin.onTime {e₀ : Engine σ} (h : RunWithin e₀ δ e) (hc : e₀.setting.Calm there back)
    (hδ : 0 ≤ δ) (htrip : routeTime e₀.conditions.delayMultiplier δ there +
      routeTime e₀.conditions.delayMultiplier δ back ≤ retransmissionTimeoutMs) :
    e.OnTime (.timely δ) δ back := by
  induction h with
  | start h => exact startRun_onTime hc.tcp trivial h
  | @update e e' dt h hdt hle hu ih =>
      have hr := h.run.toNet
      have hset : e.setting = e₀.setting := hr.setting
      cases hrun : e.running with
      | false =>
          rw [update_idle dt hrun] at hu
          cases hu
          exact ⟨ih.track.congr rfl rfl rfl rfl ⟨rfl, rfl⟩, ih.gates, ih.retransmissions⟩
      | true =>
          obtain ⟨e₁, e₂, e₃, h₁, h₂, h₃, rfl⟩ := (update_eq_ok hrun).mp hu
          have hearly : e.Early (e.currentTimeMs + dt) := fun k sent hk hsent =>
            lt_of_le_of_lt (by linarith) (ih.track.early (hset ▸ hc) hδ k sent hk hsent)
          exact (ih.stages hc hr hrun hdt hearly (Bounds.timely_leads hc.multiplier (by linarith)
            (by linarith) htrip) h₁ h₂ h₃).checkFinished

end Draws

end Calm

end Engine

end PacketSim
