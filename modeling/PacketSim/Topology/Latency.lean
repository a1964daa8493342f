import PacketSim.Topology.Delivery

/-!
# Topology — Latency

No message outruns its links.  A router keeps the message it holds until the delay of the link it
is to cross has passed since it took it (`last_sent`), so on a clock that never runs back a message
is as late as the delays of the links it has crossed, together (`takes_its_time`).
-/

namespace PacketSim.Topology

open Lib

variable {ids : List Int} {m m' : Manager} {r : Router} {next : Int → Int → Option Int} {now : Int}
  {delay : Int → Int → Int} {message : Message} {start clock : Int}

/-- The delay of the link between two nodes; a link without one takes no time. -/
def linkDelay (routers : List Router) (node nextHop : Int) : Int :=
  ((routers.find? fun r => r.routerId = node).bind fun r => r.delays.get? nextHop).getD 0

theorem subscript_fst (d : Dict Int Int) (k : Int) : (subscript d k).1 = (d.get? k).getD 0 := by
  unfold subscript
  split <;> simp [*]

/-- A missing key entered with the value 0 reads as before. -/
theorem getD_subscript (d : Dict Int Int) (k j : Int) :
    ((subscript d k).2.get? j).getD 0 = (d.get? j).getD 0 := by
  unfold subscript
  split
  · rfl
  · rename_i hk
    rw [Dict.get?_insert]
    split_ifs with hj
    · rw [hj, hk]
      rfl
    · rfl

/-- A router after `add_message` is as before, but for its queue. -/
theorem getElem?_enqueue {routers : List Router} {routerId : Int} {added : Message} {j : ℕ}
    {r' : Router} (hj : (enqueue routers routerId added)[j]? = some r') :
    ∃ r₀, routers[j]? = some r₀ ∧ (r' = r₀ ∨ r' = r₀.addMessage added) := by
  have hlt : j < routers.length := by
    have := (List.getElem?_eq_some_iff.mp hj).1
    rwa [← List.length_map Router.routerId, ids_enqueue, List.length_map] at this
  have hj₀ := List.getElem?_eq_getElem hlt
  obtain ⟨r₂, hr₂, ho⟩ : ∃ r₂, (enqueue routers routerId added)[j]? = some r₂ ∧
      (r₂ = routers[j] ∨ r₂ = routers[j].addMessage added) := getElem?_modifyFirst hj₀
  obtain rfl : r₂ = r' := Option.some.inj (hr₂.symm.trans hj)
  exact ⟨_, hj₀, ho⟩

namespace Manager

/-- The delays of the links the message has crossed, together. -/
def crossed (delay : Int → Int → Int) (m : Manager) (message : Message) : Int :=
  ((m.forwards message).map fun h => delay h.1 h.2).sum

/-- The messages are in place, and the routers' delays read as `delay`. -/
structure Delayed (delay : Int → Int → Int) (ids : List Int) (m : Manager) : Prop where
  conserved : m.Conserved ids
  delays : ∀ r ∈ m.routers, ∀ v, (r.delays.get? v).getD 0 = delay r.routerId v

theorem delays_enqueue {routers : List Router}
    (h : ∀ r ∈ routers, ∀ v, (r.delays.get? v).getD 0 = delay r.routerId v) (routerId : Int)
    (added : Message) : ∀ r ∈ enqueue routers routerId added, ∀ v,
      (r.delays.get? v).getD 0 = delay r.routerId v := by
  intro r hr
  obtain ⟨r₀, hr₀, ho⟩ := mem_modifyFirst hr
  have hdelays := h r₀ hr₀
  rcases ho with rfl | rfl <;> exact hdelays

theorem Delayed.move (h : m.Delayed delay ids) (hm : Move now m m') : m'.Delayed delay ids := by
  refine ⟨h.conserved.moved hm, fun r' hr' => ?_⟩
  cases hm with
  | @send i r hi hq _ =>
      obtain ⟨r₁, hr₁, -, -, -, heq⟩ := send_routers hi hq
      have henq := delays_enqueue h.delays r.nextMsg.1 r.nextMsg.2
      rw [heq] at hr'
      rcases List.mem_or_eq_of_mem_set hr' with hr' | rfl
      · exact henq r' hr'
      · exact henq r₁ (List.mem_of_getElem? hr₁)
  | @prepare i r first queue hi hfree hqueue =>
      have hr := List.mem_of_getElem? hi
      rcases List.mem_or_eq_of_mem_set hr' with hr' | rfl
      · exact h.delays r' hr'
      · rcases Router.prepare_cases (h.conserved.sound r hr) hqueue now with
          ⟨-, heq⟩ | ⟨-, nextHop, -, heq⟩
        · rw [heq]
          exact h.delays r hr
        · rw [heq]
          exact fun v => (getD_subscript r.delays nextHop v).trans (h.delays r hr v)

theorem Delayed.pass (h : m.Delayed delay ids) (now : ℕ → Int) (k : ℕ) :
    (m.pass now k).Delayed delay ids := pass_keeps (fun h hm => Delayed.move h hm) h now k

theorem Delayed.addMessage (h : m.Delayed delay ids) {source destination : Int}
    (hs : source ∈ ids) (hd : destination ∈ ids) :
    (m.addMessage source destination).Delayed delay ids :=
  ⟨h.conserved.addMessage hs hd, delays_enqueue h.delays source _⟩

/-- The message was added at `start`, and has taken its time so far. -/
structure OnSchedule (delay : Int → Int → Int) (message : Message) (start clock : Int)
    (m : Manager) : Prop where
  late : start + m.crossed delay message ≤ clock
  waits : ∀ (i : ℕ) (r : Router), m.routers[i]? = some r → r.messageQueued = true →
    r.nextMsg.2 = message →
      start + m.crossed delay message + delay r.routerId r.nextMsg.1 ≤ r.lastSent

theorem OnSchedule.mono (h : m.OnSchedule delay message start clock) (hle : clock ≤ now) :
    m.OnSchedule delay message start now := ⟨h.late.trans hle, h.waits⟩

/-- Two routers do not hold one message. -/
theorem held_once (h : m.Conserved ids) {i j : ℕ} (hij : i ≠ j) {r r' : Router}
    (hi : m.routers[i]? = some r) (hj : m.routers[j]? = some r') (hq : r.messageQueued = true)
    (hq' : r'.messageQueued = true) : r.nextMsg.2 ≠ r'.nextMsg.2 := by
  intro heq
  have hmem : ∀ r : Router, r.messageQueued = true → 1 ≤ r.contents.count r.nextMsg.2 := fun r hq =>
    Multiset.one_le_count_iff_mem.mpr (by simp [Router.contents, Router.held, hq])
  have htwo := Multiset.count_le_of_le r.nextMsg.2
    (add_le_total (f := Router.contents) hij hi hj)
  have hall := congrArg (Multiset.count r.nextMsg.2) h.total
  have hone := Multiset.nodup_iff_count_le_one.mp (Multiset.coe_nodup.mpr h.nodup_added)
    r.nextMsg.2
  have hr := hmem r hq
  have hr' := hmem r' hq'
  rw [← heq] at hr'
  rw [Multiset.count_add] at htwo hall
  omega

/-- The router at `i` sends once its time has come, so the link's delay has passed. -/
theorem OnSchedule.send (h : m.OnSchedule delay message start clock) (hc : m.Conserved ids)
    (hle : clock ≤ now) {i : ℕ} (hi : m.routers[i]? = some r) (hq : r.messageQueued = true)
    (hnow : r.lastSent ≤ now) : (m.send i r).OnSchedule delay message start now := by
  obtain ⟨r₁, hr₁, -, -, -, heq⟩ := send_routers hi hq
  have hcrossed : (m.send i r).crossed delay message = m.crossed delay message +
      if message = r.nextMsg.2 then delay r.routerId r.nextMsg.1 else 0 := by
    rw [crossed, forwards_send, List.map_append, List.sum_append]
    split <;> simp [crossed]
  refine ⟨?_, fun j r' hj hq' hmessage => ?_⟩
  · rw [hcrossed]
    split
    · rename_i hmessage
      have := h.waits i r hi hq hmessage.symm
      omega
    · have := h.late
      omega
  · rw [heq, List.getElem?_set] at hj
    split_ifs at hj with hij
    · obtain rfl : r₁.sent = r' := Option.some.inj hj
      cases hq'
    -- another router that holds a message holds a different one
    · obtain ⟨r₀, hr₀, ho⟩ := getElem?_enqueue hj
      have hwaits := h.waits j r₀ hr₀
      have hother := held_once hc hij hi hr₀ hq
      rcases ho with rfl | rfl <;>
      · have hne : message ≠ r.nextMsg.2 := fun he => hother hq' (he.symm.trans hmessage.symm)
        rw [hcrossed, if_neg hne, add_zero]
        exact hwaits hq' hmessage

/-- A router that takes a message at `now` holds it for the delay of the link. -/
theorem OnSchedule.prepare (h : m.OnSchedule delay message start clock) (hd : m.Delayed delay ids)
    (hle : clock ≤ now) {i : ℕ} {first : Message} {queue : List Message}
    (hi : m.routers[i]? = some r) (hfree : r.messageQueued = false)
    (hqueue : r.messageQueue = first :: queue) : OnSchedule delay message start now { m with
      routers := m.routers.set i (r.prepare now).1, output := m.output ++ (r.prepare now).2 } := by
  have hc := hd.conserved
  have hcases := Router.prepare_cases (hc.sound r (List.mem_of_getElem? hi)) hqueue now
  have hcrossed : crossed delay { m with
      routers := m.routers.set i (r.prepare now).1
      output := m.output ++ (r.prepare now).2 } message = m.crossed delay message := by
    rw [crossed, forwards_prepare hc hi hfree, crossed]
  refine ⟨hcrossed ▸ h.late.trans hle, fun j r' hj hq' hmessage => ?_⟩
  rw [List.getElem?_set] at hj
  rw [hcrossed]
  split_ifs at hj with hij
  · obtain rfl : (r.prepare now).1 = r' := Option.some.inj hj
    rcases hcases with ⟨-, heq⟩ | ⟨-, nextHop, -, heq⟩
    · rw [heq] at hq'
      exact absurd hq' (by simp [hfree])
    · have hdelay := hd.delays r (List.mem_of_getElem? hi) nextHop
      have := h.late
      simp only [heq, subscript_fst, hdelay]
      omega
  · exact h.waits j r' hj hq' hmessage

theorem OnSchedule.move (h : m.OnSchedule delay message start clock) (hd : m.Delayed delay ids)
    (hle : clock ≤ now) (hm : Move now m m') : m'.OnSchedule delay message start now := by
  cases hm with
  | send hi hq hnow => exact h.send hd.conserved hle hi hq hnow
  | prepare hi hfree hqueue => exact h.prepare hd hle hi hfree hqueue

theorem OnSchedule.tickRouter (h : m.OnSchedule delay message start clock)
    (hd : m.Delayed delay ids) (hle : clock ≤ now) (i : ℕ) :
    (m.tickRouter now i).OnSchedule delay message start now := by
  rcases tickRouter_cases m now i with ⟨-, heq⟩ | ⟨-, hmoves⟩
  · rw [heq]
    exact h.mono hle
  · generalize m.tickRouter now i = m' at hmoves
    have : m'.Delayed delay ids ∧ m'.OnSchedule delay message start now := by
      induction hmoves with
      | single hm => exact ⟨hd.move hm, h.move hd hle hm⟩
      | tail _ hm ih => exact ⟨ih.1.move hm, ih.2.move ih.1 le_rfl hm⟩
    exact this.2

/-- The readings of a pass over `n` routers, on a clock that goes from `c` to `c'`. -/
structure Readings (n : ℕ) (c : Int) (now : ℕ → Int) (c' : Int) : Prop where
  le : c ≤ c'
  first : ∀ i < n, c ≤ now i
  mono : ∀ i j, i ≤ j → j < n → now i ≤ now j
  last : ∀ i < n, now i ≤ c'

theorem OnSchedule.pass {c c' : Int} {now : ℕ → Int} {n : ℕ}
    (h : m.OnSchedule delay message start c) (hd : m.Delayed delay ids)
    (hnow : Readings n c now c') {k : ℕ} (hk : k ≤ n) :
    (m.pass now k).OnSchedule delay message start c' := by
  -- the reading that the router at `k` finds is not before those of the routers it follows
  have : ∃ t ≤ c', (m.pass now k).OnSchedule delay message start t ∧
      ∀ i, k ≤ i → i < n → t ≤ now i := by
    induction k with
    | zero => exact ⟨c, hnow.le, h, fun i _ hi => hnow.first i hi⟩
    | succ k ih =>
        obtain ⟨t, -, ht, hle⟩ := ih (by omega)
        refine ⟨now k, hnow.last k hk, ?_, fun i hki hi => hnow.mono k i (by omega) hi⟩
        rw [pass_succ]
        exact ht.tickRouter (hd.pass now k) (hle k le_rfl hk) k
  obtain ⟨t, hle, ht, -⟩ := this
  exact ht.mono hle

/-- The clock goes from `c` to `c'` in the calls, on a network of `n` routers, and does not run
back. -/
inductive Clocked (n : ℕ) : Int → List Call → Int → Prop where
  | nil (c : Int) : Clocked n c [] c
  | addMessage {c c' : Int} {calls : List Call} (source destination : Int)
      (t : Clocked n c calls c') : Clocked n c (.addMessage source destination :: calls) c'
  | tick {c c₁ c' : Int} {calls : List Call} {now : ℕ → Int} (h : Readings n c now c₁)
      (t : Clocked n c₁ calls c') : Clocked n c (.tick now :: calls) c'

theorem OnSchedule.addMessage (h : m.OnSchedule delay message start clock)
    (source destination : Int) :
    (m.addMessage source destination).OnSchedule delay message start clock := by
  refine ⟨h.late, fun i r hi hq hmessage => ?_⟩
  obtain ⟨r₀, hr₀, ho⟩ := getElem?_enqueue hi
  have hwaits := h.waits i r₀ hr₀
  rcases ho with rfl | rfl <;> exact hwaits hq hmessage

theorem OnSchedule.run {n : ℕ} {c c' : Int} {calls : List Call} (hclock : Clocked n c calls c')
    (hcalls : ∀ call ∈ calls, call.Among ids) (hn : ids.length = n) :
    ∀ {m : Manager}, m.OnSchedule delay message start c → m.Delayed delay ids →
      (m.run calls).OnSchedule delay message start c' := by
  induction hclock with
  | nil c => exact fun h _ => h
  | addMessage source destination _ ih =>
      intro m h hd
      have hc := hcalls _ (List.mem_cons_self ..)
      exact ih (fun d hd => hcalls d (List.mem_cons_of_mem _ hd)) (h.addMessage source destination)
        (hd.addMessage hc.1 hc.2)
  | @tick c c₁ c' calls now hnow _ ih =>
      intro m h hd
      have hlen : m.routers.length = n := by
        rw [← hn, ← hd.conserved.sameIds, List.length_map]
      exact ih (fun d hd => hcalls d (List.mem_cons_of_mem _ hd)) (h.pass hd hnow hlen.le)
        (hd.pass now _)

theorem Delayed.run {calls : List Call} (hcalls : ∀ c ∈ calls, c.Among ids) :
    ∀ {m : Manager}, m.Delayed delay ids → (m.run calls).Delayed delay ids := by
  induction calls with
  | nil => exact fun h => h
  | cons c calls ih =>
      intro m h
      refine ih (fun d hd => hcalls d (List.mem_cons_of_mem _ hd)) ?_
      have hc := hcalls c (by simp)
      cases c with
      | addMessage source destination => exact h.addMessage hc.1 hc.2
      | tick now => exact h.pass now _

theorem linkDelay_routerId {routers : List Router}
    (hunique : (routers.map Router.routerId).Nodup) (hr : r ∈ routers) (v : Int) :
    linkDelay routers r.routerId v = (r.delays.get? v).getD 0 := by
  rw [linkDelay, find?_routerId hunique hr, Option.bind_some]

theorem Ready.delayed {routers : List Router} (h : Ready routers) :
    (new routers).Delayed (linkDelay routers) (routers.map Router.routerId) :=
  ⟨h.conserved, fun _ hr v => (linkDelay_routerId h.unique hr v).symm⟩

/-- **No message outruns its links.**  A message is added, after any calls, when the clock reads
`start`; after more calls, and `k` router ticks of one pass more, through which the clock does not
run back, it reads `stop`.  The message is at one router, once, at the end of a trail along the
tables from its source; the links of the trail are those its `FORWARD` lines tell of, and their
delays together have passed since `start`. -/
theorem takes_its_time (routers : List Router) (hr : Ready routers) (before after : List Call)
    (hbefore : ∀ c ∈ before, c.Among (routers.map Router.routerId))
    (hafter : ∀ c ∈ after, c.Among (routers.map Router.routerId)) (source destination : Int)
    (hs : source ∈ routers.map Router.routerId) (hd : destination ∈ routers.map Router.routerId)
    (start between stop : Int) (hclock : Clocked routers.length start after between)
    (now : ℕ → Int) (k : ℕ) (hnow : Readings k between now stop) :
    let m := ((((new routers).run before).addMessage source destination).run after).pass now k
    let message : Message := ⟨destination, (before.filterMap Call.request).length⟩
    ∃ v p, m.sites.count (v, message) = 1 ∧ (∀ w, (w, message) ∈ m.sites → w = v) ∧
      Trail (hop routers destination) destination source p v ∧
      m.forwards message = p.zip p.tail ∧
      start + ((p.zip p.tail).map fun link => linkDelay routers link.1 link.2).sum ≤ stop := by
  intro m message
  have hearly := hr.traced.run hbefore
  rw [List.nil_append] at hearly
  have htraced := ((hearly.addMessage hs hd).run hafter).pass now k
  have hi : ((before.filterMap Call.request ++ [(source, destination)]) ++
      after.filterMap Call.request)[(before.filterMap Call.request).length]? =
        some (source, destination) := by simp
  obtain ⟨v, p, hv, hunique, t, hp⟩ := htraced.exists_trail hi
  -- the message is new: no router holds it and no line tells of it
  have hnew : (((new routers).run before).addMessage source destination).OnSchedule
      (linkDelay routers) message start start := by
    have hfresh : ((new routers).run before).forwards message = [] :=
      hearly.fresh _ hearly.length.ge
    refine ⟨?_, fun j r' hj hq hmessage => ?_⟩
    · show start + ((((new routers).run before).forwards message).map _).sum ≤ start
      rw [hfresh]
      simp
    · obtain ⟨r₀, hr₀, ho⟩ := getElem?_enqueue hj
      have hq₀ : r₀.messageQueued = true := by rcases ho with rfl | rfl <;> exact hq
      have hm₀ : r₀.nextMsg.2 = message := by rcases ho with rfl | rfl <;> exact hmessage
      have hsite : (r₀.routerId, message) ∈ ((new routers).run before).sites :=
        Multiset.mem_add.mpr <| .inl <| mem_total.mpr ⟨r₀, List.mem_of_getElem? hr₀,
          Router.mem_sites.mpr ⟨rfl, by simp [Router.contents, Router.held, hq₀, hm₀]⟩⟩
      have hlt := tag_lt hearly.directed.conserved
        (mem_added_of_site hearly.directed.conserved hsite)
      exact absurd hlt (not_lt.mpr hearly.length.ge)
  have hdelayed := (hr.delayed.run hbefore).addMessage hs hd
  have h := ((hnew.run hclock hafter (List.length_map _) hdelayed).pass (hdelayed.run hafter) hnow
    le_rfl).late
  refine ⟨v, p, hv, hunique, t, hp, ?_⟩
  rwa [crossed, hp] at h

theorem takes_its_time_exampleNetwork :
    let m := ((((new exampleNetwork).run [.addMessage 3 1]).addMessage 1 3).run
      [.tick fun _ => 0, .tick fun _ => 1000]).pass (fun _ => 2000) 2
    let message : Message := ⟨3, ([Call.addMessage 3 1].filterMap Call.request).length⟩
    ∃ v p, m.sites.count (v, message) = 1 ∧ (∀ w, (w, message) ∈ m.sites → w = v) ∧
      Trail (hop exampleNetwork 3) 3 1 p v ∧ m.forwards message = p.zip p.tail ∧
      0 + ((p.zip p.tail).map fun link => linkDelay exampleNetwork link.1 link.2).sum ≤ 2000 :=
  takes_its_time exampleNetwork ready_exampleNetwork [.addMessage 3 1]
    [.tick fun _ => 0, .tick fun _ => 1000]
    (by simp [Call.Among, exampleNetwork, Router.new, Router.setForwardingTables])
    (by simp [Call.Among]) 1 3 (by decide +kernel) (by decide +kernel) 0 1000 2000
    (.tick ⟨le_rfl, by simp, by simp, by simp⟩
      (.tick ⟨by norm_num, by simp, by simp, by simp⟩ (.nil 1000)))
    (fun _ => 2000) 2 ⟨by norm_num, by simp, by simp, by simp⟩

end Manager

end PacketSim.Topology
