import PacketSim.Topology.Conservation
import PacketSim.Lib.Descent
import PacketSim.Lib.Trail

/-!
# Topology — Delivery

Every message goes where the tables send it, and gets there.  A router's tick is made of moves
(`Manager.Move`): it sends the message it holds, or takes the next one from its queue.

* `follows_tables`: the printed hops of a message are a trail along the tables from the router it
  was added at to the router it is at.
* `eventually_delivered`: where the tables lead to every destination and the clock goes on, the loop
  of `main` ends.  Each message has a number of hops to go (`toGo`), and every move lowers what all
  of them have to go together (`Manager.cost`).
-/

namespace PacketSim.Topology

open Lib

variable {ids : List Int} {m m' : Manager} {r : Router} {next : Int → Int → Option Int} {now : Int}

/-! ### Moves -/

namespace Manager

/-- What a router's tick at the reading `now` is made of. -/
inductive Move (now : Int) (m : Manager) : Manager → Prop where
  | send {i : ℕ} {r : Router} (hi : m.routers[i]? = some r) (hq : r.messageQueued = true)
      (hnow : r.lastSent ≤ now) : Move now m (m.send i r)
  | prepare {i : ℕ} {r : Router} {message : Message} {queue : List Message}
      (hi : m.routers[i]? = some r) (hfree : r.messageQueued = false)
      (hqueue : r.messageQueue = message :: queue) :
      Move now m { m with
        routers := m.routers.set i (r.prepare now).1, output := m.output ++ (r.prepare now).2 }

/-- The router at the index has something to do, and its time has come. -/
def Due (m : Manager) (now : Int) (i : ℕ) : Prop :=
  ∃ r, m.routers[i]? = some r ∧ ¬ (r.messageQueue = [] ∧ r.messageQueued = false) ∧
    r.lastSent ≤ now

/-- A router with nothing in its queue takes nothing. -/
theorem prepare_idle {i : ℕ} (hi : m.routers[i]? = some r) (hqueue : r.messageQueue = []) :
    { m with
      routers := m.routers.set i (r.prepare now).1
      output := m.output ++ (r.prepare now).2 } = m := by
  obtain ⟨hlt, rfl⟩ := List.getElem?_eq_some_iff.mp hi
  simp [Router.prepare, hqueue]

theorem tickRouter_cases (m : Manager) (now : Int) (i : ℕ) :
    ¬ m.Due now i ∧ m.tickRouter now i = m ∨
      m.Due now i ∧ Relation.TransGen (Move now) m (m.tickRouter now i) := by
  unfold Manager.tickRouter
  split
  · rename_i hi
    exact .inl ⟨fun ⟨r, hr, _⟩ => by simp [hi] at hr, rfl⟩
  · rename_i r hi
    split_ifs with hidle hwait hq
    · refine .inl ⟨fun ⟨r', hr', hwork, _⟩ => hwork ?_, rfl⟩
      rwa [← Option.some.inj (hi.symm.trans hr')]
    · refine .inl ⟨fun ⟨r', hr', _, hnow⟩ => ?_, rfl⟩
      rw [← Option.some.inj (hi.symm.trans hr')] at hnow
      omega
    -- the message held goes first
    · have hnow := not_lt.mp hwait
      have hsend : Move now m (m.send i r) := .send hi hq hnow
      refine .inr ⟨⟨r, hi, hidle, hnow⟩, ?_⟩
      dsimp only
      split
      · exact .single hsend
      · rename_i r' hi'
        cases hqueue : r'.messageQueue with
        | nil =>
            rw [prepare_idle hi' hqueue]
            exact .single hsend
        | cons message queue => exact .tail (.single hsend) (.prepare hi' (free_send hi') hqueue)
    · have hfree : r.messageQueued = false := by simpa using hq
      refine .inr ⟨⟨r, hi, hidle, not_lt.mp hwait⟩, ?_⟩
      dsimp only
      rw [hi]
      cases hqueue : r.messageQueue with
      | nil => exact absurd ⟨hqueue, hfree⟩ hidle
      | cons message queue => exact .single (.prepare hi hfree hqueue)

theorem pass_succ (m : Manager) (now : ℕ → Int) (k : ℕ) :
    m.pass now (k + 1) = (m.pass now k).tickRouter (now k) k := by
  rw [Manager.pass, List.range_succ, List.foldl_append]
  rfl

section
variable {P : Manager → Prop} (hP : ∀ {now : Int} {m m' : Manager}, P m → Move now m m' → P m')
include hP

/-- What every move keeps, a router's tick keeps. -/
theorem tickRouter_keeps (h : P m) (now : Int) (i : ℕ) : P (m.tickRouter now i) := by
  rcases tickRouter_cases m now i with ⟨-, heq⟩ | ⟨-, hmoves⟩
  · rwa [heq]
  · generalize m.tickRouter now i = m' at hmoves
    induction hmoves with
    | single hm => exact hP h hm
    | tail _ hm ih => exact hP ih hm

theorem pass_keeps (h : P m) (now : ℕ → Int) (k : ℕ) : P (m.pass now k) := by
  induction k with
  | zero => exact h
  | succ k ih =>
      rw [pass_succ]
      exact tickRouter_keeps hP ih (now k) k

end

theorem Conserved.moved (h : m.Conserved ids) (hm : Move now m m') : m'.Conserved ids := by
  cases hm with
  | send hi hq _ => exact h.send hi hq
  | prepare hi hfree _ => exact h.prepare hi hfree now

end Manager

/-! ### The tables -/

/-- The node to which the tables send a packet for `destination` from `node`. -/
def hop (routers : List Router) (destination node : Int) : Option Int :=
  (routers.find? fun r => r.routerId = node).bind fun r => r.forwardingTable.get? destination

theorem find?_routerId {routers : List Router} (hunique : (routers.map Router.routerId).Nodup)
    (hr : r ∈ routers) : (routers.find? fun r' => r'.routerId = r.routerId) = some r := by
  induction routers with
  | nil => simp at hr
  | cons r' routers ih =>
      rw [List.map_cons, List.nodup_cons] at hunique
      rcases List.mem_cons.mp hr with rfl | hr
      · simp
      · have hne : r'.routerId ≠ r.routerId := fun he => hunique.1 (he ▸ List.mem_map_of_mem hr)
        rw [List.find?_cons_of_neg (by simpa using hne)]
        exact ih hunique.2 hr

theorem hop_routerId {routers : List Router} (hunique : (routers.map Router.routerId).Nodup)
    (hr : r ∈ routers) (destination : Int) :
    hop routers destination r.routerId = r.forwardingTable.get? destination := by
  rw [hop, find?_routerId hunique hr, Option.bind_some]

/-- The router's table is the one of `next`, and what it holds is on its way along it. -/
structure Router.Directed (next : Int → Int → Option Int) (r : Router) : Prop where
  table : ∀ d, r.forwardingTable.get? d = next d r.routerId
  held : r.messageQueued = true → r.nextMsg.2.destination ≠ r.routerId ∧
    next r.nextMsg.2.destination r.routerId = some r.nextMsg.1

namespace Router

/-- What a router that knows where to send makes of the first message of its queue. -/
theorem prepare_cases (h : r.Sound ids) {message : Message} {queue : List Message}
    (hqueue : r.messageQueue = message :: queue) (now : Int) :
    message.destination = r.routerId ∧
        r.prepare now = ({ r with messageQueue := queue }, [.received r.routerId message]) ∨
      message.destination ≠ r.routerId ∧ ∃ nextHop,
        r.forwardingTable.get? message.destination = some nextHop ∧
        r.prepare now = ({ r with
          messageQueue := queue
          delays := (subscript r.delays nextHop).2
          nextMsg := (nextHop, message)
          messageQueued := true
          lastSent := now + (subscript r.delays nextHop).1 }, []) := by
  by_cases hd : message.destination = r.routerId
  · exact .inl ⟨hd, by simp [prepare, hqueue, hd]⟩
  · have hmem : message ∈ r.contents := by simp [contents, hqueue]
    obtain ⟨nextHop, -, hget⟩ := h.table _ (h.known message hmem) hd
    exact .inr ⟨hd, nextHop, hget, by simp [prepare, hqueue, hd, subscript, hget]⟩

theorem Directed.addMessage (h : r.Directed next) (message : Message) :
    (r.addMessage message).Directed next := ⟨h.table, h.held⟩

theorem Directed.sent (h : r.Directed next) : r.sent.Directed next := ⟨h.table, nofun⟩

theorem Directed.prepare (h : r.Directed next) (hs : r.Sound ids) (hfree : r.messageQueued = false)
    {message : Message} {queue : List Message} (hqueue : r.messageQueue = message :: queue)
    (now : Int) : (r.prepare now).1.Directed next := by
  rcases prepare_cases hs hqueue now with ⟨-, heq⟩ | ⟨hd, nextHop, hget, heq⟩
  · rw [heq]
    exact ⟨h.table, fun hq => absurd hq (by simp [hfree])⟩
  · rw [heq]
    exact ⟨h.table, fun _ => ⟨hd, (h.table _).symm.trans hget⟩⟩

end Router

namespace Manager

/-- The messages are in place, and the routers send them along `next`. -/
structure Directed (next : Int → Int → Option Int) (ids : List Int) (m : Manager) : Prop where
  conserved : m.Conserved ids
  routers : ∀ r ∈ m.routers, r.Directed next

theorem directed_enqueue {routers : List Router} (h : ∀ r ∈ routers, r.Directed next)
    (routerId : Int) (message : Message) :
    ∀ r ∈ enqueue routers routerId message, r.Directed next := by
  intro r hr
  obtain ⟨r₀, hr₀, rfl | rfl⟩ := mem_modifyFirst hr
  · exact h r hr₀
  · exact (h r₀ hr₀).addMessage message

/-- The routers after a sending: at `i` the router `r₁` has let its message go. -/
theorem send_routers {i : ℕ} (hi : m.routers[i]? = some r) (hq : r.messageQueued = true) :
    ∃ r₁, (enqueue m.routers r.nextMsg.1 r.nextMsg.2)[i]? = some r₁ ∧
      r₁.messageQueued = true ∧ r₁.nextMsg = r.nextMsg ∧ r₁.routerId = r.routerId ∧
      (m.send i r).routers =
        (enqueue m.routers r.nextMsg.1 r.nextMsg.2).set i r₁.sent := by
  obtain ⟨r₁, hr₁, ho⟩ : ∃ r₁, (enqueue m.routers r.nextMsg.1 r.nextMsg.2)[i]? = some r₁ ∧
      (r₁ = r ∨ r₁ = r.addMessage r.nextMsg.2) := getElem?_modifyFirst hi
  refine ⟨r₁, hr₁, ?_, ?_, ?_, modify_eq_set hr₁ _⟩
  · rcases ho with rfl | rfl <;> exact hq
  · rcases ho with rfl | rfl <;> rfl
  · rcases ho with rfl | rfl <;> rfl

theorem Directed.move (h : m.Directed next ids) (hm : Move now m m') : m'.Directed next ids := by
  refine ⟨h.conserved.moved hm, fun r' hr' => ?_⟩
  cases hm with
  | @send i r hi hq _ =>
      obtain ⟨r₁, hr₁, -, -, -, heq⟩ := send_routers hi hq
      have henq := directed_enqueue h.routers r.nextMsg.1 r.nextMsg.2
      rw [heq] at hr'
      rcases List.mem_or_eq_of_mem_set hr' with hr' | rfl
      · exact henq r' hr'
      · exact (henq r₁ (List.mem_of_getElem? hr₁)).sent
  | @prepare i r message queue hi hfree hqueue =>
      have hr := List.mem_of_getElem? hi
      rcases List.mem_or_eq_of_mem_set hr' with hr' | rfl
      · exact h.routers r' hr'
      · exact (h.routers r hr).prepare (h.conserved.sound r hr) hfree hqueue now

theorem Directed.pass (h : m.Directed next ids) (now : ℕ → Int) (k : ℕ) :
    (m.pass now k).Directed next ids := pass_keeps (fun h hm => Directed.move h hm) h now k

theorem Directed.addMessage (h : m.Directed next ids) {source destination : Int}
    (hs : source ∈ ids) (hd : destination ∈ ids) :
    (m.addMessage source destination).Directed next ids :=
  ⟨h.conserved.addMessage hs hd, directed_enqueue h.routers source _⟩

theorem Ready.directed {routers : List Router} (h : Ready routers) :
    (new routers).Directed (hop routers) (routers.map Router.routerId) :=
  ⟨h.conserved, fun r hr => ⟨fun d => (hop_routerId h.unique hr d).symm, fun hq => by
    simp [h.idle r hr] at hq⟩⟩

end Manager

/-! ### Where the messages are -/

/-- The messages of a router, each with the router's id. -/
def Router.sites (r : Router) : Multiset (Int × Message) :=
  r.contents.map fun message => (r.routerId, message)

theorem Router.mem_sites {x : Int × Message} :
    x ∈ r.sites ↔ x.1 = r.routerId ∧ x.2 ∈ r.contents := by
  obtain ⟨v, message⟩ := x
  simp only [sites, Multiset.mem_map, Prod.mk.injEq]
  constructor
  · rintro ⟨_, hm, rfl, rfl⟩
    exact ⟨rfl, hm⟩
  · rintro ⟨rfl, hm⟩
    exact ⟨_, hm, rfl, rfl⟩

/-- The hop a line tells of, if it tells of one of the message. -/
def Line.hopOf (message : Message) : Line → Option (Int × Int)
  | .forward routerId (nextHop, message') =>
      if message' = message then some (routerId, nextHop) else none
  | .received .. => none

namespace Manager

/-- The messages added, each with the router it is at or was received at. -/
def sites (m : Manager) : Multiset (Int × Message) := total Router.sites m.routers + ↑m.received

/-- The printed hops of a message. -/
def forwards (m : Manager) (message : Message) : List (Int × Int) :=
  m.output.filterMap (Line.hopOf message)

theorem map_sites (h : m.Conserved ids) : m.sites.map Prod.snd = ↑m.added := by
  have hrouters : ∀ routers : List Router,
      (total Router.sites routers).map Prod.snd = total Router.contents routers := by
    intro routers
    induction routers with
    | nil => rfl
    | cons r routers ih =>
        rw [total_cons, total_cons, Multiset.map_add, ih, Router.sites, Multiset.map_map]
        congr 1
        exact Multiset.map_id _
  rw [sites, Multiset.map_add, hrouters, Multiset.map_coe]
  exact h.total.symm

theorem nodup_sites (h : m.Conserved ids) : m.sites.Nodup := by
  have hmap : (m.sites.map Prod.snd).Nodup :=
    (map_sites h).symm ▸ Multiset.coe_nodup.mpr h.nodup_added
  exact .of_map _ hmap

/-- No message is at two places. -/
theorem sites_unique (h : m.Conserved ids) {x : Int × Message} {M : Multiset (Int × Message)}
    (hM : m.sites = x ::ₘ M) {y : Int × Message} (hy : y ∈ M) : y.2 ≠ x.2 := by
  have hnodup : (m.sites.map Prod.snd).Nodup :=
    (map_sites h).symm ▸ Multiset.coe_nodup.mpr h.nodup_added
  rw [hM, Multiset.map_cons, Multiset.nodup_cons] at hnodup
  exact fun he => hnodup.1 (he ▸ Multiset.mem_map_of_mem Prod.snd hy)

/-- A sending moves one message to the next router. -/
theorem sites_send (h : m.Conserved ids) {i : ℕ} (hi : m.routers[i]? = some r)
    (hq : r.messageQueued = true) : ∃ M, m.sites = (r.routerId, r.nextMsg.2) ::ₘ M ∧
      (m.send i r).sites = (r.nextMsg.1, r.nextMsg.2) ::ₘ M := by
  obtain ⟨r₁, hr₁, hq₁, hnext₁, hid₁, heq⟩ := send_routers hi hq
  have hmem : (r.routerId, r.nextMsg.2) ∈ m.sites := Multiset.mem_add.mpr <| .inl <|
    mem_total.mpr ⟨r, List.mem_of_getElem? hi, Router.mem_sites.mpr
      ⟨rfl, by simp [Router.contents, Router.held, hq]⟩⟩
  obtain ⟨M, hM⟩ := Multiset.exists_cons_of_mem hmem
  refine ⟨M, hM, ?_⟩
  have hto : r.nextMsg.1 ∈ m.routers.map Router.routerId :=
    h.sameIds ▸ (h.sound r (List.mem_of_getElem? hi)).next hq
  have henq : total Router.sites (enqueue m.routers r.nextMsg.1 r.nextMsg.2) =
      total Router.sites m.routers + {(r.nextMsg.1, r.nextMsg.2)} := by
    refine total_modifyFirst_of ?_ fun b _ hb => ?_
    · obtain ⟨r', hr', hid⟩ := List.mem_map.mp hto
      exact ⟨r', hr', by simpa using hid⟩
    · have hid : b.routerId = r.nextMsg.1 := by simpa using hb
      rw [Router.sites, Router.contents_addMessage, Multiset.map_add, ← hid]
      rfl
  have hset := total_set Router.sites hr₁ r₁.sent
  have hsent : r₁.sites = r₁.sent.sites + {(r.routerId, r.nextMsg.2)} := by
    rw [Router.sites, Router.contents_sent hq₁, Multiset.map_add, hnext₁, ← hid₁]
    rfl
  have hreceived : (m.send i r).received = m.received := by
    simp [send, received, List.filterMap_append, Line.receipt]
  rw [henq, hsent, ← heq] at hset
  rw [sites, ← Multiset.singleton_add] at hM
  rw [sites, hreceived, ← Multiset.singleton_add]
  refine add_right_cancel (b := r₁.sent.sites + {(r.routerId, r.nextMsg.2)}) ?_
  calc total Router.sites (m.send i r).routers + ↑m.received +
        (r₁.sent.sites + {(r.routerId, r.nextMsg.2)})
      = total Router.sites m.routers + ↑m.received + {(r.nextMsg.1, r.nextMsg.2)} +
          r₁.sent.sites := by rw [add_right_comm, hset]; abel
    _ = _ := by rw [hM]; abel

/-- A router that takes a message from its queue still has it, or has received it. -/
theorem sites_prepare (h : m.Conserved ids) {i : ℕ} (hi : m.routers[i]? = some r)
    (hfree : r.messageQueued = false) (now : Int) : sites { m with
      routers := m.routers.set i (r.prepare now).1, output := m.output ++ (r.prepare now).2 } =
    m.sites := by
  obtain ⟨hid, -, ho⟩ := Router.prepare_spec (h.sound r (List.mem_of_getElem? hi)) hfree now
  have hset := total_set Router.sites hi (r.prepare now).1
  rcases ho with ⟨hlines, hc⟩ | ⟨message, hlines, -, hc⟩
  · have hsites : (r.prepare now).1.sites = r.sites := by
      rw [Router.sites, Router.sites, hid, hc]
    rw [hsites] at hset
    simp only [sites, received, hlines, List.append_nil]
    rw [add_right_cancel hset]
  · have hsites : r.sites = (r.prepare now).1.sites + {(r.routerId, message)} := by
      rw [Router.sites, Router.sites, hid, hc, Multiset.map_add]
      rfl
    rw [hsites] at hset
    simp only [sites, received, hlines, List.filterMap_append, ← Multiset.coe_add]
    refine add_right_cancel (b := (r.prepare now).1.sites) ?_
    have hline : ((List.filterMap Line.receipt [.received r.routerId message] :
        List (Int × Message)) : Multiset (Int × Message)) = {(r.routerId, message)} := rfl
    rw [hline]
    calc total Router.sites (m.routers.set i (r.prepare now).1) +
          (↑(List.filterMap Line.receipt m.output) + {(r.routerId, message)}) +
          (r.prepare now).1.sites
        = total Router.sites (m.routers.set i (r.prepare now).1) +
            ((r.prepare now).1.sites + {(r.routerId, message)}) +
            ↑(List.filterMap Line.receipt m.output) := by abel
      _ = _ := by rw [hset]; abel

/-! ### The hops of a message -/

theorem forwards_send (i : ℕ) (r : Router) (message : Message) :
    (m.send i r).forwards message = m.forwards message ++
      if message = r.nextMsg.2 then [(r.routerId, r.nextMsg.1)] else [] := by
  have hline : [Line.forward r.routerId r.nextMsg].filterMap (Line.hopOf message) =
      if message = r.nextMsg.2 then [(r.routerId, r.nextMsg.1)] else [] := by
    by_cases hm : message = r.nextMsg.2
    · simp [Line.hopOf, hm]
    · simp [Line.hopOf, hm, Ne.symm hm]
  rw [forwards, send, List.filterMap_append, hline]
  rfl

theorem forwards_prepare (h : m.Conserved ids) {i : ℕ} (hi : m.routers[i]? = some r)
    (hfree : r.messageQueued = false) (now : Int) (message : Message) : forwards { m with
      routers := m.routers.set i (r.prepare now).1, output := m.output ++ (r.prepare now).2 }
        message = m.forwards message := by
  obtain ⟨-, -, ho⟩ := Router.prepare_spec (h.sound r (List.mem_of_getElem? hi)) hfree now
  rcases ho with ⟨hlines, -⟩ | ⟨_, hlines, -, -⟩
  · simp [forwards, hlines]
  · simp [forwards, hlines, Line.hopOf]

/-- The message `x.2` has come to `x.1` along `next`, and its printed hops are the moves of the
trail it left. -/
def Came (next : Int → Int → Option Int) (requests : List (Int × Int)) (m : Manager)
    (x : Int × Message) : Prop :=
  ∃ source p, requests[x.2.tag]? = some (source, x.2.destination) ∧
    Trail (next x.2.destination) x.2.destination source p x.1 ∧ m.forwards x.2 = p.zip p.tail

theorem Came.of_forwards {requests : List (Int × Int)} {x : Int × Message}
    (h : m.Came next requests x) (hf : m'.forwards x.2 = m.forwards x.2) :
    m'.Came next requests x := by
  obtain ⟨source, p, hreq, t, hp⟩ := h
  exact ⟨source, p, hreq, t, hf.trans hp⟩

/-- A request is the source and the destination of an added message. -/
structure Traced (next : Int → Int → Option Int) (ids : List Int) (requests : List (Int × Int))
    (m : Manager) : Prop where
  directed : m.Directed next ids
  length : requests.length = m.added.length
  fresh : ∀ message : Message, m.added.length ≤ message.tag → m.forwards message = []
  came : ∀ x ∈ m.sites, m.Came next requests x

variable {requests : List (Int × Int)}

theorem mem_added_of_site (h : m.Conserved ids) {x : Int × Message} (hx : x ∈ m.sites) :
    x.2 ∈ m.added := by
  have := Multiset.mem_map_of_mem Prod.snd hx
  rwa [map_sites h, Multiset.mem_coe] at this

theorem tag_lt (h : m.Conserved ids) {message : Message} (hm : message ∈ m.added) :
    message.tag < m.added.length := by
  have := List.mem_map_of_mem (f := Message.tag) hm
  rwa [h.tags, List.mem_range] at this

theorem Traced.move (h : m.Traced next ids requests) (hm : Move now m m') :
    m'.Traced next ids requests := by
  have hd := h.directed.move hm
  have hc := h.directed.conserved
  cases hm with
  | @send i r hi hq _ =>
      obtain ⟨M, hM, hM'⟩ := sites_send hc hi hq
      have hmem : (r.routerId, r.nextMsg.2) ∈ m.sites := hM ▸ Multiset.mem_cons_self _ _
      refine ⟨hd, h.length, fun message htag => ?_, fun x hx => ?_⟩
      · have hne : message ≠ r.nextMsg.2 := by
          rintro rfl
          exact absurd (tag_lt hc (mem_added_of_site hc hmem)) (not_lt.mpr htag)
        rw [forwards_send, if_neg hne, List.append_nil]
        exact h.fresh message htag
      · rw [hM'] at hx
        rcases Multiset.mem_cons.mp hx with rfl | hx
        -- the message sent has one hop more
        · obtain ⟨source, p, hreq, t, hp⟩ := h.came _ hmem
          obtain ⟨hne, hnext⟩ := (h.directed.routers r (List.mem_of_getElem? hi)).held hq
          refine ⟨source, p ++ [r.nextMsg.1], hreq, t.concat (Ne.symm hne) hnext, ?_⟩
          rw [forwards_send, if_pos rfl, t.zip_concat, hp]
        · have hx' : x ∈ m.sites := hM ▸ Multiset.mem_cons_of_mem hx
          refine (h.came x hx').of_forwards ?_
          rw [forwards_send, if_neg (sites_unique hc hM hx), List.append_nil]
  | @prepare i r message queue hi hfree hqueue =>
      refine ⟨hd, h.length, fun message htag => ?_, fun x hx => ?_⟩
      · rw [forwards_prepare hc hi hfree]
        exact h.fresh message htag
      · rw [sites_prepare hc hi hfree] at hx
        exact (h.came x hx).of_forwards (forwards_prepare hc hi hfree now x.2)

theorem Traced.pass (h : m.Traced next ids requests) (now : ℕ → Int) (k : ℕ) :
    (m.pass now k).Traced next ids requests := pass_keeps (fun h hm => Traced.move h hm) h now k

/-- A message that is added stands at its source, and no line tells of it. -/
theorem Traced.addMessage (h : m.Traced next ids requests) {source destination : Int}
    (hs : source ∈ ids) (hd : destination ∈ ids) :
    (m.addMessage source destination).Traced next ids (requests ++ [(source, destination)]) := by
  have hsites : (m.addMessage source destination).sites =
      (source, ⟨destination, m.added.length⟩) ::ₘ m.sites := by
    have henq : total Router.sites (enqueue m.routers source ⟨destination, m.added.length⟩) =
        total Router.sites m.routers + {(source, ⟨destination, m.added.length⟩)} := by
      refine total_modifyFirst_of ?_ fun b _ hb => ?_
      · obtain ⟨r, hr, hid⟩ := List.mem_map.mp (h.directed.conserved.sameIds.symm ▸ hs)
        exact ⟨r, hr, by simpa using hid⟩
      · have hid : b.routerId = source := by simpa using hb
        rw [Router.sites, Router.contents_addMessage, Multiset.map_add, ← hid]
        rfl
    show total Router.sites (enqueue m.routers source _) + ↑m.received = _
    rw [henq, sites, ← Multiset.singleton_add]
    abel
  refine ⟨h.directed.addMessage hs hd, ?_, fun message htag => ?_, fun x hx => ?_⟩
  · show _ = (m.added ++ [_]).length
    simp [h.length]
  · refine h.fresh message (le_trans ?_ htag)
    show m.added.length ≤ (m.added ++ [_]).length
    simp
  · rw [hsites] at hx
    rcases Multiset.mem_cons.mp hx with rfl | hx
    · refine ⟨source, [source], ?_, .single source, h.fresh _ le_rfl⟩
      simp [← h.length]
    · obtain ⟨source', p, hreq, t, hp⟩ := h.came x hx
      refine ⟨source', p, ?_, t, hp⟩
      rw [List.getElem?_append_left (List.getElem?_eq_some_iff.mp hreq).1]
      exact hreq

/-- The source and the destination of the message a call adds. -/
def Call.request : Call → Option (Int × Int)
  | .addMessage source destination => some (source, destination)
  | .tick _ => none

theorem Traced.run {calls : List Call} (hcalls : ∀ c ∈ calls, c.Among ids) :
    ∀ {m : Manager} {requests : List (Int × Int)}, m.Traced next ids requests →
      (m.run calls).Traced next ids (requests ++ calls.filterMap Call.request) := by
  induction calls with
  | nil =>
      intro m requests h
      rwa [List.filterMap_nil, List.append_nil]
  | cons c calls ih =>
      intro m requests h
      have hc := hcalls c (by simp)
      have hrest := fun d hd => hcalls d (List.mem_cons_of_mem c hd)
      cases c with
      | addMessage source destination =>
          have := ih hrest (h.addMessage hc.1 hc.2)
          rwa [List.append_assoc] at this
      | tick now => exact ih hrest (h.pass now _)

theorem Ready.traced {routers : List Router} (h : Ready routers) :
    (new routers).Traced (hop routers) (routers.map Router.routerId) [] where
  directed := h.directed
  length := rfl
  fresh _ _ := rfl
  came x hx := by
    have : (new routers).added = [] := rfl
    have hmem := mem_added_of_site h.conserved hx
    simp [this] at hmem

/-- The message of a request is at one place, once. -/
theorem Traced.exists_site (h : m.Traced next ids requests) {i : ℕ} {source destination : Int}
    (hi : requests[i]? = some (source, destination)) :
    ∃ v, m.sites.count (v, ⟨destination, i⟩) = 1 ∧
      ∀ w, (w, ⟨destination, i⟩) ∈ m.sites → w = v := by
  have hc := h.directed.conserved
  have hlt : i < m.added.length := h.length ▸ (List.getElem?_eq_some_iff.mp hi).1
  have htag : m.added[i].tag = i := by
    have := List.getElem_map Message.tag (l := m.added) (h := by simpa using hlt)
    simp only [hc.tags, List.getElem_range] at this
    exact this.symm
  have hmem : m.added[i] ∈ m.sites.map Prod.snd := by
    rw [map_sites hc]
    exact Multiset.mem_coe.mpr (List.getElem_mem hlt)
  obtain ⟨⟨v, message⟩, hx, hmessage⟩ := Multiset.mem_map.mp hmem
  obtain rfl : message = m.added[i] := hmessage
  obtain ⟨source', p, hreq, -, -⟩ := h.came _ hx
  have hdest : m.added[i].destination = destination := by
    rw [show (m.added[i]).tag = i from htag, hi] at hreq
    exact (Prod.ext_iff.mp (Option.some.inj hreq)).2.symm
  have heq : m.added[i] = ⟨destination, i⟩ := by
    rw [← hdest]
    exact congrArg (Message.mk _) htag
  rw [heq] at hx
  refine ⟨v, Multiset.count_eq_one_of_mem (nodup_sites hc) hx, fun w hw => ?_⟩
  obtain ⟨M, hM⟩ := Multiset.exists_cons_of_mem hx
  rcases Multiset.mem_cons.mp (hM ▸ hw) with hw | hw
  · exact congrArg Prod.fst hw
  · exact (sites_unique hc hM hw rfl).elim

/-- It is at the end of the trail it left. -/
theorem Traced.exists_trail (h : m.Traced next ids requests) {i : ℕ} {source destination : Int}
    (hi : requests[i]? = some (source, destination)) :
    ∃ v p, m.sites.count (v, ⟨destination, i⟩) = 1 ∧
      (∀ w, (w, ⟨destination, i⟩) ∈ m.sites → w = v) ∧
      Trail (next destination) destination source p v ∧
      m.forwards ⟨destination, i⟩ = p.zip p.tail := by
  obtain ⟨v, hv, hunique⟩ := h.exists_site hi
  obtain ⟨source', p, hreq, t, hp⟩ := h.came (v, ⟨destination, i⟩)
    (Multiset.count_pos.mp (hv ▸ Nat.one_pos))
  obtain rfl : source' = source := (Prod.ext_iff.mp (Option.some.inj (hreq.symm.trans hi))).1
  exact ⟨v, p, hv, hunique, t, hp⟩

/-- **Messages follow the tables.**  Take routers with unique ids and tables that name a router for
every other router's id, any calls of `add_message` between them and of `tick`, at any readings of
the clock, and any number of router ticks of one pass more.  Then each message added is at one
router, once: in its queue, its `next_msg` or received there; and the `FORWARD` lines of the message
are, in order, the moves of the trail along the tables from the router where it was added to this
one. -/
theorem follows_tables (routers : List Router) (hr : Ready routers) (calls : List Call)
    (hcalls : ∀ c ∈ calls, c.Among (routers.map Router.routerId)) (now : ℕ → Int) (k : ℕ) :
    let m := ((new routers).run calls).pass now k
    ∀ i source destination, (calls.filterMap Call.request)[i]? = some (source, destination) →
      ∃ v p, m.sites.count (v, ⟨destination, i⟩) = 1 ∧
        (∀ w, (w, ⟨destination, i⟩) ∈ m.sites → w = v) ∧
        Trail (hop routers destination) destination source p v ∧
        m.forwards ⟨destination, i⟩ = p.zip p.tail := by
  intro m i source destination hi
  have h : m.Traced (hop routers) (routers.map Router.routerId) (calls.filterMap Call.request) :=
    (hr.traced.run hcalls).pass now k
  exact h.exists_trail hi

theorem follows_tables_exampleNetwork :
    let m := ((new exampleNetwork).run exampleCalls).pass (fun _ => 5000) 2
    ∀ i source destination, (exampleCalls.filterMap Call.request)[i]? = some (source, destination) →
      ∃ v p, m.sites.count (v, ⟨destination, i⟩) = 1 ∧
        (∀ w, (w, ⟨destination, i⟩) ∈ m.sites → w = v) ∧
        Trail (hop exampleNetwork destination) destination source p v ∧
        m.forwards ⟨destination, i⟩ = p.zip p.tail :=
  follows_tables exampleNetwork ready_exampleNetwork exampleCalls
    (by simp [exampleCalls, Call.Among, exampleNetwork, Router.new, Router.setForwardingTables])
    (fun _ => 5000) 2

end Manager

/-! ### The moves to come -/

/-- Twice the hops each message of the router has to go, and one more for a message that waits in
the queue. -/
noncomputable def Router.toGo (next : Int → Int → Option Int) (r : Router) : Multiset ℕ :=
  ↑(r.messageQueue.map fun message =>
      2 * Lib.toGo (next message.destination) message.destination r.routerId + 1) +
    ↑(r.held.map fun message =>
      2 * Lib.toGo (next message.destination) message.destination r.routerId)

theorem Router.toGo_addMessage (r : Router) (message : Message) :
    (r.addMessage message).toGo next = r.toGo next +
      {2 * Lib.toGo (next message.destination) message.destination r.routerId + 1} := by
  simp only [toGo, addMessage, held, List.map_append, List.map_cons, List.map_nil,
    ← Multiset.coe_add, ← Multiset.coe_singleton]
  abel

theorem Router.toGo_sent (h : r.messageQueued = true) : r.toGo next = r.sent.toGo next +
    {2 * Lib.toGo (next r.nextMsg.2.destination) r.nextMsg.2.destination r.routerId} := by
  simp [toGo, sent, held, h]

namespace Manager

/-- The steps that all messages have to go. -/
noncomputable def cost (next : Int → Int → Option Int) (m : Manager) : ℕ :=
  (total (Router.toGo next) m.routers).sum

/-- The tables lead from every node to every node. -/
def Leads (next : Int → Int → Option Int) (ids : List Int) : Prop :=
  ∀ v ∈ ids, ∀ d ∈ ids, ∃ p, Trail (next d) d v p d

/-- **Every move leaves less to do.** -/
theorem Directed.cost_move (h : m.Directed next ids) (hl : Leads next ids) (hm : Move now m m') :
    m'.cost next < m.cost next := by
  have hc := h.conserved
  cases hm with
  | @send i r hi hq _ =>
      have hs := hc.sound r (List.mem_of_getElem? hi)
      have hto := hs.next hq
      obtain ⟨hne, hnext⟩ := (h.routers r (List.mem_of_getElem? hi)).held hq
      have hknown : r.nextMsg.2.destination ∈ ids :=
        hs.known _ (by simp [Router.contents, Router.held, hq])
      obtain ⟨p, t⟩ := hl _ hto _ hknown
      have hhop := toGo_hop (Ne.symm hne) hnext t
      obtain ⟨r₁, hr₁, hq₁, hnext₁, hid₁, heq⟩ := send_routers hi hq
      have henq : total (Router.toGo next) (enqueue m.routers r.nextMsg.1 r.nextMsg.2) =
          total (Router.toGo next) m.routers + {2 * Lib.toGo (next r.nextMsg.2.destination)
            r.nextMsg.2.destination r.nextMsg.1 + 1} := by
        refine total_modifyFirst_of ?_ fun b _ hb => ?_
        · obtain ⟨r', hr', hid⟩ := List.mem_map.mp (hc.sameIds.symm ▸ hto)
          exact ⟨r', hr', by simpa using hid⟩
        · have hid : b.routerId = r.nextMsg.1 := by simpa using hb
          rw [Router.toGo_addMessage, hid]
      have hset := congrArg Multiset.sum (total_set (Router.toGo next) hr₁ r₁.sent)
      rw [henq, Router.toGo_sent hq₁, ← heq, hnext₁, hid₁] at hset
      simp only [Multiset.sum_add, Multiset.sum_singleton, hhop] at hset
      simp only [cost]
      omega
  | @prepare i r message queue hi hfree hqueue =>
      have hset := congrArg Multiset.sum
        (total_set (Router.toGo next) hi (r.prepare now).1)
      have hr := hc.sound r (List.mem_of_getElem? hi)
      have hless : ((r.prepare now).1.toGo next).sum < (r.toGo next).sum := by
        rcases Router.prepare_cases hr hqueue now with ⟨-, heq⟩ | ⟨-, nextHop, -, heq⟩
        · simp only [heq, Router.toGo, Router.held, hqueue, hfree]
          simp
        · simp only [heq, Router.toGo, Router.held, hqueue, hfree]
          simp
          omega
      simp only [Multiset.sum_add] at hset
      simp only [cost]
      omega

theorem Directed.cost_moves (h : m.Directed next ids) (hl : Leads next ids)
    (hm : Relation.TransGen (Move now) m m') :
    m'.Directed next ids ∧ m'.cost next < m.cost next := by
  induction hm with
  | single hm => exact ⟨h.move hm, h.cost_move hl hm⟩
  | tail _ hm ih => exact ⟨ih.1.move hm, (ih.1.cost_move hl hm).trans ih.2⟩

/-- A pass costs nothing exactly when no router was due. -/
theorem Directed.cost_pass (h : m.Directed next ids) (hl : Leads next ids) (now : ℕ → Int) (k : ℕ) :
    (m.pass now k = m ∧ ∀ i < k, ¬ m.Due (now i) i) ∨ (m.pass now k).cost next < m.cost next := by
  induction k with
  | zero => exact .inl ⟨rfl, fun i hi => absurd hi (Nat.not_lt_zero i)⟩
  | succ k ih =>
      rw [pass_succ]
      rcases tickRouter_cases (m.pass now k) (now k) k with ⟨hdue, heq⟩ | ⟨-, hmoves⟩
      · rw [heq]
        refine ih.imp_left fun ⟨hstay, hidle⟩ => ⟨hstay, fun i hi => ?_⟩
        rcases Nat.lt_succ_iff_lt_or_eq.mp hi with hi | rfl
        · exact hidle i hi
        · rwa [hstay] at hdue
      · have hfall := ((h.pass now k).cost_moves hl hmoves).2
        rcases ih with ⟨hstay, -⟩ | ih
        · rw [hstay] at hfall ⊢
          exact .inr hfall
        · exact .inr (hfall.trans ih)

/-- A network with work to do has a router that will be due. -/
theorem exists_due (hwork : m.finished = false) :
    ∃ i < m.routers.length, ∃ t, ∀ now, t ≤ now → m.Due now i := by
  have hex : ∃ r ∈ m.routers, ¬ (r.messageQueue = [] ∧ r.messageQueued = false) := by
    simpa [finished] using hwork
  obtain ⟨r, hr, hbusy⟩ := hex
  obtain ⟨i, hi, rfl⟩ := List.mem_iff_getElem.mp hr
  exact ⟨i, hi, m.routers[i].lastSent, fun now hnow =>
    ⟨_, List.getElem?_eq_getElem hi, hbusy, hnow⟩⟩

/-- The loop of `main`, after `n` rounds; `now n i` is the reading of the router at `i` in round
`n`. -/
def ticks (m : Manager) (now : ℕ → ℕ → Int) : ℕ → Manager
  | 0 => m
  | n + 1 => (m.ticks now n).tick (now n)

/-- Every reading is passed for good. -/
def GoesOn (now : ℕ → ℕ → Int) : Prop := ∀ t, ∃ n, ∀ k i, n ≤ k → t ≤ now k i

theorem Directed.exists_finished (h : m.Directed next ids) (hl : Leads next ids)
    {now : ℕ → ℕ → Int} (hclock : GoesOn now) : ∃ n, (m.ticks now n).finished = true := by
  have hd : ∀ n, (m.ticks now n).Directed next ids := by
    intro n
    induction n with
    | zero => exact h
    | succ n ih => exact ih.pass (now n) _
  have hstep : ∀ n, m.ticks now (n + 1) = m.ticks now n ∨
      (m.ticks now (n + 1)).cost next < (m.ticks now n).cost next := fun n =>
    ((hd n).cost_pass hl (now n) _).imp_left And.left
  have hmove : ∀ n, ¬ (m.ticks now n).finished = true → ∃ k, n ≤ k ∧
      (m.ticks now k = m.ticks now n → m.ticks now (k + 1) ≠ m.ticks now k) := by
    intro n hn
    obtain ⟨i, hi, t, ht⟩ := exists_due (Bool.eq_false_iff.mpr hn)
    obtain ⟨k, hk⟩ := hclock t
    refine ⟨max n k, le_max_left n k, fun hstay hmoved => ?_⟩
    -- the router's time has come: if nothing moved before this round, it moves in it
    rcases (hd (max n k)).cost_pass hl (now (max n k)) (m.ticks now (max n k)).routers.length with
      ⟨-, hidle⟩ | hfall
    · rw [hstay] at hidle
      exact hidle i hi (ht _ (hk _ i (le_max_right n k)))
    · have heq : (m.ticks now (max n k)).pass (now (max n k))
          (m.ticks now (max n k)).routers.length = m.ticks now (max n k) := hmoved
      rw [heq] at hfall
      exact lt_irrefl _ hfall
  obtain ⟨n, -, hn⟩ := exists_done (fun m => m.finished = true) hstep hmove 0
  exact ⟨n, hn⟩

/-- **The loop of `main` ends, with every message delivered.**  Take routers with unique ids whose
tables lead from every router to every other, any calls of `add_message` between them and of `tick`,
and then rounds of `tick` at readings of a clock that goes on.  After some number of rounds
`finished` holds; then every message has been received at its destination exactly once, and its
`FORWARD` lines are the moves of the trail from its source to its destination. -/
theorem eventually_delivered (routers : List Router) (hr : Ready routers)
    (hl : Leads (hop routers) (routers.map Router.routerId)) (calls : List Call)
    (hcalls : ∀ c ∈ calls, c.Among (routers.map Router.routerId)) (now : ℕ → ℕ → Int)
    (hclock : GoesOn now) :
    ∃ n, let m := ((new routers).run calls).ticks now n
      m.finished = true ∧
      ∀ i source destination, (calls.filterMap Call.request)[i]? = some (source, destination) →
        m.received.count (destination, ⟨destination, i⟩) = 1 ∧
        ∃ p, Trail (hop routers destination) destination source p destination ∧
          m.forwards ⟨destination, i⟩ = p.zip p.tail := by
  have hstart : ((new routers).run calls).Traced (hop routers) (routers.map Router.routerId)
      (calls.filterMap Call.request) := hr.traced.run hcalls
  obtain ⟨n, hn⟩ := hstart.directed.exists_finished hl hclock
  refine ⟨n, hn, fun i source destination hi => ?_⟩
  have h : (((new routers).run calls).ticks now n).Traced (hop routers)
      (routers.map Router.routerId) (calls.filterMap Call.request) := by
    clear hn
    induction n with
    | zero => exact hstart
    | succ n ih => exact ih.pass (now n) _
  generalize ((new routers).run calls).ticks now n = m at h hn
  have hc := h.directed.conserved
  -- nothing is queued or held, so the one place of the message is where it was received
  have hempty : total Router.sites m.routers = 0 := total_eq_zero.mpr fun r hr => by
    have hidle : r.messageQueue = [] ∧ r.messageQueued = false := by
      have : ∀ r ∈ m.routers, r.messageQueue = [] ∧ r.messageQueued = false := by
        simpa [finished] using hn
      exact this r hr
    simp [Router.sites, Router.contents, Router.held, hidle]
  have hsites : m.sites = ↑m.received := by rw [sites, hempty, zero_add]
  obtain ⟨v, p, hv, -, t, hp⟩ := h.exists_trail hi
  have hnodup := nodup_sites hc
  have hreceived : (v, ⟨destination, i⟩) ∈ m.sites := Multiset.count_pos.mp (hv ▸ Nat.one_pos)
  rw [hsites] at hnodup hreceived
  obtain rfl : v = destination := hc.home _ hreceived
  exact ⟨List.count_eq_one_of_mem hnodup hreceived, p, t, hp⟩

theorem leads_exampleNetwork :
    Leads (hop exampleNetwork) (exampleNetwork.map Router.routerId) := by
  have hids : exampleNetwork.map Router.routerId = [1, 2, 3] := rfl
  rw [hids]
  intro v hv d hd
  simp only [List.mem_cons, List.not_mem_nil, or_false] at hv hd
  rcases hv with rfl | rfl | rfl <;> rcases hd with rfl | rfl | rfl
  exacts [⟨_, .single 1⟩, ⟨_, .of_isChain (p := [2]) (by decide +kernel) rfl⟩,
    ⟨_, .of_isChain (p := [2, 3]) (by decide +kernel) rfl⟩,
    ⟨_, .of_isChain (p := [1]) (by decide +kernel) rfl⟩, ⟨_, .single 2⟩,
    ⟨_, .of_isChain (p := [3]) (by decide +kernel) rfl⟩,
    ⟨_, .of_isChain (p := [2, 1]) (by decide +kernel) rfl⟩,
    ⟨_, .of_isChain (p := [2]) (by decide +kernel) rfl⟩, ⟨_, .single 3⟩]

theorem eventually_delivered_exampleNetwork :
    ∃ n, let m := ((new exampleNetwork).run exampleCalls).ticks (fun n _ => 10 * n) n
      m.finished = true ∧
      ∀ i source destination,
        (exampleCalls.filterMap Call.request)[i]? = some (source, destination) →
        m.received.count (destination, ⟨destination, i⟩) = 1 ∧
        ∃ p, Trail (hop exampleNetwork destination) destination source p destination ∧
          m.forwards ⟨destination, i⟩ = p.zip p.tail :=
  eventually_delivered exampleNetwork ready_exampleNetwork leads_exampleNetwork exampleCalls
    (by simp [exampleCalls, Call.Among, exampleNetwork, Router.new, Router.setForwardingTables])
    (fun n _ => 10 * n) fun t => ⟨t.toNat, fun k _ hk => show t ≤ 10 * (k : Int) by omega⟩

end Manager

end PacketSim.Topology
