import PacketSim.Topology.Definitions

/-!
# Topology — Conservation

The routers lose no message and copy none.  Every message added is in one router's queue, or held
in one router's `next_msg`, or received, and only one of these (`Manager.Conserved`), as long as the
tables of every router name a router for every other router's id (`Router.Sound`).  Nothing is
asked of the clock, of the order of the routers or of the routes.

* `Conserved.tickRouter`, `Conserved.addMessage`: one router's tick, one message added.
* `Conserved.run`: every sequence of calls.
* `places_unique`: the invariant read as counts, at every point of a run.
-/

namespace PacketSim.Topology

open Lib

variable {ids : List Int} {m : Manager} {r r' : Router}

/-! ### One router -/

namespace Router

/-- The message in `next_msg`, if it is one to send. -/
def held (r : Router) : List Message := if r.messageQueued then [r.nextMsg.2] else []

/-- The messages a router has, queued or received. -/
def contents (r : Router) : Multiset Message := ↑(r.messageQueue ++ r.held)

/-- The router knows where to send what it may get and what it holds. -/
structure Sound (ids : List Int) (r : Router) : Prop where
  table : ∀ d ∈ ids, d ≠ r.routerId → ∃ hop ∈ ids, r.forwardingTable.get? d = some hop
  known : ∀ message ∈ r.contents, message.destination ∈ ids
  next : r.messageQueued = true → r.nextMsg.1 ∈ ids

theorem contents_addMessage (r : Router) (message : Message) :
    (r.addMessage message).contents = r.contents + {message} := by
  simp only [contents, held, addMessage, ← Multiset.coe_add, ← Multiset.coe_singleton]
  abel

theorem Sound.addMessage (h : r.Sound ids) {message : Message}
    (hd : message.destination ∈ ids) : (r.addMessage message).Sound ids where
  table := h.table
  known x hx := by
    rw [contents_addMessage, Multiset.mem_add, Multiset.mem_singleton] at hx
    rcases hx with hx | rfl
    · exact h.known x hx
    · exact hd
  next := h.next

/-- The router once its message is sent. -/
theorem contents_sent (h : r.messageQueued = true) :
    r.contents = r.sent.contents + {r.nextMsg.2} := by
  simp only [contents, held, sent, h, if_true, Bool.false_eq_true, if_false, List.append_nil]
  rw [← Multiset.coe_singleton, Multiset.coe_add]

theorem Sound.sent (h : r.Sound ids) : r.sent.Sound ids where
  table := h.table
  known x hx := h.known x (by
    simp only [contents, held, Router.sent, Bool.false_eq_true, if_false, List.append_nil,
      Multiset.mem_coe] at hx
    exact Multiset.mem_coe.mpr (List.mem_append_left _ hx))
  next := nofun

/-- What `prepare` takes from the queue it holds or receives. -/
theorem prepare_spec (h : r.Sound ids) (hfree : r.messageQueued = false) (now : Int) :
    (r.prepare now).1.routerId = r.routerId ∧ (r.prepare now).1.Sound ids ∧
      ((r.prepare now).2 = [] ∧ r.contents = (r.prepare now).1.contents ∨
        ∃ message, (r.prepare now).2 = [.received r.routerId message] ∧
          message.destination = r.routerId ∧
          r.contents = (r.prepare now).1.contents + {message}) := by
  unfold prepare
  split
  · exact ⟨rfl, h, .inl ⟨rfl, rfl⟩⟩
  · rename_i message queue hqueue
    have hmem : ∀ x ∈ message :: queue, x.destination ∈ ids := fun x hx =>
      h.known x (Multiset.mem_coe.mpr (List.mem_append_left _ (hqueue ▸ hx)))
    have hcontents : r.contents = ↑(message :: queue) := by simp [contents, held, hfree, hqueue]
    split_ifs with hd
    · refine ⟨rfl, ⟨h.table, fun x hx => ?_, fun hq => absurd hq (by simp [hfree])⟩,
        .inr ⟨message, rfl, hd, ?_⟩⟩
      · simp only [contents, held, hfree, Bool.false_eq_true, if_false, List.append_nil,
          Multiset.mem_coe] at hx
        exact hmem x (List.mem_cons_of_mem _ hx)
      · rw [hcontents, ← Multiset.cons_coe, ← Multiset.singleton_add, add_comm]
        simp [contents, held, hfree]
    · obtain ⟨hop, hhop, hget⟩ := h.table _ (hmem message (by simp)) hd
      have hsub : subscript r.forwardingTable message.destination = (hop, r.forwardingTable) := by
        simp [subscript, hget]
      rw [hsub]
      refine ⟨rfl, ⟨h.table, fun x hx => ?_, fun _ => hhop⟩, .inl ⟨rfl, ?_⟩⟩
      · have : x ∈ queue ++ [message] := by simpa [contents, held] using hx
        refine hmem x ?_
        simpa [or_comm] using this
      · rw [hcontents]
        simp only [contents, held, if_true, Multiset.coe_eq_coe]
        exact (List.perm_append_singleton message queue).symm

end Router

/-! ### The manager -/

theorem sound_enqueue {routers : List Router} (h : ∀ r ∈ routers, r.Sound ids) {routerId : Int}
    {message : Message} (hd : message.destination ∈ ids) :
    ∀ r ∈ enqueue routers routerId message, r.Sound ids := by
  intro r hr
  obtain ⟨r₀, hr₀, rfl | rfl⟩ := mem_modifyFirst hr
  · exact h r hr₀
  · exact (h r₀ hr₀).addMessage hd

theorem sound_set {routers : List Router} (h : ∀ r ∈ routers, r.Sound ids) {i : ℕ}
    (hs : r'.Sound ids) : ∀ r ∈ routers.set i r', r.Sound ids := by
  intro r hr
  rcases List.mem_or_eq_of_mem_set hr with hr | rfl
  · exact h r hr
  · exact hs

theorem ids_enqueue (routers : List Router) (routerId : Int) (message : Message) :
    (enqueue routers routerId message).map Router.routerId = routers.map Router.routerId :=
  map_modifyFirst fun _ => rfl

theorem total_enqueue {routers : List Router} {routerId : Int} (message : Message)
    (h : routerId ∈ routers.map Router.routerId) :
    total Router.contents (enqueue routers routerId message) =
      total Router.contents routers + {message} := by
  refine total_modifyFirst ?_ fun r _ => r.contents_addMessage message
  obtain ⟨r, hr, hid⟩ := List.mem_map.mp h
  exact ⟨r, hr, by simpa using hid⟩

namespace Manager

/-- **Every message added is in one place.** -/
structure Conserved (ids : List Int) (m : Manager) : Prop where
  sameIds : m.routers.map Router.routerId = ids
  sound : ∀ r ∈ m.routers, r.Sound ids
  total : (m.added : Multiset Message) =
    total Router.contents m.routers + ↑(m.received.map Prod.snd)
  home : ∀ x ∈ m.received, x.1 = x.2.destination
  tags : m.added.map Message.tag = List.range m.added.length

/-- Routers that hold the same, and lines that say nothing was received. -/
theorem Conserved.move (h : m.Conserved ids) {routers : List Router} {lines : List Line}
    (hids : routers.map Router.routerId = m.routers.map Router.routerId)
    (hs : ∀ r ∈ routers, r.Sound ids)
    (htotal : Lib.total Router.contents routers = Lib.total Router.contents m.routers)
    (hlines : lines.filterMap Line.receipt = []) :
    Conserved ids { m with routers, output := m.output ++ lines } := by
  have hreceived : received { m with routers, output := m.output ++ lines } = m.received := by
    simp [received, List.filterMap_append, hlines]
  refine ⟨hids.trans h.sameIds, hs, ?_, hreceived ▸ h.home, h.tags⟩
  rw [hreceived, htotal]
  exact h.total

/-- Routers that hold one message less, and a line that says it was received. -/
theorem Conserved.receive (h : m.Conserved ids) {routers : List Router} {message : Message}
    (hids : routers.map Router.routerId = m.routers.map Router.routerId)
    (hs : ∀ r ∈ routers, r.Sound ids)
    (htotal : Lib.total Router.contents m.routers =
      Lib.total Router.contents routers + {message}) :
    Conserved ids { m with
      routers, output := m.output ++ [.received message.destination message] } := by
  have hreceived : received { m with
      routers, output := m.output ++ [.received message.destination message] } =
      m.received ++ [(message.destination, message)] := by
    simp [received, List.filterMap_append, Line.receipt]
  refine ⟨hids.trans h.sameIds, hs, ?_, ?_, h.tags⟩
  · show (m.added : Multiset Message) = _
    rw [hreceived, h.total, htotal, List.map_append, ← Multiset.coe_add, List.map_singleton,
      Multiset.coe_singleton]
    abel
  · rw [hreceived]
    intro x hx
    rcases List.mem_append.mp hx with hx | hx
    · exact h.home x hx
    · rw [List.mem_singleton.mp hx]

/-- The message a router holds goes to the queue of the next router. -/
theorem Conserved.send (h : m.Conserved ids) {i : ℕ} (hi : m.routers[i]? = some r)
    (hq : r.messageQueued = true) : (m.send i r).Conserved ids := by
  have hr := h.sound r (List.mem_of_getElem? hi)
  have hnext : r.nextMsg.1 ∈ m.routers.map Router.routerId := h.sameIds ▸ hr.next hq
  have hknown : r.nextMsg.2.destination ∈ ids :=
    hr.known _ (Multiset.mem_coe.mpr (List.mem_append_right _ (by simp [Router.held, hq])))
  have hsound : ∀ r' ∈ enqueue m.routers r.nextMsg.1 r.nextMsg.2, r'.Sound ids :=
    sound_enqueue h.sound hknown
  -- the next router may be the sending one, whose queue then changes too
  obtain ⟨r₁, hr₁, ho⟩ : ∃ r₁, (enqueue m.routers r.nextMsg.1 r.nextMsg.2)[i]? = some r₁ ∧
      (r₁ = r ∨ r₁ = r.addMessage r.nextMsg.2) := getElem?_modifyFirst hi
  have hq₁ : r₁.messageQueued = true := by rcases ho with rfl | rfl <;> exact hq
  have hnext₁ : r₁.nextMsg = r.nextMsg := by rcases ho with rfl | rfl <;> rfl
  unfold Manager.send
  dsimp only
  rw [modify_eq_set hr₁]
  refine h.move ?_ (sound_set hsound (hsound r₁ (List.mem_of_getElem? hr₁)).sent) ?_ rfl
  · rw [map_set Router.routerId hr₁ (show r₁.sent.routerId = r₁.routerId from rfl), ids_enqueue]
  · have hset := total_set Router.contents hr₁ r₁.sent
    rw [total_enqueue _ hnext, Router.contents_sent hq₁, hnext₁] at hset
    refine add_right_cancel (b := r₁.sent.contents + {r.nextMsg.2}) (hset.trans ?_)
    abel

/-- A router takes its next message. -/
theorem Conserved.prepare (h : m.Conserved ids) {i : ℕ} (hi : m.routers[i]? = some r)
    (hfree : r.messageQueued = false) (now : Int) :
    Conserved ids { m with
      routers := m.routers.set i (r.prepare now).1, output := m.output ++ (r.prepare now).2 } := by
  obtain ⟨hid, hs, ho⟩ := Router.prepare_spec (h.sound r (List.mem_of_getElem? hi)) hfree now
  have hids := map_set Router.routerId hi hid
  have hset := total_set Router.contents hi (r.prepare now).1
  rcases ho with ⟨hlines, hc⟩ | ⟨message, hlines, hd, hc⟩
  · refine h.move hids (sound_set h.sound hs) ?_ (by rw [hlines]; rfl)
    rw [hc] at hset
    exact add_right_cancel hset
  · rw [hlines, ← hd]
    refine h.receive hids (sound_set h.sound hs) ?_
    rw [hc] at hset
    refine add_right_cancel (b := (r.prepare now).1.contents) (hset.symm.trans ?_)
    abel

/-- After the sending, the router at the index holds nothing. -/
theorem free_send {i : ℕ} (hi : (m.send i r).routers[i]? = some r') : r'.messageQueued = false := by
  rw [send, List.getElem?_modify_eq] at hi
  obtain ⟨r₁, -, rfl⟩ := Option.map_eq_some_iff.mp hi
  rfl

/-- **One router's tick.** -/
theorem Conserved.tickRouter (h : m.Conserved ids) (now : Int) (i : ℕ) :
    (m.tickRouter now i).Conserved ids := by
  unfold Manager.tickRouter
  split
  · exact h
  · rename_i r hi
    split_ifs with hidle hwait hq
    · exact h
    · exact h
    · have hsend := h.send hi hq
      dsimp only
      split
      · exact hsend
      · exact hsend.prepare ‹_› (free_send ‹_›) now
    · have hfree : r.messageQueued = false := by simpa using hq
      dsimp only
      rw [hi]
      exact h.prepare hi hfree now

theorem Conserved.pass (h : m.Conserved ids) (now : ℕ → Int) (k : ℕ) :
    (m.pass now k).Conserved ids := by
  induction k with
  | zero => exact h
  | succ k ih =>
      rw [Manager.pass, List.range_succ, List.foldl_append]
      exact ih.tickRouter (now k) k

theorem Conserved.addMessage (h : m.Conserved ids) {source destination : Int} (hs : source ∈ ids)
    (hd : destination ∈ ids) : (m.addMessage source destination).Conserved ids where
  sameIds := (ids_enqueue _ _ _).trans h.sameIds
  sound := sound_enqueue h.sound hd
  total := by
    show ((m.added ++ [_] : List Message) : Multiset Message) =
      Lib.total Router.contents (enqueue m.routers source _) + ↑(m.received.map Prod.snd)
    rw [total_enqueue _ (h.sameIds ▸ hs), ← Multiset.coe_add, h.total, Multiset.coe_singleton]
    abel
  home := h.home
  tags := by
    show (m.added ++ [_]).map Message.tag = List.range (m.added ++ [_]).length
    rw [List.map_append, h.tags, List.length_append, List.length_singleton, List.range_succ]
    rfl

/-- The call is between routers of the network. -/
def Call.Among (ids : List Int) : Call → Prop
  | .addMessage source destination => source ∈ ids ∧ destination ∈ ids
  | .tick _ => True

theorem Conserved.call (h : m.Conserved ids) {c : Call} (hc : c.Among ids) :
    (m.call c).Conserved ids := by
  cases c with
  | addMessage source destination => exact h.addMessage hc.1 hc.2
  | tick now => exact h.pass now _

/-- **Every sequence of calls.** -/
theorem Conserved.run {calls : List Call} (hcalls : ∀ c ∈ calls, c.Among ids) :
    ∀ {m : Manager}, m.Conserved ids → (m.run calls).Conserved ids := by
  induction calls with
  | nil => exact fun h => h
  | cons c calls ih =>
      exact fun h =>
        ih (fun d hd => hcalls d (List.mem_cons_of_mem _ hd)) (h.call (hcalls c (by simp)))

/-! ### Where a message is -/

/-- The messages in the routers' queues. -/
def queued (m : Manager) : List Message := m.routers.flatMap Router.messageQueue

/-- The messages in the routers' `next_msg`, with `message_queued` set. -/
def held (m : Manager) : List Message := m.routers.flatMap Router.held

theorem total_contents (routers : List Router) : Lib.total Router.contents routers =
    ↑(routers.flatMap Router.messageQueue) + ↑(routers.flatMap Router.held) := by
  induction routers with
  | nil => rfl
  | cons r routers ih =>
      simp only [Lib.total_cons, ih, List.flatMap_cons, Router.contents, ← Multiset.coe_add]
      abel

theorem Conserved.count (h : m.Conserved ids) (message : Message) :
    m.added.count message = m.queued.count message + m.held.count message +
      (m.received.map Prod.snd).count message := by
  have := congrArg (Multiset.count message) h.total
  rwa [total_contents, Multiset.count_add, Multiset.count_add, Multiset.coe_count,
    Multiset.coe_count, Multiset.coe_count, Multiset.coe_count] at this

theorem Conserved.nodup_added (h : m.Conserved ids) : m.added.Nodup :=
  .of_map Message.tag (h.tags ▸ List.nodup_range)

/-- A network at rest holds nothing. -/
theorem held_of_finished (h : m.finished = true) : m.queued = [] ∧ m.held = [] := by
  have hr : ∀ r ∈ m.routers, r.messageQueue = [] ∧ r.messageQueued = false := by
    simpa [finished] using h
  constructor
  · exact List.flatMap_eq_nil_iff.mpr fun r hm => (hr r hm).1
  · exact List.flatMap_eq_nil_iff.mpr fun r hm => by simp [Router.held, (hr r hm).2]

/-- The routers before any call, with tables that name a router for every other router. -/
structure Ready (routers : List Router) : Prop where
  unique : (routers.map Router.routerId).Nodup
  table : ∀ r ∈ routers, ∀ r' ∈ routers, r'.routerId ≠ r.routerId →
    ∃ hop ∈ routers.map Router.routerId, r.forwardingTable.get? r'.routerId = some hop
  idle : ∀ r ∈ routers, r.messageQueue = [] ∧ r.messageQueued = false

theorem Ready.conserved {routers : List Router} (h : Ready routers) :
    (new routers).Conserved (routers.map Router.routerId) where
  sameIds := rfl
  sound r hr :=
    { table := fun d hd hne => by
        obtain ⟨r', hr', rfl⟩ := List.mem_map.mp hd
        exact h.table r hr r' hr' hne
      known := fun message hm => by
        simp [Router.contents, Router.held, h.idle r hr] at hm
      next := fun hq => by simp [h.idle r hr] at hq }
  total := by
    have : Lib.total Router.contents routers = 0 :=
      Lib.total_eq_zero.mpr fun r hr => by simp [Router.contents, Router.held, h.idle r hr]
    simp [new, this, received]
  home := by simp [new, received]
  tags := rfl

/-- **Nothing is lost and nothing is copied.**  Take routers with unique ids and tables that name a
router for every other router's id, any calls of `add_message` between them and of `tick`, at any
readings of the clock, and any number of router ticks of one pass more.  Then every message added is
in one queue, or in one `next_msg`, or received, and in one of these only; what is received was
added, and is received at its destination, once; and once `finished` holds, every message added has
been received at its destination exactly once. -/
theorem places_unique (routers : List Router) (hr : Ready routers) (calls : List Call)
    (hcalls : ∀ c ∈ calls, c.Among (routers.map Router.routerId)) (now : ℕ → Int) (k : ℕ) :
    let m := ((new routers).run calls).pass now k
    (∀ message ∈ m.added, m.queued.count message + m.held.count message +
        (m.received.map Prod.snd).count message = 1) ∧
      (∀ x ∈ m.received, x.1 = x.2.destination ∧ x.2 ∈ m.added) ∧
      (m.received.map Prod.snd).Nodup ∧
      (m.finished = true →
        ∀ message ∈ m.added, m.received.count (message.destination, message) = 1) := by
  intro m
  have h : m.Conserved (routers.map Router.routerId) := (hr.conserved.run hcalls).pass now k
  -- tags are the positions in `added`, so no two messages are equal
  have hone : ∀ message ∈ m.added, m.added.count message = 1 := fun message hm =>
    List.count_eq_one_of_mem h.nodup_added hm
  have hadded : ∀ message ∈ m.received.map Prod.snd, message ∈ m.added := fun message hm => by
    have := h.count message
    rw [← List.count_pos_iff]
    have hpos := List.count_pos_iff.mpr hm
    omega
  have hnodup : (m.received.map Prod.snd).Nodup := by
    refine List.nodup_iff_count_le_one.mpr fun message => ?_
    by_cases hm : message ∈ m.added
    · have := h.count message
      have := hone message hm
      omega
    · rw [List.count_eq_zero_of_not_mem fun hr => hm (hadded _ hr)]
      exact Nat.zero_le 1
  refine ⟨fun message hm => (h.count message).symm.trans (hone message hm),
    fun x hx => ⟨h.home x hx, hadded _ (List.mem_map_of_mem hx)⟩, hnodup, fun hf message hm => ?_⟩
  -- nothing is queued or held, so what was added was received
  obtain ⟨hqueued, hheld⟩ := held_of_finished hf
  have hcount := (h.count message).symm.trans (hone message hm)
  rw [hqueued, hheld, List.count_nil, zero_add, zero_add] at hcount
  have hmem : message ∈ m.received.map Prod.snd := List.count_pos_iff.mp (by omega)
  obtain ⟨⟨routerId, message'⟩, hx, heq⟩ := List.mem_map.mp hmem
  obtain rfl : message' = message := heq
  have hid : routerId = message'.destination := h.home _ hx
  exact List.count_eq_one_of_mem (.of_map _ hnodup) (hid ▸ hx)

theorem ready_exampleNetwork : Ready exampleNetwork :=
  ⟨by decide +kernel, by decide +kernel, by decide +kernel⟩

/-- The calls of `main`, a second apart. -/
def exampleCalls : List Call :=
  [.addMessage 3 1, .addMessage 1 3] ++ (List.range 5).map fun t => .tick fun _ => 1000 * t

theorem places_unique_exampleNetwork :
    let m := ((new exampleNetwork).run exampleCalls).pass (fun _ => 5000) 2
    (∀ message ∈ m.added, m.queued.count message + m.held.count message +
        (m.received.map Prod.snd).count message = 1) ∧
      (∀ x ∈ m.received, x.1 = x.2.destination ∧ x.2 ∈ m.added) ∧
      (m.received.map Prod.snd).Nodup ∧
      (m.finished = true →
        ∀ message ∈ m.added, m.received.count (message.destination, message) = 1) :=
  places_unique exampleNetwork ready_exampleNetwork exampleCalls
    (by simp [exampleCalls, Call.Among, exampleNetwork, Router.new, Router.setForwardingTables])
    (fun _ => 5000) 2

example : ((new exampleNetwork).run exampleCalls).finished = true ∧
    ((new exampleNetwork).run exampleCalls).received = [(3, ⟨3, 1⟩), (1, ⟨1, 0⟩)] := by
  decide +kernel

end Manager

end PacketSim.Topology
