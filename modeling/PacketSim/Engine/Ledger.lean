import PacketSim.Engine.StopAndWait

/-!
# Engine — Ledger

No packet is lost from the books.  A packet is made when a sequence is sent, resent or
acknowledged, or when a link repeats it; it is gone when a link loses it, a rule drops it or it
arrives.  `Ledger` balances the statistics against both, and every step of the network keeps it
(`Ledger.step`).  A first transmission must be told from a retransmission: that is `Turns`, which
TCP runs have from `Holds` and UDP runs from `Queued`.

* `run_ledger`: the statistics of every state of every run.
-/

namespace PacketSim
open Lib History

namespace Net

/-! ### Whose turn it is -/

/-- A pending send is of a sequence not yet transmitted, an awaited sequence is transmitted. -/
structure Turns (n : Net) : Prop where
  fresh : ∀ ev ∈ n.pending, ∀ k, ev.callback = .sendData k → k ∉ transmitted n.history
  awaited : ∀ k, n.awaiting = some k → k ∈ transmitted n.history

theorem Holds.turns {n : Net} {ph : Phase} (h : n.Holds ph) : n.Turns where
  fresh := fun ev hev k hc => by
    obtain ⟨M, hM⟩ := Multiset.exists_cons_of_mem hev
    obtain ⟨rfl, -⟩ := h.eq_ready hM hc
    simp [h.transmitted, Phase.sent]
  awaited := fun k hk => by
    cases ph with
    | ready j => cases h.awaiting.symm.trans hk
    | ended => cases h.awaiting.symm.trans hk
    | waiting j =>
        cases h.awaiting.symm.trans hk
        simp [h.transmitted, Phase.sent]

/-- The sequences whose send is pending. -/
def sends (M : Multiset Event) : Multiset ℕ :=
  M.filterMap fun ev => match ev.callback with
    | .sendData k => some k
    | .onTimeout _ _ => none

theorem mem_sends {M : Multiset Event} {k : ℕ} :
    k ∈ sends M ↔ ∃ ev ∈ M, ev.callback = .sendData k := by
  rw [sends, Multiset.mem_filterMap]
  refine exists_congr fun ev => and_congr_right fun _ => ?_
  split <;> simp_all

theorem sends_le {ev : Event} {M : Multiset Event} : sends M ≤ sends (ev ::ₘ M) :=
  Multiset.filterMap_le_filterMap _ (Multiset.le_cons_self M ev)

theorem sends_cons {ev : Event} {M : Multiset Event} {k : ℕ} (h : ev.callback = .sendData k) :
    sends (ev ::ₘ M) = k ::ₘ sends M :=
  Multiset.filterMap_cons_some _ _ _ (by simp [h])

/-- The invariant of a UDP run: the pending sends are distinct, and all still to come. -/
structure Queued (n : Net) : Prop where
  awaiting : n.awaiting = none
  nodup : (sends n.pending).Nodup
  fresh : ∀ k ∈ sends n.pending, k ∉ transmitted n.history

theorem Queued.turns {n : Net} (h : n.Queued) : n.Turns where
  fresh ev hev k hc := h.fresh k (mem_sends.mpr ⟨ev, hev, hc⟩)
  awaited k hk := by
    rw [h.awaiting] at hk
    cases hk

theorem queued_start {s : Setting} (hm : s.mode = .udp) : (start s).Queued where
  awaiting := rfl
  nodup := by
    have : sends (firstEvents s) = Multiset.range s.packetGoal := by
      rw [sends, firstEvents, hm, Multiset.filterMap_map]
      exact Multiset.filterMap_some _
    show (sends (firstEvents s)).Nodup
    rw [this]
    exact Multiset.nodup_range _
  fresh k _ := by simp [start, atRest]

theorem Queued.transmit {n : Net} {M : Multiset Event} {k : ℕ} (hm : n.setting.mode ≠ .tcp)
    (h : n.Queued) {ev : Event} (hev : n.pending = ev ::ₘ M) (hc : ev.callback = .sendData k) :
    (Net.transmit { n with pending := M } k false).Queued := by
  have hnodup := h.nodup
  have hfresh := h.fresh
  rw [hev, sends_cons hc] at hnodup hfresh
  rw [transmit_udp { n with pending := M } k false hm]
  refine ⟨h.awaiting, (Multiset.nodup_cons.mp hnodup).2, fun j hj => ?_⟩
  show j ∉ History.transmitted (.transmitted k false n.clock :: n.history)
  rw [transmitted_transmitted, Finset.mem_insert, not_or]
  refine ⟨?_, hfresh j (Multiset.mem_cons_of_mem hj)⟩
  rintro rfl
  exact (Multiset.nodup_cons.mp hnodup).1 hj

theorem Queued.step {n n' : Net} (hm : n.setting.mode ≠ .tcp) (h : n.Queued) (hs : Step n n') :
    n'.Queued := by
  have hnone : ∀ {k}, n.awaiting ≠ some k := by simp [h.awaiting]
  cases hs with
  | ignore hev _ _ =>
      exact ⟨h.awaiting, Multiset.nodup_of_le sends_le (hev ▸ h.nodup),
        fun k hk => h.fresh k (hev ▸ Multiset.mem_of_le sends_le hk)⟩
  | send hev _ hc _ => exact h.transmit hm hev hc
  | resend _ _ _ _ _ haw _ => exact absurd haw hnone
  | @receive a p M _ _ =>
      rw [receive_udp (n.arrive M (p.arriveAt p.destination)) p.sequence hm]
      exact ⟨h.awaiting, h.nodup, h.fresh⟩
  | accept _ _ haw _ => exact absurd haw hnone
  | _ => exact ⟨h.awaiting, h.nodup, h.fresh⟩

theorem Run.queued {s : Setting} {n : Net} (hm : s.mode = .udp) (h : Run s n) : n.Queued := by
  induction h with
  | start => exact queued_start hm
  | tick _ _ _ ih => exact ⟨ih.awaiting, ih.nodup, ih.fresh⟩
  | step h _ hs ih => exact ih.step (by simp [h.setting, hm]) hs
  | finish _ _ ih => exact ⟨ih.awaiting, ih.nodup, ih.fresh⟩

theorem Run.turns {s : Setting} {n : Net} (h : Run s n) : n.Turns := by
  cases hm : s.mode with
  | udp => exact (h.queued hm).turns
  | tcp =>
      obtain ⟨ph, hph⟩ := h.holds hm
      exact hph.turns

/-! ### The books -/

/-- The statistics agree with the packets held and with the history. -/
structure Ledger (n : Net) : Prop where
  ids : Numbered (fun x => x.2.packetId) n.held n.nextPacketId
  gone : n.stats.packetsSent = n.held.card + n.stats.packetsDropped + arrivals n.history
  made : n.stats.packetsSent = (transmitted n.history).card + n.stats.retransmissions +
    n.stats.acknowledgements + n.stats.duplicatePackets
  count : n.stats.packetsDelivered = n.delivered.card
  sequences : n.stats.completedSequences = n.delivered
  arrived : arrivedData n.history = n.delivered
  data : ∀ x ∈ n.held, x.2.packetType = .data → x.2.sequence ∈ transmitted n.history
  delivered : n.delivered ⊆ transmitted n.history
  goal : ∀ k ∈ transmitted n.history, k < n.setting.packetGoal

theorem ledger_start (s : Setting) : (start s).Ledger where
  ids := .zero
  gone := rfl
  made := rfl
  count := rfl
  sequences := rfl
  arrived := rfl
  data x hx := by simp [start, atRest] at hx
  delivered := Finset.empty_subset _
  goal k hk := by simp [start, atRest] at hk

theorem Ledger.transmit {n : Net} {M : Multiset Event} {k : ℕ} {re : Bool} (h : n.Ledger)
    (hk : k < n.setting.packetGoal) (hre : re = true ↔ k ∈ transmitted n.history) :
    (Net.transmit { n with pending := M } k re).Ledger := by
  -- a resend adds to the count of retransmissions, a first send to the sequences transmitted
  have hcard : (insert k (transmitted n.history)).card + re.toNat =
      (transmitted n.history).card + 1 := by
    cases re with
    | true => simp [Finset.insert_eq_of_mem (hre.mp rfl)]
    | false => simp [Finset.card_insert_of_notMem fun hmem => by simpa using hre.mpr hmem]
  have hgone := h.gone
  have hmade := h.made
  refine
    { ids := ?_, gone := ?_, made := ?_, count := ?_, sequences := ?_, arrived := ?_, data := ?_,
      delivered := ?_, goal := ?_ }
  · rw [held_transmit, nextPacketId_transmit]
    exact h.ids.new rfl
  · rw [held_transmit, stats_transmit, history_transmit]
    simp only [Multiset.card_cons, arrivals_transmitted]
    omega
  · rw [stats_transmit, history_transmit]
    simp only [transmitted_transmitted]
    omega
  · rw [stats_transmit, delivered_transmit]
    exact h.count
  · rw [stats_transmit, delivered_transmit]
    exact h.sequences
  · rw [history_transmit, delivered_transmit]
    exact h.arrived
  · rw [held_transmit, history_transmit]
    intro x hx hd
    rcases Multiset.mem_cons.mp hx with rfl | hx
    · exact Finset.mem_insert_self _ _
    · exact Finset.mem_insert_of_mem (h.data x hx hd)
  · rw [history_transmit, delivered_transmit]
    exact h.delivered.trans (Finset.subset_insert _ _)
  · rw [history_transmit, setting_transmit]
    intro j hj
    rcases Finset.mem_insert.mp hj with rfl | hj
    · exact hk
    · exact h.goal j hj

theorem Ledger.lose {n : Net} {x : Place × Packet} {M : Multiset (Place × Packet)}
    (h : n.Ledger) (hheld : n.held = x ::ₘ M) : (n.lose M).Ledger := by
  have hgone := h.gone
  rw [hheld, Multiset.card_cons] at hgone
  exact { h with
    ids := (hheld ▸ h.ids).tail
    gone := by simp only [Net.lose]; omega
    data := fun y hy => h.data y (mem_rest hheld hy) }

/-- A packet moves. -/
theorem Ledger.move {n : Net} {x y : Place × Packet} {M : Multiset (Place × Packet)}
    (h : n.Ledger) (hheld : n.held = x ::ₘ M) (hid : y.2.packetId = x.2.packetId)
    (htype : y.2.packetType = x.2.packetType) (hseq : y.2.sequence = x.2.sequence) :
    Ledger { n with held := y ::ₘ M } := by
  have hgone := h.gone
  rw [hheld, Multiset.card_cons] at hgone
  refine { h with ids := (hheld ▸ h.ids).swap hid, gone := ?_, data := fun z hz hd => ?_ }
  · simp only [Multiset.card_cons]
    omega
  · rcases Multiset.mem_cons.mp hz with rfl | hz
    · exact hseq ▸ h.data x (mem_head hheld) (htype ▸ hd)
    · exact h.data z (mem_rest hheld hz) hd

/-- A copy of a packet is added. -/
theorem Ledger.copy {n : Net} {a b : Int} {p : Packet} (h : n.Ledger)
    (hp : p.packetType = .data → p.sequence ∈ transmitted n.history) :
    Ledger { n with
      held := (.link a b, n.copyOf p a) ::ₘ n.held
      nextPacketId := n.nextPacketId + 1
      stats := { n.stats with
        packetsSent := n.stats.packetsSent + 1
        duplicatePackets := n.stats.duplicatePackets + 1 } } := by
  have hgone := h.gone
  have hmade := h.made
  refine { h with ids := h.ids.new rfl, gone := ?_, made := ?_, data := fun z hz hd => ?_ }
  · simp only [Multiset.card_cons]
    omega
  · show n.stats.packetsSent + 1 = (transmitted n.history).card + n.stats.retransmissions +
      n.stats.acknowledgements + (n.stats.duplicatePackets + 1)
    omega
  · rcases Multiset.mem_cons.mp hz with rfl | hz
    · exact hp hd
    · exact h.data z hz hd

theorem Ledger.arriveAck {n : Net} {x : Place × Packet} {M : Multiset (Place × Packet)} {p : Packet}
    (h : n.Ledger) (hheld : n.held = x ::ₘ M) (hp : p.packetType = .ack) :
    (n.arrive M p).Ledger := by
  have hgone := h.gone
  rw [hheld, Multiset.card_cons] at hgone
  exact { h with
    ids := (hheld ▸ h.ids).tail
    gone := by simp only [arrive, arrivals_arrived]; omega
    arrived := (arrivedData_ack n.history _ p hp).trans h.arrived
    data := fun y hy => h.data y (mem_rest hheld hy) }

theorem stats_noteDelivered {n : Net} (k : ℕ) (hcount : n.stats.packetsDelivered = n.delivered.card)
    (hseq : n.stats.completedSequences = n.delivered) :
    (n.noteDelivered k).stats = { n.stats with
      completedSequences := insert k n.delivered
      packetsDelivered := (insert k n.delivered).card } := by
  unfold Net.noteDelivered
  split
  · rename_i hk
    rw [Finset.insert_eq_of_mem hk, ← hcount, ← hseq]
  · rename_i hk
    rw [Finset.card_insert_of_notMem hk, ← hcount, ← hseq]

theorem Ledger.arriveData {n : Net} {a : Int} {p : Packet} {M : Multiset (Place × Packet)}
    (h : n.Ledger) (hheld : n.held = (.link a p.destination, p) ::ₘ M)
    (hp : p.packetType = .data) :
    ((n.arrive M (p.arriveAt p.destination)).noteDelivered p.sequence).Ledger := by
  have hgone := h.gone
  rw [hheld, Multiset.card_cons] at hgone
  rw [noteDelivered_eq, stats_noteDelivered (n := n.arrive M (p.arriveAt p.destination)) p.sequence
    h.count h.sequences]
  refine { h with ids := (hheld ▸ h.ids).tail, gone := ?_, count := rfl, sequences := rfl,
                  arrived := ?_, data := fun y hy => h.data y (mem_rest hheld hy), delivered := ?_ }
  · simp only [arrive, arrivals_arrived]
    omega
  · refine (arrivedData_data n.history _ (p.arriveAt p.destination) hp).trans ?_
    rw [h.arrived]
    rfl
  · exact Finset.insert_subset (h.data _ (mem_head hheld) hp) h.delivered

theorem Ledger.acknowledge {n : Net} (h : n.Ledger) (k : ℕ) : (n.acknowledge k).Ledger := by
  have hgone := h.gone
  have hmade := h.made
  refine { h with ids := h.ids.new rfl, gone := ?_, made := ?_, data := fun z hz hd => ?_ }
  · simp only [Net.acknowledge, inject, Multiset.card_cons]
    omega
  · simp only [Net.acknowledge, inject, newPacket, Bool.toNat_false]
    omega
  · rcases Multiset.mem_cons.mp hz with rfl | hz
    · cases hd
    · exact h.data z hz hd

theorem Ledger.receive {n : Net} {a : Int} {p : Packet} {M : Multiset (Place × Packet)}
    (h : n.Ledger) (hheld : n.held = (.link a p.destination, p) ::ₘ M)
    (hp : p.packetType = .data) :
    ((n.arrive M (p.arriveAt p.destination)).receive p.sequence).Ledger := by
  unfold Net.receive
  dsimp only
  split
  · exact (h.arriveData hheld hp).acknowledge p.sequence
  · exact h.arriveData hheld hp

theorem Ledger.accept {n : Net} (h : n.Ledger) (k : ℕ) : (n.accept k).Ledger := by
  rw [accept_eq n k]
  exact { h with }

/-- **Every step keeps the books.** -/
theorem Ledger.step {n n' : Net} (h : n.Ledger) (ht : n.Turns) (hs : Step n n') : n'.Ledger := by
  cases hs with
  | ignore _ _ _ => exact { h with }
  | send hev _ hc hk =>
      refine h.transmit hk (iff_of_false (by simp) ?_)
      exact ht.fresh _ (hev ▸ Multiset.mem_cons_self _ _) _ hc
  | resend _ _ _ _ _ haw hk => exact h.transmit hk (iff_of_true rfl (ht.awaited _ haw))
  | block hheld _ _ => exact h.lose hheld
  | lose hheld => exact h.lose hheld
  | launch hheld _ _ _ => exact h.move hheld rfl rfl rfl
  | @launchTwice node hop d p M r hheld _ _ _ =>
      have hmove := h.move (y := (.link r.routerId hop, p)) hheld rfl rfl rfl
      exact hmove.copy fun hd => h.data _ (mem_head hheld) hd
  | relay hheld _ => exact h.move hheld rfl rfl rfl
  | receive hheld hp => exact h.receive hheld hp
  | ignoreAck hheld hp _ => exact h.arriveAck hheld hp
  | accept hheld hp _ _ => exact (h.arriveAck (p := Packet.arriveAt _ _) hheld hp).accept _

theorem Run.ledger {s : Setting} {n : Net} (h : Run s n) : n.Ledger := by
  induction h with
  | start => exact ledger_start s
  | tick _ _ _ ih => exact { ih with }
  | step h _ hs ih => exact ih.step h.turns hs
  | finish _ _ ih => exact { ih with }

end Net

namespace Engine

variable {σ : Type}

/-- The statistics of an engine agree with its packets and its history. -/
structure Balanced (e : Engine σ) : Prop where
  ids_distinct : (e.packets.map Packet.packetId).Nodup
  ids_lt : ∀ p ∈ e.packets, p.packetId < e.nextPacketId
  gone : e.stats.packetsSent = e.queuedPackets.length + e.inFlightPackets.length +
    e.stats.packetsDropped + arrivals e.history
  made : e.stats.packetsSent = (transmitted e.history).card + e.stats.retransmissions +
    e.stats.acknowledgements + e.stats.duplicatePackets
  delivered : e.stats.packetsDelivered = e.deliveredSequences.card
  completed : e.stats.packetsDelivered = e.stats.completedSequences.card
  arrived : e.stats.packetsDelivered = (arrivedData e.history).card
  delivered_le : e.stats.packetsDelivered ≤ (transmitted e.history).card
  transmitted_le : (transmitted e.history).card ≤ e.packetGoal
  idle : e.networkIdle = true → e.stats.packetsSent = e.stats.packetsDropped + arrivals e.history

theorem queuedPackets_of_idle {e : Engine σ} (h : e.networkIdle = true) :
    e.queuedPackets = [] ∧ e.inFlightPackets = [] := by
  simp only [networkIdle, Bool.and_eq_true, Bool.not_eq_true', List.any_eq_false,
    List.isEmpty_iff] at h
  obtain ⟨⟨hq, hf⟩, -⟩ := h
  refine ⟨List.flatMap_eq_nil_iff.mpr fun r hr => ?_, hf⟩
  simpa [Router.hasWork] using hq r hr

/-- **The ledger.**  It balances in every state of every run, in either mode. -/
theorem run_ledger [RandomSource σ] {e₀ e : Engine σ} (h : Run e₀ e) : e.Balanced := by
  have hl := h.toNet.ledger
  have hperm := packets_toNet e
  have hcard : e.toNet.held.card = e.queuedPackets.length + e.inFlightPackets.length := by
    have := congrArg Multiset.card hperm
    rw [Multiset.card_map, Multiset.coe_card, packets, List.length_append, List.length_map] at this
    exact this.symm
  have hgone : e.stats.packetsSent = e.queuedPackets.length + e.inFlightPackets.length +
      e.stats.packetsDropped + arrivals e.history := hcard ▸ hl.gone
  have hcount : e.stats.packetsDelivered = e.deliveredSequences.card := hl.count
  have hseq : e.stats.completedSequences = e.deliveredSequences := hl.sequences
  have harr : arrivedData e.history = e.deliveredSequences := hl.arrived
  refine
    { ids_distinct := ?_
      ids_lt := fun p hp => ?_
      gone := hgone
      made := hl.made
      delivered := hcount
      completed := hseq ▸ hcount
      arrived := harr ▸ hcount
      delivered_le := hcount ▸ Finset.card_le_card hl.delivered
      transmitted_le := ?_
      idle := fun hidle => ?_ }
  · have := hl.ids.nodup
    have hmap := congrArg (Multiset.map Packet.packetId) hperm
    rw [Multiset.map_map, Multiset.map_coe] at hmap
    exact Multiset.coe_nodup.mp (hmap ▸ this)
  · obtain ⟨place, hp⟩ := mem_packets.mp hp
    exact hl.ids.lt _ hp
  · have : transmitted e.history ⊆ Finset.range e.packetGoal := fun k hk =>
      Finset.mem_range.mpr (hl.goal k hk)
    simpa using Finset.card_le_card this
  · obtain ⟨hq, hf⟩ := queuedPackets_of_idle hidle
    simpa [hq, hf] using hgone

theorem run_ledger_ring : ∃ e, (Steady.engine "Redundant Ring" .udp).ticks
    [16, 300, 300, 300] = .ok e ∧ e.Balanced := by
  obtain ⟨e, he⟩ := exists_ok (x := (Steady.engine "Redundant Ring" .udp).ticks
    [16, 300, 300, 300]) (by decide +kernel)
  exact ⟨e, he, run_ledger (.of_ticks (by decide +kernel) he)⟩

end Engine

end PacketSim
