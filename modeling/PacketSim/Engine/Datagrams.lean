import PacketSim.Engine.Ledger
import PacketSim.Lib.Losses

/-!
# Engine — Datagrams

UDP mode sends and forgets.  Every sequence is transmitted once, not before its time, and never
again, whatever becomes of it (`Datagrams`); so what the receiver misses at the end is bounded by
what the network dropped.
-/

namespace PacketSim
open Lib History

/-- The sequence of a transmission. -/
def HistoryEntry.sent? : HistoryEntry → Option ℕ
  | .transmitted k _ _ => some k
  | .arrived _ _ => none
  | .acknowledged _ _ => none

theorem mem_filterMap_sent {h : List HistoryEntry} {k : ℕ} :
    k ∈ h.filterMap HistoryEntry.sent? ↔ k ∈ transmitted h := by
  induction h with
  | nil => simp
  | cons entry h ih => cases entry <;> simp [HistoryEntry.sent?, ← ih]

namespace Net

/-- The sequences of the packets held. -/
def live (n : Net) : Multiset ℕ := n.held.map fun x => x.2.sequence

/-- The invariant of a UDP run. -/
structure Datagrams (n : Net) : Prop where
  queued : n.Queued
  data : ∀ x ∈ n.held, x.2.packetType = .data
  resent : n.stats.retransmissions = 0
  acks : n.stats.acknowledgements = 0
  sends : ∀ ev ∈ n.pending, ∃ k < n.setting.packetGoal, ev.callback = .sendData k ∧
    ev.dueTime = k * sendIntervalMs
  all : ∀ k < n.setting.packetGoal, k ∈ Net.sends n.pending ∨ k ∈ transmitted n.history
  inTime : ∀ (k : ℕ) (re : Bool) (t : ℚ), .transmitted k re t ∈ n.history →
    re = false ∧ k * sendIntervalMs ≤ t
  once : (n.history.filterMap HistoryEntry.sent?).Nodup
  accounted : Accounted (transmitted n.history) n.delivered n.live n.stats.packetsDropped

variable {n n' : Net}

theorem datagrams_start {s : Setting} (hm : s.mode = .udp) : (start s).Datagrams where
  queued := queued_start hm
  data x hx := by simp [start, atRest] at hx
  resent := rfl
  acks := rfl
  sends ev hev := by
    have hev : ev ∈ firstEvents s := hev
    rw [firstEvents, hm, Multiset.mem_map] at hev
    obtain ⟨k, hk, rfl⟩ := hev
    exact ⟨k, Multiset.mem_range.mp hk, rfl, zero_add _⟩
  all k hk := by
    refine .inl (mem_sends.mpr ⟨⟨0 + k * sendIntervalMs, 1 + k, .sendData k⟩, ?_, rfl⟩)
    show _ ∈ firstEvents s
    rw [firstEvents, hm]
    exact Multiset.mem_map_of_mem
      (fun k : ℕ => (⟨0 + k * sendIntervalMs, 1 + k, .sendData k⟩ : Event))
      (Multiset.mem_range.mpr hk)
  inTime k re t h := by simp [start, atRest] at h
  once := List.nodup_nil
  accounted := .empty

/-- Packets may move about and be copied. -/
theorem Datagrams.moved (h : n.Datagrams) {held : Multiset (Place × Packet)} (nextPacketId : ℕ)
    (stats : RunStats) (hm : ∀ x ∈ held, ∃ y ∈ n.held, x.2.packetType = y.2.packetType)
    (hlive : n.live ⊆ held.map fun x => x.2.sequence)
    (hre : stats.retransmissions = n.stats.retransmissions)
    (hack : stats.acknowledgements = n.stats.acknowledgements)
    (hdrop : stats.packetsDropped = n.stats.packetsDropped) :
    Datagrams { n with held, nextPacketId, stats } where
  queued := ⟨h.queued.awaiting, h.queued.nodup, h.queued.fresh⟩
  data x hx := by
    obtain ⟨y, hy, heq⟩ := hm x hx
    exact heq.trans (h.data y hy)
  resent := hre.trans h.resent
  acks := hack.trans h.acks
  sends := h.sends
  all := h.all
  inTime := h.inTime
  once := h.once
  accounted := by
    show Accounted _ _ _ stats.packetsDropped
    rw [hdrop]
    exact h.accounted.mono hlive

theorem Datagrams.transmit (h : n.Datagrams) (hm : n.setting.mode ≠ .tcp) {ev : Event}
    {M : Multiset Event} {k : ℕ} (hev : n.pending = ev ::ₘ M) (hdue : ev.dueTime ≤ n.clock)
    (hc : ev.callback = .sendData k) :
    (Net.transmit { n with pending := M } k false).Datagrams := by
  have hq := h.queued.transmit hm hev hc
  have hfresh : k ∉ transmitted n.history := h.queued.fresh k
    (mem_sends.mpr ⟨ev, hev ▸ Multiset.mem_cons_self _ _, hc⟩)
  have htime : k * sendIntervalMs ≤ n.clock := by
    obtain ⟨j, -, hj, hdue'⟩ := h.sends ev (hev ▸ Multiset.mem_cons_self _ _)
    obtain rfl : j = k := Callback.sendData.inj (hj.symm.trans hc)
    exact hdue' ▸ hdue
  have hpending : (Net.transmit { n with pending := M } k false).pending = M := by
    rw [transmit_udp { n with pending := M } k false hm]
    rfl
  refine ⟨hq, fun x hx => ?_, ?_, ?_, fun ev' hev' => ?_, fun j hj => ?_, fun j re t hj => ?_,
    ?_, ?_⟩
  · rw [held_transmit] at hx
    rcases Multiset.mem_cons.mp hx with rfl | hx
    · rfl
    · exact h.data x hx
  · rw [stats_transmit]
    exact h.resent
  · rw [stats_transmit]
    exact h.acks
  · rw [hpending] at hev'
    rw [setting_transmit]
    exact h.sends ev' (hev ▸ Multiset.mem_cons_of_mem hev')
  · rw [setting_transmit] at hj
    have := h.all j hj
    rw [hev, sends_cons hc, Multiset.mem_cons] at this
    rw [hpending, history_transmit, transmitted_transmitted, Finset.mem_insert]
    tauto
  · rw [history_transmit] at hj
    rcases List.mem_cons.mp hj with heq | hj
    · cases heq
      exact ⟨rfl, htime⟩
    · exact h.inTime j re t hj
  · rw [history_transmit]
    exact List.nodup_cons.mpr ⟨fun hk => hfresh (mem_filterMap_sent.mp hk), h.once⟩
  · rw [history_transmit, delivered_transmit, stats_transmit, live, held_transmit,
      Multiset.map_cons]
    exact h.accounted.send k

/-- A packet is lost. -/
theorem Datagrams.lose (h : n.Datagrams) {x : Place × Packet} {M : Multiset (Place × Packet)}
    (hheld : n.held = x ::ₘ M) : (n.lose M).Datagrams where
  queued := ⟨h.queued.awaiting, h.queued.nodup, h.queued.fresh⟩
  data y hy := h.data y (mem_rest hheld hy)
  resent := h.resent
  acks := h.acks
  sends := h.sends
  all := h.all
  inTime := h.inTime
  once := h.once
  accounted := by
    have := h.accounted
    rw [live, hheld, Multiset.map_cons] at this
    exact this.lose

/-- A packet moves, and no other changes. -/
theorem Datagrams.move (h : n.Datagrams) {x y : Place × Packet} {M : Multiset (Place × Packet)}
    (hheld : n.held = x ::ₘ M) (htype : y.2.packetType = x.2.packetType)
    (hseq : y.2.sequence = x.2.sequence) : Datagrams { n with held := y ::ₘ M } := by
  refine h.moved n.nextPacketId n.stats (fun z hz => ?_)
    (fun k hk => ?_) rfl rfl rfl
  · rcases Multiset.mem_cons.mp hz with rfl | hz
    · exact ⟨x, mem_head hheld, htype⟩
    · exact ⟨z, mem_rest hheld hz, rfl⟩
  · rw [live, hheld, Multiset.map_cons] at hk
    rwa [Multiset.map_cons, hseq]

/-- A packet reaches the receiver. -/
theorem Datagrams.receive (h : n.Datagrams) (hm : n.setting.mode ≠ .tcp) {a : Int} {p : Packet}
    {M : Multiset (Place × Packet)} (hheld : n.held = (.link a p.destination, p) ::ₘ M) :
    ((n.arrive M (p.arriveAt p.destination)).receive p.sequence).Datagrams := by
  have hstats : ∀ (m : Net) (k : ℕ),
      (m.noteDelivered k).stats.retransmissions = m.stats.retransmissions ∧
      (m.noteDelivered k).stats.acknowledgements = m.stats.acknowledgements ∧
      (m.noteDelivered k).stats.packetsDropped = m.stats.packetsDropped := by
    intro m k
    unfold noteDelivered
    split <;> exact ⟨rfl, rfl, rfl⟩
  obtain ⟨hre, hack, hdrop⟩ := hstats (n.arrive M (p.arriveAt p.destination)) p.sequence
  rw [receive_udp (n.arrive M (p.arriveAt p.destination)) p.sequence hm]
  refine ⟨⟨h.queued.awaiting, h.queued.nodup, h.queued.fresh⟩,
    fun y hy => h.data y (mem_rest hheld hy), hre.trans h.resent, hack.trans h.acks, h.sends, h.all,
    fun k re t hk => ?_, h.once, ?_⟩
  · exact h.inTime k re t (by simpa [arrive] using hk)
  · have := h.accounted
    rw [live, hheld, Multiset.map_cons] at this
    exact hdrop ▸ this.deliver

/-- **Every step of a UDP run.** -/
theorem Datagrams.step (h : n.Datagrams) (hm : n.setting.mode ≠ .tcp) (hs : Step n n') :
    n'.Datagrams := by
  have hq := h.queued.step hm hs
  cases hs with
  | @ignore ev M hev _ hi =>
      refine { h with queued := hq, sends := fun ev' hev' => ?_, all := fun k hk => ?_ }
      · exact h.sends ev' (hev ▸ Multiset.mem_cons_of_mem hev')
      · refine (h.all k hk).imp_left fun hmem => ?_
        obtain ⟨ev', hev', hc⟩ := mem_sends.mp hmem
        rw [hev] at hev'
        rcases Multiset.mem_cons.mp hev' with rfl | hev'
        -- only the send of a sequence past the goal is ignored
        · rw [hc] at hi
          exact absurd hk (not_lt.mpr hi)
        · exact mem_sends.mpr ⟨ev', hev', hc⟩
  | send hev hdue hc _ => exact h.transmit hm hev hdue hc
  | resend _ _ _ _ _ haw _ => exact absurd haw (by simp [h.queued.awaiting])
  | block hheld _ _ => exact h.lose hheld
  | lose hheld => exact h.lose hheld
  | launch hheld _ _ _ => exact h.move hheld rfl rfl
  | @launchTwice node hop d p M r hheld _ _ _ =>
      refine (h.move (y := (.link r.routerId hop, p)) hheld rfl rfl).moved _ _ (fun z hz => ?_)
        (fun k hk => ?_) rfl rfl rfl
      · rcases Multiset.mem_cons.mp hz with rfl | hz
        · exact ⟨_, Multiset.mem_cons_self _ _, rfl⟩
        · exact ⟨z, hz, rfl⟩
      · rw [Multiset.map_cons]
        exact Multiset.mem_cons_of_mem hk
  | relay hheld _ => exact h.move hheld rfl rfl
  | receive hheld _ => exact h.receive hm hheld
  | ignoreAck hheld hp _ => cases hp.symm.trans (h.data _ (mem_head hheld))
  | accept hheld hp _ _ => cases hp.symm.trans (h.data _ (mem_head hheld))

theorem Run.datagrams {s : Setting} (hm : s.mode = .udp) (h : Run s n) : n.Datagrams := by
  induction h with
  | start => exact datagrams_start hm
  | tick _ _ _ ih =>
      exact { ih with queued := ⟨ih.queued.awaiting, ih.queued.nodup, ih.queued.fresh⟩ }
  | step h _ hs ih => exact ih.step (by simp [h.setting, hm]) hs
  | finish _ _ ih =>
      exact { ih with queued := ⟨ih.queued.awaiting, ih.queued.nodup, ih.queued.fresh⟩ }

end Net

namespace Engine

variable {σ : Type}

/-- The sequences on their way that have not been delivered yet. -/
def missing (e : Engine σ) : Finset ℕ :=
  (e.packets.map Packet.sequence).toFinset \ e.deliveredSequences

/-- **UDP mode sends and forgets.**  In every state of a UDP run each sequence was transmitted at
most once, never before its time and never again, and nothing was acknowledged; and each sequence
transmitted is delivered, or on its way, or lost, and no more are lost than packets were dropped. -/
theorem run_datagrams [RandomSource σ] {e₀ e : Engine σ} (hmode : e₀.mode = .udp) (h : Run e₀ e) :
    (e.history.filterMap HistoryEntry.sent?).Nodup ∧
    (∀ (k : ℕ) (re : Bool) (t : ℚ), .transmitted k re t ∈ e.history →
      re = false ∧ k * sendIntervalMs ≤ t) ∧
    e.stats.retransmissions = 0 ∧ e.stats.acknowledgements = 0 ∧
    (∀ p ∈ e.packets, p.packetType = .data) ∧
    (transmitted e.history).card ≤
      e.stats.packetsDelivered + e.missing.card + e.stats.packetsDropped := by
  have hn := h.toNet
  have hd := hn.datagrams hmode
  refine ⟨hd.once, hd.inTime, hd.resent, hd.acks, fun p hp => ?_, ?_⟩
  · obtain ⟨place, hp⟩ := mem_packets.mp hp
    exact hd.data _ hp
  · have hcount : e.stats.packetsDelivered = e.deliveredSequences.card := hn.ledger.count
    have hlive : e.toNet.live.toFinset = (e.packets.map Packet.sequence).toFinset := by
      have hmap := congrArg (Multiset.map Packet.sequence) (packets_toNet e)
      rw [Multiset.map_map, Multiset.map_coe] at hmap
      rw [Net.live, ← List.toFinset_coe, hmap]
      rfl
    have hle := hd.accounted.card_le
    rw [hlive] at hle
    exact hcount ▸ hle

theorem run_datagrams_ring : ∃ e, (Steady.engine "Redundant Ring" .udp).ticks
    [16, 300, 300, 300] = .ok e ∧ (transmitted e.history).card ≤
      e.stats.packetsDelivered + e.missing.card + e.stats.packetsDropped := by
  obtain ⟨e, he⟩ := exists_ok (x := (Steady.engine "Redundant Ring" .udp).ticks
    [16, 300, 300, 300]) (by decide +kernel)
  exact ⟨e, he, (run_datagrams (by decide +kernel) (.of_ticks (by decide +kernel) he)).2.2.2.2.2⟩

end Engine

end PacketSim
