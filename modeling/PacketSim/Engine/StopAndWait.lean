import PacketSim.Engine.Control
import PacketSim.Engine.History
import PacketSim.Engine.Refinement

/-!
# Engine — StopAndWait

TCP mode is a stop-and-wait protocol.  At every moment of a run the sender is in one of three
phases: `ready k`, the send of `k` pending; `waiting k`, the acknowledgement of `k` awaited under
one live timer; `ended`.  `Holds` says what each phase implies for the pending events, the packets
held by the network, the receiver and the history; every step of the network keeps it
(`Holds.step`), so every run does (`Run.holds`).

* `tcp_stop_and_wait`: what is delivered, awaited and under way in every state of a TCP run.
* `tcp_one_wakeup`: a TCP run always has exactly one pending event that matters.
-/

namespace PacketSim
open Lib History

/-- Where the sender stands: `k` is due to be sent, or awaited, or the last one was acknowledged. -/
inductive Phase where
  | ready (k : ℕ)
  | waiting (k : ℕ)
  | ended
  deriving DecidableEq

namespace Phase

/-- What `awaiting_ack` holds in a phase. -/
def awaiting : Phase → Option ℕ
  | .ready _ => none
  | .waiting k => some k
  | .ended => none

/-- The sequences transmitted are those below. -/
def sent (goal : ℕ) : Phase → ℕ
  | .ready k => k
  | .waiting k => k + 1
  | .ended => goal

/-- The sequences acknowledged are those below. -/
def acked (goal : ℕ) : Phase → ℕ
  | .ready k => k
  | .waiting k => k
  | .ended => goal

/-- The first phase is `ready 0`, also when there is nothing to send. -/
def Within (goal : ℕ) : Phase → Prop
  | .ready k => k < goal ∨ k = 0
  | .waiting k => k < goal
  | .ended => True

end Phase

namespace Net

/-- Nothing but timers with tokens below the bound. -/
def Timers (bound : ℕ) (M : Multiset Event) : Prop :=
  ∀ ev ∈ M, ∃ k token, ev.callback = .onTimeout k token ∧ token < bound

theorem Timers.mono {a b : ℕ} {M : Multiset Event} (h : Timers a M) (hab : a ≤ b) : Timers b M :=
  fun ev hev =>
    let ⟨k, token, hc, ht⟩ := h ev hev
    ⟨k, token, hc, ht.trans_le hab⟩

theorem Timers.cons {a : ℕ} {ev : Event} {M : Multiset Event} (h : Timers a M) {k token : ℕ}
    (hc : ev.callback = .onTimeout k token) (ht : token < a) : Timers a (ev ::ₘ M) := by
  intro ev' hev'
  rcases Multiset.mem_cons.mp hev' with rfl | hev'
  · exact ⟨k, token, hc, ht⟩
  · exact h ev' hev'

/-- The pending events of a phase: at most one of them matters. -/
def Pending (n : Net) : Phase → Prop
  | .ready k => ∃ ev M, n.pending = ev ::ₘ M ∧ ev.callback = .sendData k ∧ Timers (n.token + 1) M
  | .waiting k => ∃ ev M t, n.pending = ev ::ₘ M ∧ ev.callback = .onTimeout k n.token ∧
      lastTransmission k n.history = some t ∧ ev.dueTime = t + retransmissionTimeoutMs ∧
      Timers n.token M
  | .ended => Timers (n.token + 1) n.pending

/-- The invariant of a TCP run. -/
structure Holds (n : Net) (ph : Phase) : Prop where
  within : ph.Within n.setting.packetGoal
  awaiting : n.awaiting = ph.awaiting
  pending : n.Pending ph
  completed : n.running = true → (n.completed = true ↔ ph = .ended ∧ 0 < n.setting.packetGoal)
  transmitted : transmitted n.history = Finset.range (ph.sent n.setting.packetGoal)
  acknowledged : acknowledged n.history = Finset.range (ph.acked n.setting.packetGoal)
  delivered : ∃ m, n.delivered = Finset.range m ∧ ph.acked n.setting.packetGoal ≤ m ∧
    m ≤ ph.sent n.setting.packetGoal
  arrived : arrivedData n.history = n.delivered
  data : ∀ x ∈ n.held, x.2.packetType = .data → x.2.sequence < ph.sent n.setting.packetGoal
  acks : ∀ x ∈ n.held, x.2.packetType = .ack → ∃ k ∈ n.delivered, x.2.ackFor = some k
  ordered : Ordered n.history
  spaced : Spaced n.history

theorem holds_start {s : Setting} (hm : s.mode = .tcp) : (start s).Holds (.ready 0) where
  within := .inr rfl
  awaiting := rfl
  pending := ⟨⟨0, 1, .sendData 0⟩, 0, by simp [start, firstEvents, hm], rfl,
    by simp [Timers]⟩
  completed _ := by simp [start, atRest]
  transmitted := rfl
  acknowledged := rfl
  delivered := ⟨0, rfl, le_rfl, le_rfl⟩
  arrived := rfl
  data x hx := by simp [start, atRest] at hx
  acks x hx := by simp [start, atRest] at hx
  ordered := trivial
  spaced := .nil

theorem Holds.finish {n : Net} {ph : Phase} (h : n.Holds ph) : n.finish.Holds ph :=
  { h with completed := fun hr => by simp [Net.finish] at hr }

/-- Packets may move about, be lost and be copied. -/
theorem Holds.moved {n : Net} {ph : Phase} (h : n.Holds ph) {held : Multiset (Place × Packet)}
    {nextPacketId : ℕ} {stats : RunStats}
    (hm : ∀ x ∈ held, ∃ y ∈ n.held, x.2.packetType = y.2.packetType ∧
      x.2.sequence = y.2.sequence ∧ x.2.ackFor = y.2.ackFor) :
    Holds { n with held, nextPacketId, stats } ph :=
  { h with
    data := fun x hx hd => by
      obtain ⟨y, hy, ht, hs, -⟩ := hm x hx
      rw [hs]
      exact h.data y hy (ht ▸ hd)
    acks := fun x hx ha => by
      obtain ⟨y, hy, ht, -, hf⟩ := hm x hx
      rw [hf]
      exact h.acks y hy (ht ▸ ha) }

theorem Holds.ignore {n : Net} {ph : Phase} {ev : Event} {M : Multiset Event} (h : n.Holds ph)
    (hrun : n.running = true) (hev : n.pending = ev ::ₘ M) (hi : n.Ignores ev.callback) :
    ∃ ph', Holds { n with pending := M } ph' := by
  have hp := h.pending
  cases ph with
  | ready k =>
      obtain ⟨ev', M', hev', hc, ht⟩ := hp
      rw [hev, Multiset.cons_eq_cons] at hev'
      obtain ⟨rfl, rfl⟩ | ⟨-, M'', rfl, rfl⟩ := hev'
      · -- only the send of sequence 0, with nothing to send, is ignored
        rw [hc] at hi
        obtain hk | rfl := h.within
        · exact absurd hi (not_le.mpr hk)
        · have hg : n.setting.packetGoal = 0 := Nat.le_zero.mp hi
          refine ⟨.ended, { h with
            within := trivial, pending := ht, completed := fun hr => ?_, transmitted := ?_,
            acknowledged := ?_, delivered := ?_, data := ?_ }⟩
          · simpa [hg] using h.completed hr
          · simpa [Phase.sent, hg] using h.transmitted
          · simpa [Phase.acked, hg] using h.acknowledged
          · simpa [Phase.sent, Phase.acked, hg] using h.delivered
          · simpa [Phase.sent, hg] using h.data
      · exact ⟨.ready k, { h with
          pending := ⟨ev', M'', rfl, hc, fun x hx => ht x (Multiset.mem_cons_of_mem hx)⟩ }⟩
  | waiting k =>
      obtain ⟨ev', M', t, hev', hc, hl, hdue, ht⟩ := hp
      rw [hev, Multiset.cons_eq_cons] at hev'
      obtain ⟨rfl, rfl⟩ | ⟨-, M'', rfl, rfl⟩ := hev'
      · -- the live timer is not ignored
        have hcomp : ¬ n.completed = true := fun hc => by
          simpa using ((h.completed hrun).mp hc).1
        have hk : k < n.setting.packetGoal := h.within
        rw [hc] at hi
        rcases hi with hi | hi | hi | hi | hi
        · simp [hrun] at hi
        · exact absurd hi hcomp
        · exact absurd h.awaiting hi
        · exact absurd rfl hi
        · exact absurd hi (not_le.mpr hk)
      · exact ⟨.waiting k, { h with
          pending := ⟨ev', M'', t, rfl, hc, hl, hdue,
            fun x hx => ht x (Multiset.mem_cons_of_mem hx)⟩ }⟩
  | ended =>
      exact ⟨.ended, { h with
        pending := fun x hx => hp x (hev ▸ Multiset.mem_cons_of_mem hx) }⟩

/-- The pending send is the one of the phase `ready`. -/
theorem Holds.eq_ready {n : Net} {ph : Phase} {ev : Event} {M : Multiset Event} {k : ℕ}
    (h : n.Holds ph) (hev : n.pending = ev ::ₘ M) (hc : ev.callback = .sendData k) :
    ph = .ready k ∧ Timers (n.token + 1) M := by
  have hp := h.pending
  have hmem : ev ∈ n.pending := hev ▸ Multiset.mem_cons_self _ _
  cases ph with
  | ready j =>
      obtain ⟨ev', M', hev', hc', ht⟩ := hp
      rw [hev, Multiset.cons_eq_cons] at hev'
      obtain ⟨rfl, rfl⟩ | ⟨-, M'', -, rfl⟩ := hev'
      · rw [hc] at hc'
        cases hc'
        exact ⟨rfl, ht⟩
      · obtain ⟨_, _, hc'', -⟩ := ht ev (Multiset.mem_cons_self _ _)
        rw [hc] at hc''
        cases hc''
  | waiting j =>
      obtain ⟨ev', M', t, hev', hc', -, -, ht⟩ := hp
      rw [hev', Multiset.mem_cons] at hmem
      obtain rfl | hmem := hmem
      · rw [hc] at hc'
        cases hc'
      · obtain ⟨_, _, hc'', -⟩ := ht ev hmem
        rw [hc] at hc''
        cases hc''
  | ended =>
      obtain ⟨_, _, hc', -⟩ := hp ev hmem
      rw [hc] at hc'
      cases hc'

/-- The timer with the current token is the live one. -/
theorem Holds.eq_waiting {n : Net} {ph : Phase} {ev : Event} {M : Multiset Event} {k : ℕ}
    (h : n.Holds ph) (hev : n.pending = ev ::ₘ M) (hc : ev.callback = .onTimeout k n.token)
    (haw : n.awaiting = some k) :
    ph = .waiting k ∧ Timers n.token M ∧ ∃ t, lastTransmission k n.history = some t ∧
      ev.dueTime = t + retransmissionTimeoutMs := by
  have haw' := h.awaiting.symm.trans haw
  cases ph with
  | ready j => cases haw'
  | ended => cases haw'
  | waiting j =>
      cases haw'
      obtain ⟨ev', M', t, hev', hc', hl, hdue', ht⟩ := h.pending
      rw [hev, Multiset.cons_eq_cons] at hev'
      obtain ⟨rfl, rfl⟩ | ⟨-, M'', -, rfl⟩ := hev'
      · exact ⟨rfl, ht, t, hl, hdue'⟩
      · obtain ⟨j, token, hc'', hlt⟩ := ht ev (Multiset.mem_cons_self _ _)
        rw [hc] at hc''
        cases hc''
        exact absurd hlt (lt_irrefl _)

/-- What transmitting `k` leads to, given that it is `k`'s turn. -/
theorem Holds.transmit {n : Net} {ph : Phase} {M : Multiset Event} {k : ℕ} {re : Bool}
    (hm : n.setting.mode = .tcp) (h : n.Holds ph) (hk : k < n.setting.packetGoal)
    (hturn : ph = .ready k ∨ ph = .waiting k) (ht : Timers (n.token + 1) M)
    (hlast : ∀ t, lastTransmission k n.history = some t →
      t + retransmissionTimeoutMs ≤ n.clock) :
    Holds (Net.transmit { n with pending := M } k re) (.waiting k) := by
  have hacked : ph.acked n.setting.packetGoal = k := by
    rcases hturn with rfl | rfl <;> rfl
  have hsent : ph.sent n.setting.packetGoal ≤ k + 1 := by
    rcases hturn with rfl | rfl <;> simp [Phase.sent]
  -- a new `k` is the next one; an old `k` was sent before
  have hrange : insert k (Finset.range (ph.sent n.setting.packetGoal)) = Finset.range (k + 1) := by
    rcases hturn with rfl | rfl <;> ext j <;> simp [Phase.sent]
    omega
  obtain ⟨m, hd, hm₁, hm₂⟩ := h.delivered
  have hnot : ph ≠ .ended := by
    rcases hturn with rfl | rfl <;> simp
  rw [transmit_tcp { n with pending := M } k re hm]
  refine
    { within := hk
      awaiting := rfl
      pending := ⟨_, M, n.clock, rfl, rfl, by simp, rfl, ht⟩
      completed := fun hr => by
        have := h.completed hr
        simpa [hnot, inject] using this
      transmitted := ?_
      acknowledged := ?_
      delivered := ⟨m, hd, ?_, ?_⟩
      arrived := h.arrived
      data := ?_
      acks := ?_
      ordered := ⟨?_, h.ordered⟩
      spaced := h.spaced.transmit hlast }
  · rw [transmitted_transmitted, h.transmitted]
    exact hrange
  · rw [acknowledged_transmitted, h.acknowledged, hacked]
    rfl
  · exact hacked ▸ hm₁
  · exact hm₂.trans hsent
  · intro x hx hdata
    rcases Multiset.mem_cons.mp hx with rfl | hx
    · exact Nat.lt_succ_self k
    · exact (h.data x hx hdata).trans_le hsent
  · intro x hx hack
    rcases Multiset.mem_cons.mp hx with rfl | hx
    · cases hack
    · exact h.acks x hx hack
  · rintro j rfl
    rw [h.arrived, hd, Finset.mem_range]
    omega

theorem Holds.send {n : Net} {ph : Phase} {ev : Event} {M : Multiset Event} {k : ℕ}
    (hm : n.setting.mode = .tcp) (h : n.Holds ph) (hev : n.pending = ev ::ₘ M)
    (hc : ev.callback = .sendData k) (hk : k < n.setting.packetGoal) :
    Holds (Net.transmit { n with pending := M } k false) (.waiting k) := by
  obtain ⟨rfl, ht⟩ := h.eq_ready hev hc
  refine h.transmit hm hk (.inl rfl) ht fun t hl => ?_
  have hnone : lastTransmission k n.history = none := by
    rw [lastTransmission_eq_none, h.transmitted]
    simp [Phase.sent]
  rw [hnone] at hl
  cases hl

theorem Holds.resend {n : Net} {ph : Phase} {ev : Event} {M : Multiset Event} {k : ℕ}
    (hm : n.setting.mode = .tcp) (h : n.Holds ph) (hev : n.pending = ev ::ₘ M)
    (hdue : ev.dueTime ≤ n.clock) (hc : ev.callback = .onTimeout k n.token)
    (haw : n.awaiting = some k) (hk : k < n.setting.packetGoal) :
    Holds (Net.transmit { n with pending := M } k true) (.waiting k) := by
  obtain ⟨rfl, ht, t, hl, hdue'⟩ := h.eq_waiting hev hc haw
  refine h.transmit hm hk (.inr rfl) (ht.mono (Nat.le_succ _)) fun t' ht' => ?_
  rw [hl] at ht'
  cases ht'
  exact hdue' ▸ hdue

theorem Holds.receive {n : Net} {ph : Phase} {a : Int} {p : Packet} {M : Multiset (Place × Packet)}
    (hm : n.setting.mode = .tcp) (h : n.Holds ph)
    (hheld : n.held = (.link a p.destination, p) ::ₘ M) (hp : p.packetType = .data) :
    Holds ((n.arrive M (p.arriveAt p.destination)).receive p.sequence) ph := by
  have hseq : p.sequence < ph.sent n.setting.packetGoal :=
    h.data _ (mem_head hheld) hp
  rw [receive_tcp (n.arrive M (p.arriveAt p.destination)) p.sequence hm]
  refine
    { h with
      delivered := ?_
      arrived := ?_
      data := ?_
      acks := ?_
      ordered := ⟨trivial, h.ordered⟩
      spaced := (spaced_arrived _ _ _).mpr h.spaced }
  · obtain ⟨m, hd, hm₁, hm₂⟩ := h.delivered
    -- only the newest sequence can be new to the receiver
    have hle : ph.sent n.setting.packetGoal ≤ ph.acked n.setting.packetGoal + 1 := by
      cases ph <;> simp [Phase.sent, Phase.acked]
    by_cases hnew : p.sequence < m
    · refine ⟨m, ?_, hm₁, hm₂⟩
      show insert p.sequence n.delivered = _
      rw [hd, Finset.insert_eq_of_mem (Finset.mem_range.mpr hnew)]
    · obtain rfl : p.sequence = m := by omega
      refine ⟨p.sequence + 1, ?_, hm₁.trans (Nat.le_succ _), hseq⟩
      show insert p.sequence n.delivered = _
      rw [hd, Finset.range_add_one]
  · show arrivedData (.arrived _ _ :: n.history) = insert p.sequence n.delivered
    rw [arrivedData_data _ _ (p.arriveAt p.destination) hp, h.arrived]
    rfl
  · intro x hx hd
    rcases Multiset.mem_cons.mp hx with rfl | hx
    · cases hd
    · exact h.data x (mem_rest hheld hx) hd
  · intro x hx ha
    rcases Multiset.mem_cons.mp hx with rfl | hx
    · exact ⟨p.sequence, Finset.mem_insert_self _ _, rfl⟩
    · obtain ⟨k, hk, hf⟩ := h.acks x (mem_rest hheld hx) ha
      exact ⟨k, Finset.mem_insert_of_mem hk, hf⟩

theorem Holds.arriveAck {n : Net} {ph : Phase} {a : Int} {p : Packet}
    {M : Multiset (Place × Packet)} (h : n.Holds ph)
    (hheld : n.held = (.link a p.destination, p) ::ₘ M) (hp : p.packetType = .ack) :
    Holds (n.arrive M (p.arriveAt p.destination)) ph :=
  { h with
    arrived := (arrivedData_ack n.history _ (p.arriveAt p.destination) hp).trans h.arrived
    data := fun x hx hd => h.data x (mem_rest hheld hx) hd
    acks := fun x hx ha => h.acks x (mem_rest hheld hx) ha
    ordered := ⟨trivial, h.ordered⟩
    spaced := (spaced_arrived _ _ _).mpr h.spaced }

theorem Holds.accept {n : Net} {ph : Phase} {k : ℕ} (h : n.Holds ph)
    (haw : n.awaiting = some k) (hk : k ∈ n.delivered) : ∃ ph', Holds (n.accept k) ph' := by
  have haw' := h.awaiting.symm.trans haw
  cases ph with
  | ready j => cases haw'
  | ended => cases haw'
  | waiting j =>
      cases haw'
      obtain ⟨ev, M, t, hev, hc, hl, hdue, ht⟩ := h.pending
      have hkg : k < n.setting.packetGoal := h.within
      have hdel : n.delivered = Finset.range (k + 1) := by
        obtain ⟨m, hd, hm₁, hm₂⟩ := h.delivered
        have : m = k + 1 := le_antisymm hm₂ (Nat.succ_le_of_lt (by simpa [hd] using hk))
        rw [hd, this]
      have htimers : Timers (n.token + 1) n.pending :=
        hev ▸ (ht.mono (Nat.le_succ _)).cons hc (Nat.lt_succ_self _)
      have hacked : History.acknowledged (.acknowledged k n.clock :: n.history) =
          Finset.range (k + 1) := by
        rw [acknowledged_acknowledged, h.acknowledged, Finset.range_add_one]
        rfl
      have hordered : Ordered (.acknowledged k n.clock :: n.history) :=
        ⟨by rw [Follows, h.arrived]; exact hk, h.ordered⟩
      have hspaced := (spaced_acknowledged n.history k n.clock).mpr h.spaced
      -- the last acknowledgement ends the sending, any other schedules the next send
      by_cases hg : n.setting.packetGoal ≤ k + 1
      · have hgoal : n.setting.packetGoal = k + 1 := le_antisymm hg hkg
        refine ⟨.ended, ?_⟩
        rw [accept_last n k hg]
        exact
          { within := trivial
            awaiting := rfl
            pending := htimers
            completed := fun _ => by simp [hgoal]
            transmitted := by simpa [Phase.sent, hgoal] using h.transmitted
            acknowledged := by simpa [Phase.acked, hgoal] using hacked
            delivered := ⟨k + 1, hdel, by simp [Phase.acked, hgoal], by simp [Phase.sent, hgoal]⟩
            arrived := h.arrived
            data := by simpa [Phase.sent, hgoal] using h.data
            acks := h.acks
            ordered := hordered
            spaced := hspaced }
      · refine ⟨.ready (k + 1), ?_⟩
        rw [accept_next n k hg]
        exact
          { within := .inl (not_le.mp hg)
            awaiting := rfl
            pending := ⟨_, _, rfl, rfl, htimers⟩
            completed := fun hr => by simpa using h.completed hr
            transmitted := h.transmitted
            acknowledged := hacked
            delivered := ⟨k + 1, hdel, le_rfl, le_rfl⟩
            arrived := h.arrived
            data := h.data
            acks := h.acks
            ordered := hordered
            spaced := hspaced }

/-- **Every step keeps the invariant.** -/
theorem Holds.step {n n' : Net} {ph : Phase} (hm : n.setting.mode = .tcp)
    (hrun : n.running = true) (h : n.Holds ph) (hs : Step n n') : ∃ ph', n'.Holds ph' := by
  cases hs with
  | ignore hev _ hi => exact h.ignore hrun hev hi
  | send hev _ hc hk => exact ⟨_, h.send hm hev hc hk⟩
  | resend hev hdue hc _ _ haw hk => exact ⟨_, h.resend hm hev hdue hc haw hk⟩
  | block hheld _ _ =>
      exact ⟨ph, h.moved fun x hx => ⟨x, mem_rest hheld hx, rfl, rfl, rfl⟩⟩
  | lose hheld =>
      exact ⟨ph, h.moved fun x hx => ⟨x, mem_rest hheld hx, rfl, rfl, rfl⟩⟩
  | launch hheld _ _ _ =>
      refine ⟨ph, h.moved fun x hx => ?_⟩
      rcases Multiset.mem_cons.mp hx with rfl | hx
      · exact ⟨_, mem_head hheld, rfl, rfl, rfl⟩
      · exact ⟨x, mem_rest hheld hx, rfl, rfl, rfl⟩
  | launchTwice hheld _ _ _ =>
      refine ⟨ph, h.moved fun x hx => ?_⟩
      rcases Multiset.mem_cons.mp hx with rfl | hx
      · exact ⟨_, mem_head hheld, rfl, rfl, rfl⟩
      · rcases Multiset.mem_cons.mp hx with rfl | hx
        · exact ⟨_, mem_head hheld, rfl, rfl, rfl⟩
        · exact ⟨x, mem_rest hheld hx, rfl, rfl, rfl⟩
  | relay hheld _ =>
      refine ⟨ph, h.moved fun x hx => ?_⟩
      rcases Multiset.mem_cons.mp hx with rfl | hx
      · exact ⟨_, mem_head hheld, rfl, rfl, rfl⟩
      · exact ⟨x, mem_rest hheld hx, rfl, rfl, rfl⟩
  | receive hheld hp => exact ⟨ph, h.receive hm hheld hp⟩
  | ignoreAck hheld hp _ => exact ⟨ph, h.arriveAck hheld hp⟩
  | @accept a p M k hheld hp haw hack =>
      obtain ⟨j, hj, hf⟩ := h.acks _ (mem_head hheld) hp
      -- an acknowledgement under way acknowledges what was delivered
      obtain rfl : j = k := by
        rw [hack] at hf
        exact (Option.some.inj hf).symm
      exact (h.arriveAck hheld hp).accept haw hj

/-- **Every run keeps the invariant.** -/
theorem Run.holds {s : Setting} {n : Net} (hm : s.mode = .tcp) (h : Run s n) :
    ∃ ph, n.Holds ph := by
  induction h with
  | start => exact ⟨_, holds_start hm⟩
  | tick _ _ _ ih =>
      obtain ⟨ph, ih⟩ := ih
      exact ⟨ph, { ih with }⟩
  | step h hrun hs ih =>
      obtain ⟨ph, ih⟩ := ih
      exact ih.step (h.setting ▸ hm) hrun hs
  | finish _ _ ih =>
      obtain ⟨ph, ih⟩ := ih
      exact ⟨ph, ih.finish⟩

end Net

namespace Engine

variable {σ : Type}

/-- The receiver has the sequences below `m`; the sender is on the last of them or the next, and
nothing under way is ahead. -/
structure StopAndWait (e : Engine σ) (m : ℕ) : Prop where
  delivered : e.deliveredSequences = Finset.range m
  le_goal : m ≤ e.packetGoal
  awaiting : ∀ k, e.awaitingAck = some k → m = k ∨ m = k + 1
  data : ∀ p ∈ e.packets, p.packetType = .data → p.sequence ≤ m
  acks : ∀ p ∈ e.packets, p.packetType = .ack → ∃ k < m, p.ackFor = some k
  completed : e.completed = true → e.running = true → m = e.packetGoal
  in_order : ∀ newer older k re t, e.history = newer ++ .transmitted (k + 1) re t :: older →
    k ∈ arrivedData older
  acknowledged : ∀ newer older k t, e.history = newer ++ .acknowledged k t :: older →
    k ∈ arrivedData older

/-- A timeout callback that does nothing, whenever it fires from here on. -/
def Stale (e : Engine σ) (c : Callback) : Prop :=
  ∃ k token, c = .onTimeout k token ∧
    ∀ e' : Engine σ, Net.Later e.toNet e'.toNet → e'.runCallback c = .ok e'

/-- The sender awaits an acknowledgement under one live timer, and nothing else will wake it. -/
def Awaits (e : Engine σ) : Prop :=
  ∃ k t ev rest, e.awaitingAck = some k ∧ e.events.items.Perm (ev :: rest) ∧
    ev.callback = .onTimeout k e.timeoutToken ∧ lastTransmission k e.history = some t ∧
    ev.dueTime = t + retransmissionTimeoutMs ∧
    ∀ ev' ∈ rest, ev'.callback ≠ ev.callback ∧ e.Stale ev'.callback

/-- The next send is pending, and nothing else will wake the sender. -/
def Sends (e : Engine σ) : Prop :=
  ∃ ev rest, e.awaitingAck = none ∧ e.events.items.Perm (ev :: rest) ∧
    ev.callback = .sendData (acknowledged e.history).card ∧
    (acknowledged e.history).card < e.packetGoal ∧ ∀ ev' ∈ rest, e.Stale ev'.callback

/-- A state of a TCP run in which the run is still to complete, and the transmissions so far. -/
structure OneWakeup (e : Engine σ) : Prop where
  wakes : e.running = true → e.completed = false → (e.Awaits ∨ e.Sends) ∧ ¬ (e.Awaits ∧ e.Sends)
  spaced : Spaced e.history

/-- An old token, or no acknowledgement awaited: the timer is stale. -/
theorem stale_of_token {e : Engine σ} {k token : ℕ}
    (h : token < e.timeoutToken ∨ token ≤ e.timeoutToken ∧ e.awaitingAck = none) :
    e.Stale (.onTimeout k token) := by
  refine ⟨k, token, rfl, fun e' hs => ?_⟩
  have hlater := hs.quiet
  have hle : e.timeoutToken ≤ e'.timeoutToken := hlater.1
  have hskip : e'.awaitingAck ≠ some k ∨ token ≠ e'.timeoutToken := by
    by_cases heq : e'.timeoutToken = e.timeoutToken
    · rcases h with h | ⟨-, h⟩
      · exact .inr (by omega)
      · have : e'.awaitingAck = none := hlater.2 heq h
        exact .inl (by simp [this])
    · exact .inr (by omega)
  rw [runCallback, onTimeout, if_pos hskip]
  split <;> rfl

section Runs
variable [RandomSource σ] {e₀ e : Engine σ}

/-- **Stop-and-wait safety.** -/
theorem tcp_stop_and_wait (hmode : e₀.mode = .tcp) (hgoal : 1 ≤ e₀.packetGoal) (h : Run e₀ e) :
    ∃ m, e.StopAndWait m := by
  obtain ⟨ph, hph⟩ := h.toNet.holds hmode
  obtain ⟨m, hd, hm₁, hm₂⟩ := hph.delivered
  have hord : Ordered e.history := hph.ordered
  have hpos : 1 ≤ e.packetGoal := h.packetGoal_eq.symm ▸ hgoal
  have hg : e.toNet.setting.packetGoal = e.packetGoal := rfl
  have hwithin := hph.within
  rw [hg] at hm₁ hm₂ hwithin
  have hsent : ph.sent e.packetGoal ≤ e.packetGoal ∧ ph.sent e.packetGoal ≤ m + 1 := by
    cases ph <;> simp only [Phase.sent, Phase.acked, Phase.Within] at * <;> omega
  refine ⟨m,
    { delivered := hd
      le_goal := hm₂.trans hsent.1
      awaiting := fun k hk => ?_
      data := fun p hp hdata => ?_
      acks := fun p hp hack => ?_
      completed := fun hc hr => ?_
      in_order := fun newer older k re t hh => (hh ▸ hord).arrived_before
      acknowledged := fun newer older k t hh => (hh ▸ hord).acknowledged_after }⟩
  · cases ph with
    | ready j => cases hph.awaiting.symm.trans hk
    | ended => cases hph.awaiting.symm.trans hk
    | waiting j =>
        cases hph.awaiting.symm.trans hk
        simp only [Phase.sent, Phase.acked] at hm₁ hm₂
        omega
  · obtain ⟨place, hp⟩ := mem_packets.mp hp
    have : p.sequence < ph.sent e.packetGoal := hph.data _ hp hdata
    omega
  · obtain ⟨place, hp⟩ := mem_packets.mp hp
    obtain ⟨k, hk, hf⟩ := hph.acks _ hp hack
    rw [hd, Finset.mem_range] at hk
    exact ⟨k, hk, hf⟩
  · obtain ⟨rfl, -⟩ := (hph.completed hr).mp hc
    exact le_antisymm hm₂ hm₁

theorem tcp_stop_and_wait_campus : ∃ e m, (Steady.engine "Campus Backbone" .tcp).ticks
    [16, 700, 900, 950, 20] = .ok e ∧ e.StopAndWait m := by
  obtain ⟨e, he⟩ := exists_ok (x := (Steady.engine "Campus Backbone" .tcp).ticks
    [16, 700, 900, 950, 20]) (by decide +kernel)
  obtain ⟨m, hm⟩ := tcp_stop_and_wait (by decide +kernel) (by decide +kernel)
    (.of_ticks (by decide +kernel) he)
  exact ⟨e, m, he, hm⟩

end Runs

end Engine

end PacketSim
