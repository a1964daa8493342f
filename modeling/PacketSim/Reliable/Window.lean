import Mathlib
import PacketSim.Lib.Pacing
import PacketSim.Reliable.Buffer
import PacketSim.Reliable.Steps

/-!
# Reliable — Window

The client against any server that answers only ids it was asked for.  Answers are lost, late,
doubled or out of order as the events please, and the clock does not go back.

* `Exchange` — the client's `main` and its buffer, with the requests sent so far.
* `Client.Windowed` — the invariant: the arrays are the history of the requests, and the history
  keeps to the window.
* `Exchange.sliding_window` — in every state of every run.
-/

namespace PacketSim.Reliable

open Lib

variable {order : ByteOrder}

/-! ### The client and its answers -/

/-- `clock` is the time, and `asked` the history: the ids requested, each with the clock reading of
the pass of the request loop it was requested in. -/
structure Exchange where
  client : Client
  sender : Sender
  clock : ℤ
  asked : List (UInt16 × ℤ)

/-- `main` takes a step, `elapsed` after its last one, or the reader has a frame to store. -/
inductive Happening where
  | main (elapsed : ℕ)
  | response (buf : Frame)

namespace Exchange

/-- The client before its first step. -/
def start (data : Vector Msg NUM_CHUNKS) (now : ℤ) : Exchange where
  client := .start
  sender := .start data
  clock := now
  asked := []

/-- What a step of `main` adds to the history. -/
def entry (pc : ClientPc) (sent : Option UInt16) : List (UInt16 × ℤ) :=
  match pc, sent with
  | .requesting reading _ _, some msgId => [(msgId, reading)]
  | _, _ => []

/-- A response to an id that was not asked for does not happen. -/
def step (order : ByteOrder) (x : Exchange) : Happening → Exchange
  | .main elapsed =>
      let now := x.clock + elapsed
      let r := x.client.step x.sender now
      { client := r.1
        sender := r.2.1
        clock := now
        asked := x.asked ++ entry x.client.pc r.2.2 }
  | .response buf =>
      if (buf.toMsg order).msgId ∈ x.asked.map Prod.fst then
        { x with sender := x.sender.store order buf }
      else x

/-- The happenings one after the other. -/
def run (order : ByteOrder) (x : Exchange) (happenings : List Happening) : Exchange :=
  happenings.foldl (step order) x

@[simp] theorem entry_none (pc : ClientPc) : entry pc none = [] := by
  cases pc <;> rfl

theorem entry_requesting (reading : ℤ) (w : WindowEnd) (msgId : UInt16) (sent : Option UInt16) :
    entry (.requesting reading w msgId) sent = sent.toList.map (·, reading) := by
  cases sent <;> rfl

end Exchange

namespace Client

/-- The window, up to the last message. -/
def InWindow (c : Client) (id : UInt16) : Prop :=
  c.nextExpected.toNat ≤ id.toNat ∧
    id.toNat < min (c.nextExpected.toNat + WINDOW_SIZE.toNat) NUM_MSGS

/-- When the client last asked for a message, by `requested` and `lastRequest`. -/
def lastAsked (c : Client) (i : ℕ) : Option ℤ :=
  if c.requested[i]? = some true then c.lastRequest[i]? else none

theorem lastAsked_of_lt (c : Client) {i : ℕ} (hi : i < NUM_MSGS) :
    c.lastAsked i = if c.requested[i] then some c.lastRequest[i] else none := by
  simp [lastAsked, hi]

/-! ### The request loop -/

/-- The body of the request loop passes over a message, or asks for it. -/
inductive Requests (c : Client) (now : ℤ) (msgId : UInt16) : Client × Option UInt16 → Prop where
  | skip {t : ℤ} (hlast : c.lastAsked msgId.toNat = some t)
      (hrecent : c.received[msgId.toNat]? = some false → now - t < RETRANSMIT_TIMEOUT) :
      Requests c now msgId (c, none)
  | ask {c' : Client}
      (hwait : ∀ t, c.lastAsked msgId.toNat = some t →
        c.received[msgId.toNat]? = some false ∧ RETRANSMIT_TIMEOUT ≤ now - t)
      (hlast : ∀ i, c'.lastAsked i = if msgId.toNat = i then some now else c.lastAsked i)
      (hreceived : c'.received = c.received) (hnext : c'.nextExpected = c.nextExpected)
      (htotal : c'.totalWritten = c.totalWritten) :
      Requests c now msgId (c', some msgId)

theorem request_cases (c : Client) (now : ℤ) (msgId : UInt16) (hid : msgId.toNat < NUM_MSGS) :
    c.Requests now msgId (c.request now msgId hid) := by
  have hlast := c.lastAsked_of_lt hid
  have hreceived : c.received[msgId.toNat]? = some c.received[msgId.toNat] :=
    Vector.getElem?_eq_getElem hid
  unfold request
  split_ifs with hnew hold
  · -- the first request
    rw [Bool.not_eq_true'] at hnew
    rw [hnew, if_neg Bool.false_ne_true] at hlast
    refine .ask (fun t ht => ?_) (fun i => ?_) rfl rfl rfl
    · rw [hlast] at ht
      cases ht
    · by_cases hi : msgId.toNat = i
      · simp [lastAsked, hi, hi ▸ hid]
      · simp [lastAsked, hi]
  · -- a request again, after the timeout
    rw [Bool.not_eq_true', Bool.not_eq_false] at hnew
    rw [hnew, if_pos rfl] at hlast
    obtain ⟨hmissing, htimeout⟩ := Bool.and_eq_true_iff.mp hold
    rw [Bool.not_eq_true'] at hmissing
    refine .ask (fun t ht => ?_) (fun i => ?_) rfl rfl rfl
    · rw [hlast] at ht
      cases ht
      exact ⟨hreceived.trans (congrArg some hmissing), of_decide_eq_true htimeout⟩
    · by_cases hi : msgId.toNat = i
      · subst hi
        simp [lastAsked, hid, hnew]
      · simp [lastAsked, hi]
  · rw [Bool.not_eq_true', Bool.not_eq_false] at hnew
    rw [hnew, if_pos rfl] at hlast
    refine .skip hlast fun hmissing => ?_
    rw [hreceived, Option.some_inj] at hmissing
    simpa [hmissing] using hold

/-! ### The invariant -/

/-- The arrays are the history, and the history keeps to the window. -/
structure Windowed (asked : List (UInt16 × ℤ)) (clock : ℤ) (c : Client) : Prop where
  written : c.nextExpected.toNat = c.totalWritten
  bound : c.nextExpected.toNat ≤ NUM_MSGS
  below : ∀ i < c.nextExpected.toNat, c.received[i]? = some true
  last : ∀ id : UInt16, c.lastAsked id.toNat = lastTime asked id
  wanted : ∀ id : UInt16, c.received[id.toNat]? = some true → id ∈ asked.map Prod.fst
  ahead : ∀ p ∈ asked, p.1.toNat < c.nextExpected.toNat + WINDOW_SIZE.toNat
  paced : Paced RETRANSMIT_TIMEOUT asked
  past : ∀ p ∈ asked, p.2 ≤ clock

/-- A pass of the request loop that has come to `msgId`: what is missing before it has been asked
for lately. -/
structure Pass (asked : List (UInt16 × ℤ)) (clock : ℤ) (c : Client) (now : ℤ) (w : WindowEnd)
    (msgId : UInt16) : Prop where
  window : w = windowEnd c.nextExpected
  current : now ≤ clock
  past : ∀ p ∈ asked, p.2 ≤ now
  lower : c.nextExpected.toNat ≤ msgId.toNat
  upper : msgId.toNat ≤ w.val.toNat
  recent : ∀ id : UInt16, c.nextExpected.toNat ≤ id.toNat → id.toNat < msgId.toNat →
    c.received[id.toNat]? = some false → ∃ t, lastTime asked id = some t ∧
      now - t < RETRANSMIT_TIMEOUT

variable {asked : List (UInt16 × ℤ)} {clock now : ℤ} {c : Client} {w : WindowEnd} {msgId : UInt16}

theorem windowed_start (now : ℤ) : Client.start.Windowed [] now where
  written := rfl
  bound := Nat.zero_le _
  below := nofun
  last id := by
    simp only [Client.start, lastAsked, lastTime_nil]
    grind
  wanted id h := by
    simp only [Client.start] at h
    grind
  ahead := nofun
  paced := .nil
  past := nofun

/-- Time goes by, and `main` goes elsewhere. -/
theorem Windowed.goto (h : c.Windowed asked clock) (pc : ClientPc) (hle : clock ≤ now) :
    ({ c with pc := pc } : Client).Windowed asked now :=
  { h with past := fun p hp => (h.past p hp).trans hle }

theorem Windowed.missing (h : c.Windowed asked clock) (hid : msgId.toNat < NUM_MSGS)
    (hnever : c.lastAsked msgId.toNat = none) : c.received[msgId.toNat]? = some false := by
  rw [h.last, lastTime_eq_none] at hnever
  have hreceived : c.received[msgId.toNat]? = some c.received[msgId.toNat] :=
    Vector.getElem?_eq_getElem hid
  rw [hreceived, Option.some_inj, ← Bool.not_eq_true]
  intro htrue
  exact hnever (h.wanted msgId (hreceived.trans (congrArg some htrue)))

theorem Pass.inWindow (hp : c.Pass asked clock now w msgId) (h : c.Windowed asked clock)
    (hlt : msgId < w.val) : c.InWindow msgId := by
  have hend := toNat_windowEnd h.bound
  rw [← hp.window] at hend
  exact ⟨hp.lower, hend ▸ UInt16.lt_iff_toNat_lt.mp hlt⟩

/-- What is asked for is missing. -/
theorem Windowed.asks {r : Client × Option UInt16} {id : UInt16} (h : c.Windowed asked clock)
    (hid : msgId.toNat < NUM_MSGS) (hr : c.Requests now msgId r) (hsome : r.2 = some id) :
    id = msgId ∧ c.received[id.toNat]? = some false := by
  cases hr with
  | skip => cases hsome
  | ask hwait =>
      cases hsome
      refine ⟨rfl, ?_⟩
      cases hlast : c.lastAsked msgId.toNat with
      | none => exact h.missing hid hlast
      | some t => exact (hwait t hlast).1

/-- The pass goes on to the next message. -/
theorem Pass.bounds (hp : c.Pass asked clock now w msgId) (hlt : msgId < w.val) :
    (msgId + 1).toNat = msgId.toNat + 1 ∧ c.nextExpected.toNat ≤ (msgId + 1).toNat ∧
      (msgId + 1).toNat ≤ w.val.toNat := by
  have hlt' : msgId.toNat < w.val.toNat := UInt16.lt_iff_toNat_lt.mp hlt
  have hsucc : (msgId + 1).toNat = msgId.toNat + 1 := toNat_succ (hlt'.trans_le w.property)
  rw [hsucc]
  exact ⟨rfl, hp.lower.trans (Nat.le_succ _), hlt'⟩

/-- A message passed over was asked for lately, or is not missing. -/
theorem Pass.skip {t : ℤ} (hp : c.Pass asked clock now w msgId) (h : c.Windowed asked clock)
    (hlt : msgId < w.val) (hlast : c.lastAsked msgId.toNat = some t)
    (hrecent : c.received[msgId.toNat]? = some false → now - t < RETRANSMIT_TIMEOUT) :
    c.Pass asked clock now w (msgId + 1) := by
  obtain ⟨hsucc, hlower, hupper⟩ := hp.bounds hlt
  refine ⟨hp.window, hp.current, hp.past, hlower, hupper, fun id hlo hhi hmissing => ?_⟩
  rw [hsucc] at hhi
  rcases Nat.lt_succ_iff_lt_or_eq.mp hhi with hbefore | hsame
  · exact hp.recent id hlo hbefore hmissing
  · obtain rfl := UInt16.toNat_inj.mp hsame
    exact ⟨t, (h.last id).symm.trans hlast, hrecent hmissing⟩

section Ask
variable {c' : Client}

theorem Pass.past_ask (hp : c.Pass asked clock now w msgId) :
    ∀ p ∈ asked ++ [(msgId, now)], p.2 ≤ now := by
  intro p hp'
  rcases List.mem_append.mp hp' with hp' | hp'
  · exact hp.past p hp'
  · exact (List.mem_singleton.mp hp') ▸ le_rfl

/-- A request has waited for the timeout, and is in the window. -/
theorem Windowed.ask (h : c.Windowed asked clock) (hp : c.Pass asked clock now w msgId)
    (hlt : msgId < w.val)
    (hwait : ∀ t, c.lastAsked msgId.toNat = some t → RETRANSMIT_TIMEOUT ≤ now - t)
    (hlast : ∀ i, c'.lastAsked i = if msgId.toNat = i then some now else c.lastAsked i)
    (hreceived : c'.received = c.received) (hnext : c'.nextExpected = c.nextExpected)
    (htotal : c'.totalWritten = c.totalWritten) :
    c'.Windowed (asked ++ [(msgId, now)]) clock where
  written := by rw [hnext, htotal, h.written]
  bound := hnext ▸ h.bound
  below := by
    rw [hnext, hreceived]
    exact h.below
  last id := by simp only [hlast, lastTime_snoc, UInt16.toNat_inj, h.last]
  wanted id hid := by
    rw [hreceived] at hid
    rw [List.map_append]
    exact List.mem_append_left _ (h.wanted id hid)
  ahead p hp' := by
    rw [hnext]
    rcases List.mem_append.mp hp' with hp' | hp'
    · exact h.ahead p hp'
    · rw [List.mem_singleton.mp hp']
      exact (hp.inWindow h hlt).2.trans_le (min_le_left _ _)
  paced := h.paced.snoc (by decide) fun t ht => hwait t ((h.last msgId).trans ht)
  past p hp' := (hp.past_ask p hp').trans hp.current

theorem Pass.ask (hp : c.Pass asked clock now w msgId) (hlt : msgId < w.val)
    (hreceived : c'.received = c.received) (hnext : c'.nextExpected = c.nextExpected) :
    c'.Pass (asked ++ [(msgId, now)]) clock now w (msgId + 1) := by
  obtain ⟨hsucc, hlower, hupper⟩ := hp.bounds hlt
  refine ⟨hnext ▸ hp.window, hp.current, hp.past_ask, hnext ▸ hlower, hupper,
    fun id hlo hhi hmissing => ?_⟩
  rw [hnext] at hlo
  rw [hreceived] at hmissing
  rw [hsucc] at hhi
  rw [lastTime_snoc]
  split_ifs with hsame
  · exact ⟨now, rfl, by rw [sub_self]; decide⟩
  · have hne : id.toNat ≠ msgId.toNat := fun heq => hsame (UInt16.toNat_inj.mp heq).symm
    exact hp.recent id hlo (lt_of_le_of_ne (Nat.lt_succ_iff.mp hhi) hne) hmissing

end Ask

/-- **One message of the pass.** -/
theorem Windowed.request {r : Client × Option UInt16} (h : c.Windowed asked clock)
    (hp : c.Pass asked clock now w msgId) (hlt : msgId < w.val) (hr : c.Requests now msgId r) :
    r.1.Windowed (asked ++ r.2.toList.map (·, now)) clock ∧
      r.1.Pass (asked ++ r.2.toList.map (·, now)) clock now w (msgId + 1) := by
  cases hr with
  | skip hlast hrecent =>
      rw [Option.toList_none, List.map_nil, List.append_nil]
      exact ⟨h, hp.skip h hlt hlast hrecent⟩
  | ask hwait hlast hreceived hnext htotal =>
      have hwait' := fun t ht => (hwait t ht).2
      exact ⟨h.ask hp hlt hwait' hlast hreceived hnext htotal, hp.ask hlt hreceived hnext⟩

/-- **A response.** -/
theorem Windowed.receive {msg : Msg} (h : c.Windowed asked clock)
    (hmsg : msg.msgId ∈ asked.map Prod.fst) : (c.receive msg).1.Windowed asked clock := by
  unfold Client.receive
  split_ifs with hid hreceived
  · exact h
  · exact h
  · refine { h with below := fun i hi => ?_, wanted := fun id hr => ?_ }
    · simp only [Vector.getElem?_set]
      split_ifs
      · rfl
      · exact h.below i hi
    · simp only [Vector.getElem?_set] at hr
      split_ifs at hr with hsame
      · exact UInt16.toNat_inj.mp hsame ▸ hmsg
      · exact h.wanted id hr

/-- **A block written.** -/
theorem Windowed.write (h : c.Windowed asked clock) (hnext : c.nextExpected.toNat < NUM_MSGS)
    (hreceived : c.received[c.nextExpected.toNat] = true) :
    (c.write hnext).Windowed asked clock := by
  have hsucc : (c.write hnext).nextExpected.toNat = c.nextExpected.toNat + 1 := toNat_succ hnext
  refine { h with written := ?_, bound := ?_, below := fun i hi => ?_, ahead := fun p hp => ?_ }
  · rw [hsucc, h.written]
    rfl
  · rw [hsucc]
    exact hnext
  · rw [hsucc] at hi
    rcases Nat.lt_succ_iff_lt_or_eq.mp hi with hi | rfl
    · exact h.below i hi
    · exact (Vector.getElem?_eq_getElem hnext).trans (congrArg some hreceived)
  · rw [hsucc]
    exact (h.ahead p hp).trans (by omega)

end Client

/-! ### The runs -/

namespace Exchange

/-- The client keeps to the window, and its buffer holds what it asked for. -/
structure Kept (x : Exchange) : Prop where
  client : x.client.Windowed x.asked x.clock
  pass : ∀ now w msgId, x.client.pc = .requesting now w msgId →
    x.client.Pass x.asked x.clock now w msgId
  room : x.sender.numMsgs ≤ NUM_CHUNKS
  held : ∀ m ∈ x.sender.held, m.msgId ∈ x.asked.map Prod.fst

theorem kept_start (data : Vector Msg NUM_CHUNKS) (now : ℤ) : (start data now).Kept where
  client := Client.windowed_start now
  pass := nofun
  room := Nat.zero_le _
  held := by simp [start, Sender.held_start]

variable {x : Exchange}

/-- A step to another place than the request loop. -/
theorem Kept.elsewhere {c : Client} {b : Sender} {now : ℤ}
    (hclient : c.Windowed x.asked now) (hroom : b.numMsgs ≤ NUM_CHUNKS)
    (hheld : ∀ m ∈ b.held, m.msgId ∈ x.asked.map Prod.fst) (pc : ClientPc)
    (hpc : ∀ now w msgId, pc ≠ .requesting now w msgId) :
    Kept ⟨{ c with pc := pc }, b, now, x.asked⟩ :=
  ⟨hclient.goto pc le_rfl, fun _ _ _ heq => absurd heq (hpc _ _ _), hroom, hheld⟩

/-- **One step of `main`.** -/
theorem Kept.main (h : x.Kept) (elapsed : ℕ) : (x.step order (.main elapsed)).Kept := by
  have hclock : x.clock ≤ x.clock + elapsed := by omega
  have hlater : x.client.Windowed x.asked (x.clock + elapsed) := h.client.goto x.client.pc hclock
  have hdoes := x.client.step_does x.sender (x.clock + elapsed)
  simp only [step]
  generalize x.client.step x.sender (x.clock + elapsed) = r at hdoes ⊢
  cases hdoes with
  | begin hpc =>
      -- a new pass
      rw [entry_none, List.append_nil]
      refine ⟨h.client.goto _ hclock, fun now w msgId heq => ?_, h.room, h.held⟩
      cases heq
      refine ⟨rfl, le_rfl, hlater.past, le_rfl, ?_, fun id hlo hhi => absurd hhi hlo.not_gt⟩
      rw [toNat_windowEnd h.client.bound]
      exact le_min (Nat.le_add_right _ _) h.client.bound
  | @request reading w msgId hpc hlt hid =>
      have hcases := x.client.request_cases reading msgId hid
      obtain ⟨hclient, hpass⟩ := h.client.request (h.pass reading w msgId hpc) hlt hcases
      rw [hpc, entry_requesting]
      refine ⟨hclient.goto _ hclock, fun now' w' msgId' heq => ?_, h.room, fun m hm => ?_⟩
      · cases heq
        exact { hpass with current := hpass.current.trans hclock }
      · rw [List.map_append]
        exact List.mem_append_left _ (h.held m hm)
  | take hpc hget =>
      obtain ⟨hasked, hheld⟩ := Sender.forall_held_getMsg h.room h.held hget
      rw [entry_none, List.append_nil]
      exact .elsewhere (hlater.receive hasked) (Sender.numMsgs_getMsg h.room hget) hheld _ nofun
  | write hpc hnext hreceived =>
      rw [entry_none, List.append_nil]
      exact .elsewhere (hlater.write hnext hreceived) h.room h.held _ nofun
  | leave hpc =>
      rw [entry_none, List.append_nil]
      exact ⟨hlater.goto _ le_rfl, nofun, h.room, h.held⟩
  | stay hpc =>
      rw [entry_none, List.append_nil]
      refine ⟨hlater, fun _ _ _ heq => ?_, h.room, h.held⟩
      rcases hpc with hpc | hpc <;> cases hpc.symm.trans heq
  | finish | endPass | ready | empty | abort | endWrite =>
      rw [entry_none, List.append_nil]
      exact .elsewhere hlater h.room h.held _ nofun

/-- **One frame stored.** -/
theorem Kept.response (h : x.Kept) (buf : Frame) : (x.step order (.response buf)).Kept := by
  simp only [step]
  split_ifs with hasked
  · exact { h with
      room := Sender.numMsgs_store h.room
      held := Sender.forall_held_store h.room h.held hasked }
  · exact h

theorem Kept.run (h : x.Kept) (happenings : List Happening) : (x.run order happenings).Kept := by
  induction happenings generalizing x with
  | nil => exact h
  | cons a happenings ih =>
      refine ih ?_
      cases a with
      | main elapsed => exact h.main elapsed
      | response buf => exact h.response buf

/-- The request a step of `main` sends. -/
theorem Kept.sends (h : x.Kept) {now : ℤ} {id : UInt16}
    (hsent : (x.client.step x.sender now).2.2 = some id) :
    x.client.InWindow id ∧ x.client.received[id.toNat]? = some false := by
  have hdoes := x.client.step_does x.sender now
  generalize x.client.step x.sender now = r at hdoes hsent
  cases hdoes with
  | @request reading w msgId hpc hlt hid =>
      obtain ⟨rfl, hmissing⟩ := h.client.asks hid (x.client.request_cases reading msgId hid) hsent
      exact ⟨(h.pass reading w id hpc).inWindow h.client hlt, hmissing⟩
  | _ => cases hsent

/-- The history is what was sent. -/
theorem asked_main (x : Exchange) (order : ByteOrder) (elapsed : ℕ) :
    (x.step order (.main elapsed)).asked.map Prod.fst =
      x.asked.map Prod.fst ++ (x.client.step x.sender (x.clock + elapsed)).2.2.toList := by
  have hdoes := x.client.step_does x.sender (x.clock + elapsed)
  simp only [step, List.map_append]
  generalize x.client.step x.sender (x.clock + elapsed) = r at hdoes ⊢
  cases hdoes with
  | request hpc =>
      rw [hpc, entry_requesting, List.map_map]
      exact congrArg _ (List.map_id _)
  | _ => simp

/-- What is asked for and missing is in a window of `WINDOW_SIZE` ids. -/
theorem Kept.outstanding (h : x.Kept) :
    ((x.asked.map Prod.fst).toFinset.filter fun id =>
      x.client.received[id.toNat]? = some false).card ≤ WINDOW_SIZE.toNat := by
  let next := x.client.nextExpected.toNat
  have hsub : ∀ id ∈ (x.asked.map Prod.fst).toFinset.filter fun id =>
      x.client.received[id.toNat]? = some false,
      id.toNat ∈ Finset.Ico next (next + WINDOW_SIZE.toNat) := by
    intro id hid
    obtain ⟨hasked, hmissing⟩ := Finset.mem_filter.mp hid
    obtain ⟨p, hp, rfl⟩ := List.mem_map.mp (List.mem_toFinset.mp hasked)
    refine Finset.mem_Ico.mpr ⟨not_lt.mp fun hlt => ?_, h.client.ahead p hp⟩
    -- what is below the window is received
    rw [h.client.below _ hlt] at hmissing
    cases hmissing
  calc _ ≤ (Finset.Ico next (next + WINDOW_SIZE.toNat)).card :=
        Finset.card_le_card_of_injOn UInt16.toNat hsub fun a _ b _ heq => UInt16.toNat_inj.mp heq
    _ = WINDOW_SIZE.toNat := by rw [Nat.card_Ico, Nat.add_sub_cancel_left]

/-- At the end of a pass all that is missing in the window has been asked for lately. -/
theorem Kept.passed (h : x.Kept) {now : ℤ} {w : WindowEnd} {msgId id : UInt16}
    (hpc : x.client.pc = .requesting now w msgId) (hend : ¬ msgId < w.val)
    (hid : x.client.InWindow id) (hmissing : x.client.received[id.toNat]? = some false) :
    ∃ t, (id, t) ∈ x.asked ∧ t ≤ now ∧ now - t < RETRANSMIT_TIMEOUT := by
  have hpass := h.pass now w msgId hpc
  have hw : w.val.toNat ≤ msgId.toNat := by
    rw [UInt16.lt_iff_toNat_lt] at hend
    exact not_lt.mp hend
  have hupper := hid.2
  rw [← toNat_windowEnd h.client.bound, ← hpass.window] at hupper
  obtain ⟨t, hlast, hrecent⟩ := hpass.recent id hid.1 (hupper.trans_le hw) hmissing
  have hmem := mem_of_lastTime hlast
  exact ⟨t, hmem, hpass.past _ hmem, hrecent⟩

/-- **The sliding window.**  In every state of every run: the counters agree, and all below the
window is received; a request is for a missing id of the window; at most `WINDOW_SIZE` ids are asked
for and missing; two requests for one id are `RETRANSMIT_TIMEOUT` apart; after a pass of the request
loop every missing id of the window was asked for less than that before the pass's clock reading;
and no computation of 16 bits wraps. -/
theorem sliding_window (order : ByteOrder) (data : Vector Msg NUM_CHUNKS) (t₀ : ℤ)
    (happenings : List Happening) :
    let x := (start data t₀).run order happenings
    let c := x.client
    (c.nextExpected.toNat = c.totalWritten ∧ c.totalWritten ≤ NUM_MSGS ∧
        ∀ i < c.nextExpected.toNat, c.received[i]? = some true) ∧
      (∀ now id, (c.step x.sender now).2.2 = some id →
        c.InWindow id ∧ c.received[id.toNat]? = some false) ∧
      ((x.asked.map Prod.fst).toFinset.filter fun id =>
        c.received[id.toNat]? = some false).card ≤ WINDOW_SIZE.toNat ∧
      (x.asked.Pairwise fun p q => p.1 = q.1 → RETRANSMIT_TIMEOUT ≤ q.2 - p.2) ∧
      (∀ now w msgId, c.pc = .requesting now w msgId → ¬ msgId < w.val →
        ∀ id, c.InWindow id → c.received[id.toNat]? = some false →
          ∃ t, (id, t) ∈ x.asked ∧ t ≤ now ∧ now - t < RETRANSMIT_TIMEOUT) ∧
      ((c.nextExpected + WINDOW_SIZE).toNat = c.nextExpected.toNat + WINDOW_SIZE.toNat ∧
        (∀ now w msgId, c.pc = .requesting now w msgId → msgId < w.val →
          (msgId + 1).toNat = msgId.toNat + 1) ∧
        (c.nextExpected.toNat < NUM_MSGS →
          (c.nextExpected + 1).toNat = c.nextExpected.toNat + 1)) := by
  intro x c
  have h : x.Kept := (kept_start data t₀).run happenings
  refine ⟨⟨h.client.written, h.client.written ▸ h.client.bound, h.client.below⟩,
    fun _ _ hsent => h.sends hsent, h.outstanding, h.client.paced,
    fun _ _ _ hpc hend _ hid hmissing => h.passed hpc hend hid hmissing,
    toNat_window h.client.bound, fun _ w _ _ hlt => ?_, toNat_succ⟩
  exact toNat_succ ((UInt16.lt_iff_toNat_lt.mp hlt).trans_le w.property)

/-- The first window is asked for again when the timeout is over, and not before. -/
example :
    let chunk : Chunk := ⟨.replicate CHUNK_SIZE 65, rfl⟩
    let pass (elapsed : ℕ) : List Happening := .main elapsed :: .replicate 13 (.main 0)
    let x := (start (.replicate NUM_CHUNKS ⟨0, chunk⟩) 0).run .littleEndian
      (pass 0 ++ pass 699999999 ++ pass 1)
    x.asked.map Prod.snd = .replicate 10 0 ++ .replicate 10 700000000 := by
  decide +kernel

end Exchange

end PacketSim.Reliable
