import Mathlib
import PacketSim.Lib.Simulation
import PacketSim.Reliable.Steps
import PacketSim.Reliable.Stream
import PacketSim.Reliable.Window

/-!
# Reliable — Honesty

The server answers only ids it was asked for, so the client of the transfer keeps to the window.

* `Server.Honest` — its queue and what it is about to send are for ids it has read.
* `System.Exchanging.run` — a schedule in which the client's clock does not go back is a run of an
  `Exchange`.
* `System.keeps_window` — what follows for the requests of the transfer.
-/

namespace PacketSim.Reliable

open Lib

variable {order : ByteOrder} {o : Options} {msgs : List Chunk} {A A' : UInt16 → Prop}

/-! ### The server -/

/-- The bytes of a request for an id of `A`. -/
def Asks (order : ByteOrder) (A : UInt16 → Prop) (f : List Byte) : Prop :=
  ∃ id, A id ∧ f = order.store id

/-- The bytes of a response to such a request. -/
def Responds (order : ByteOrder) (A : UInt16 → Prop) (f : List Byte) : Prop :=
  f.length = CHUNK_SIZE + 2 ∧ A (order.load f)

theorem Asks.length {f : List Byte} (h : Asks order A f) : f.length = 2 := by
  obtain ⟨id, -, rfl⟩ := h
  exact order.length_store id

theorem Asks.mono {f : List Byte} (h : Asks order A f) (himp : ∀ id, A id → A' id) :
    Asks order A' f := by
  obtain ⟨id, hid, hf⟩ := h
  exact ⟨id, himp id hid, hf⟩

theorem responds_build {id : UInt16} (hid : A id) (chunk : Chunk) :
    Responds order A (Frame.build order id chunk).bytes := by
  refine ⟨(Frame.build order id chunk).length_eq, ?_⟩
  rw [Frame.build, ByteOrder.load_store_append]
  exact hid

namespace Server

/-- All that the server is going to send is for ids of `A`. -/
structure Honest (order : ByteOrder) (A : UInt16 → Prop) (s : Server) : Prop where
  delays : ∀ d ∈ s.delays, A d.2
  sending : ∀ t rest, s.pc = .sending t rest → ∀ d ∈ rest, A d.2
  duplicating : ∀ t data rest, s.pc = .duplicating t data rest →
    Responds order A data.bytes ∧ ∀ d ∈ rest, A d.2

variable {s : Server}

theorem honest_start (now : ℤ) : (start now).Honest order A := ⟨nofun, nofun, nofun⟩

theorem Honest.mono (h : s.Honest order A) (himp : ∀ id, A id → A' id) : s.Honest order A' where
  delays d hd := himp _ (h.delays d hd)
  sending t rest hpc d hd := himp _ (h.sending t rest hpc d hd)
  duplicating t data rest hpc := by
    obtain ⟨⟨hlen, hid⟩, hrest⟩ := h.duplicating t data rest hpc
    exact ⟨⟨hlen, himp _ hid⟩, fun d hd => himp _ (hrest d hd)⟩

/-- The queue stays, and the server goes where it sends nothing. -/
theorem Honest.goto (h : s.Honest order A) {pc : ServerPc}
    (hsending : ∀ t rest, pc ≠ .sending t rest)
    (hduplicating : ∀ t data rest, pc ≠ .duplicating t data rest) :
    ({ s with pc := pc } : Server).Honest order A :=
  ⟨h.delays, fun _ _ hpc => absurd hpc (hsending _ _),
    fun _ _ _ hpc => absurd hpc (hduplicating _ _ _)⟩

theorem Honest.send (h : s.Honest order A) {t : ℤ} {rest : List (ℤ × UInt16)}
    (hrest : ∀ d ∈ rest, A d.2) : ({ s with pc := .sending t rest } : Server).Honest order A := by
  refine ⟨h.delays, fun t' rest' hpc => ?_, nofun⟩
  cases hpc
  exact hrest

theorem Honest.handle (h : s.Honest order A) {currTime now : ℤ} {msgId : UInt16} {d : Draws}
    (hid : A msgId) : ({ s.handle o msgs currTime msgId d now with pc := .loop } : Server).Honest
      order A := by
  refine ⟨fun e he => ?_, nofun, nofun⟩
  rcases handle_cases o msgs s currTime msgId d now with hsame | ⟨due, hadd, -, -⟩
  · exact h.delays e (hsame ▸ he)
  · simp only [hadd] at he
    rcases List.mem_append.mp he with he | he
    · exact h.delays e he
    · exact List.mem_singleton.mp he ▸ hid

/-- **One step of the server.**  It sends responses to what it read, and only the last of them may
lose its end. -/
theorem Honest.step {requests l : List Byte} (h : s.Honest order A) (o : Options)
    (msgs : List Chunk) (hrequests : Framed (Asks order A) requests)
    (hl : Torn (Responds order A) (s.pc = .closed) l) (env : ServerEnv) :
    (s.step order o msgs requests env).1.Honest order A ∧
      Framed (Asks order A) (s.step order o msgs requests env).2.1 ∧
      Torn (Responds order A) ((s.step order o msgs requests env).1.pc = .closed)
        (l ++ (s.step order o msgs requests env).2.2) := by
  have hdoes := s.step_does order o msgs requests env
  generalize s.step order o msgs requests env = r at hdoes ⊢
  -- a step outside `closed` that writes nothing
  have hquiet : ∀ {pc pc' : ServerPc}, s.pc = pc → pc ≠ .closed →
      Torn (Responds order A) (pc' = .closed) (l ++ []) :=
    fun hpc hne => hl.stay fun hc => absurd (hpc.symm.trans hc) hne
  cases hdoes with
  | leave hopen => exact ⟨h.goto nofun nofun, hrequests, hquiet rfl hopen⟩
  | begin now hpc => exact ⟨h.send h.delays, hrequests, hquiet hpc nofun⟩
  | pass hpc =>
      have hrest := List.forall_mem_of_forall_mem_cons (h.sending _ _ hpc)
      exact ⟨h.send hrest, hrequests, hquiet hpc nofun⟩
  | @answer t d rest chunk hpc =>
      obtain ⟨hid, hrest⟩ := List.forall_mem_cons.mp (h.sending _ _ hpc)
      exact ⟨h.send hrest, hrequests, hl.write (by simp [hpc]) (responds_build hid chunk)⟩
  | @answerFirst t d rest chunk hpc =>
      obtain ⟨hid, hrest⟩ := List.forall_mem_cons.mp (h.sending _ _ hpc)
      have hresponds : Responds order A (Frame.build order d.2 chunk).bytes :=
        responds_build hid chunk
      refine ⟨⟨h.delays, nofun, fun _ _ _ heq => ?_⟩, hrequests,
        hl.write (by simp [hpc]) hresponds⟩
      cases heq
      exact ⟨hresponds, hrest⟩
  | @answerCut t d rest chunk k hpc =>
      have hid := (List.forall_mem_cons.mp (h.sending _ _ hpc)).1
      exact ⟨h.goto nofun nofun, hrequests,
        hl.fail (by simp [hpc]) (responds_build hid chunk) rfl k⟩
  | erase hpc =>
      refine ⟨⟨fun d hd => ?_, nofun, nofun⟩, hrequests, hquiet hpc nofun⟩
      exact h.delays d (List.mem_of_mem_filter hd)
  | again hpc =>
      obtain ⟨hresponds, hrest⟩ := h.duplicating _ _ _ hpc
      exact ⟨h.send hrest, hrequests, hl.write (by simp [hpc]) hresponds⟩
  | againCut k hpc =>
      obtain ⟨hresponds, -⟩ := h.duplicating _ _ _ hpc
      exact ⟨h.goto nofun nofun, hrequests, hl.fail (by simp [hpc]) hresponds rfl k⟩
  | idle hpc => exact ⟨h.goto nofun nofun, hrequests, hquiet hpc nofun⟩
  | @read t x y rest draws now hpc hread =>
      subst hread
      obtain ⟨⟨id, hid, hbytes⟩, hrest⟩ :=
        Framed.split (f := [x, y]) (fun _ => Asks.length) Nat.two_pos hrequests rfl
      have hload : order.load [x, y] = id := by
        rw [hbytes, ← List.append_nil (order.store id), ByteOrder.load_store_append]
      exact ⟨h.handle (hload ▸ hid), hrest, hquiet hpc nofun⟩
  | stay => exact ⟨h, hrequests, hl.stay id⟩

end Server

/-! ### The system -/

/-- The client's clock at a step of its own. -/
def Action.reading : Action → Option ℤ
  | .client now => some now
  | .reader _ | .server _ => none

theorem Reader.Whole.mono {P Q : List Byte → Prop} {closed : Prop} {r : Reader}
    {responses : List Byte} (h : r.Whole P closed responses) (himp : ∀ f, P f → Q f) :
    r.Whole Q closed responses :=
  ⟨fun hr => (h.stream hr).imp himp, fun buf hr => himp _ (h.storing buf hr)⟩

namespace System

/-- The client and its buffer are those of an exchange, and all that is on its way is for ids that
were asked for. -/
structure Exchanging (order : ByteOrder) (s : System) (x : Exchange) : Prop where
  client : s.client = x.client
  sender : s.sender = x.sender
  requests : Framed (Asks order (· ∈ x.asked.map Prod.fst)) s.requests
  server : s.server.Honest order (· ∈ x.asked.map Prod.fst)
  reader : s.reader.Whole (Responds order (· ∈ x.asked.map Prod.fst)) (s.server.pc = .closed)
    s.responses

theorem exchanging_start (order : ByteOrder) (data : Vector Msg NUM_CHUNKS) (now t₀ : ℤ) :
    (start data now).Exchanging order (.start data t₀) :=
  ⟨rfl, rfl, .nil, Server.honest_start now, fun _ => .nil, nofun⟩

variable {s : System} {x : Exchange}

theorem Exchanging.main (h : s.Exchanging order x) (o : Options) (msgs : List Chunk) {now : ℤ}
    (hnow : x.clock ≤ now) :
    (s.step order o msgs (.client now)).Exchanging order
      (x.step order (.main (now - x.clock).toNat)) := by
  have hclock : x.clock + (now - x.clock).toNat = now := by omega
  have hasked := x.asked_main order (now - x.clock).toNat
  rw [hclock] at hasked
  obtain ⟨hclient, hsender, hrequests, hserver, hreader⟩ := h
  have hmono : ∀ id, id ∈ x.asked.map Prod.fst →
      id ∈ (x.step order (.main (now - x.clock).toNat)).asked.map Prod.fst := by
    intro id hid
    rw [hasked]
    exact List.mem_append_left _ hid
  refine ⟨?_, ?_, ?_, hserver.mono hmono, hreader.mono fun f hf => ⟨hf.1, hmono _ hf.2⟩⟩
  · simp only [System.step, Exchange.step, hclock, hclient, hsender]
  · simp only [System.step, Exchange.step, hclock, hclient, hsender]
  · have hsent : (s.step order o msgs (.client now)).requests =
        s.requests ++ (x.client.step x.sender now).2.2.elim [] order.store := by
      simp only [System.step, hclient, hsender]
    rw [hsent]
    have hold := hrequests.imp fun f hf => hf.mono hmono
    cases hid : (x.client.step x.sender now).2.2 with
    | none =>
        rw [Option.elim_none, List.append_nil]
        exact hold
    | some id =>
        refine hold.snoc ⟨id, ?_, rfl⟩
        rw [hasked, hid]
        exact List.mem_append_right _ List.mem_cons_self

theorem Exchanging.readerStep (h : s.Exchanging order x) (o : Options) (msgs : List Chunk)
    (env : ReaderEnv) :
    ∃ happenings, (s.step order o msgs (.reader env)).Exchanging order (x.run order happenings) ∧
      (x.run order happenings).clock = x.clock := by
  obtain ⟨hwhole, hsender⟩ := h.reader.step (fun _ hf => hf.1) s.sender env
  rcases hsender with hsame | ⟨buf, hr, hstore⟩
  · exact ⟨[], ⟨h.client, hsame.trans h.sender, h.requests, h.server, hwhole⟩, rfl⟩
  · -- the frame it stores is a response to an id that was asked for
    have hasked : (buf.toMsg order).msgId ∈ x.asked.map Prod.fst := (h.reader.storing buf hr).2
    have hrun : x.run order [.response buf] = { x with sender := x.sender.store order buf } :=
      if_pos hasked
    refine ⟨[.response buf], ?_, ?_⟩
    · rw [hrun]
      exact ⟨h.client, hstore.trans (h.sender ▸ rfl), h.requests, h.server, hwhole⟩
    · rw [hrun]

theorem Exchanging.serverStep (h : s.Exchanging order x) (o : Options) (msgs : List Chunk)
    (env : ServerEnv) :
    (s.step order o msgs (.server env)).Exchanging order x := by
  by_cases hexited : s.reader = .exited
  · have hstep := h.server.step o msgs h.requests .nil env
    refine ⟨h.client, h.sender, hstep.2.1, hstep.1, fun hr => absurd hexited hr, h.reader.storing⟩
  · obtain ⟨hserver, hrequests, hstream⟩ :=
      h.server.step o msgs h.requests (h.reader.stream hexited) env
    refine ⟨h.client, h.sender, hrequests, hserver, fun _ => ?_, h.reader.storing⟩
    rwa [List.append_assoc] at hstream

/-- **A schedule in which the client's clock does not go back.** -/
theorem Exchanging.run (h : s.Exchanging order x) (o : Options) (msgs : List Chunk)
    (as : List Action)
    (hclock : (x.clock :: as.filterMap Action.reading).Pairwise (· ≤ ·)) :
    ∃ happenings, (s.run order o msgs as).Exchanging order (x.run order happenings) := by
  let onward (x : Exchange) (as : List Action) : Prop :=
    (x.clock :: as.filterMap Action.reading).Pairwise (· ≤ ·)
  refine exists_run onward (fun s x a as hs hclock => ?_) h as hclock
  cases a with
  | client now =>
      obtain ⟨hle, hrest⟩ := List.pairwise_cons.mp hclock
      have hnow : x.clock ≤ now := hle now List.mem_cons_self
      have hreading : (x.step order (.main (now - x.clock).toNat)).clock = now := by
        simp only [Exchange.step]
        omega
      refine ⟨[.main (now - x.clock).toNat], hs.main o msgs hnow, ?_⟩
      simp only [onward, List.foldl_cons, List.foldl_nil, hreading]
      exact hrest
  | reader env =>
      obtain ⟨happenings, hstep, hsame⟩ := hs.readerStep o msgs env
      refine ⟨happenings, hstep, ?_⟩
      rw [Exchange.run] at hsame
      simp only [onward, hsame]
      exact hclock
  | server env => exact ⟨[], hs.serverStep o msgs env, hclock⟩

/-- **The transfer keeps to the window.**  Whatever its client requests is missing and in the
window. -/
theorem keeps_window (order : ByteOrder) (o : Options) (msgs : List Chunk)
    (data : Vector Msg NUM_CHUNKS) (now t₀ : ℤ) (as : List Action)
    (hclock : (t₀ :: as.filterMap Action.reading).Pairwise (· ≤ ·)) :
    let s := (start data now).run order o msgs as
    ∀ t id, (s.client.step s.sender t).2.2 = some id →
      s.client.InWindow id ∧ s.client.received[id.toNat]? = some false := by
  intro s t id hsent
  obtain ⟨happenings, hexchanging⟩ :=
    (exchanging_start order data now t₀).run o msgs as hclock
  rw [hexchanging.client, hexchanging.sender] at hsent
  rw [hexchanging.client]
  exact ((Exchange.kept_start data t₀).run happenings).sends hsent

end System

end PacketSim.Reliable
