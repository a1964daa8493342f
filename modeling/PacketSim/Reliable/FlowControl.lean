import Mathlib
import PacketSim.Lib.Framing
import PacketSim.Reliable.Buffer
import PacketSim.Reliable.Honesty
import PacketSim.Reliable.Steps
import PacketSim.Reliable.Stream
import PacketSim.Reliable.Window

/-!
# Reliable — FlowControl

The window of the client is as wide as the queue of the server and the buffer of the `Sender`.  If
the server drops nothing on purpose (`--no-packet-drops`, no `--chaos`), nothing is lost for want
of room either, until the client repeats a request.

* `System.inTransit` — the ids on their way: in a request, due for an answer, in an answer, in the
  buffer.
* `System.Flowing` — the invariant: what was asked for is in transit, once, or received.
* `System.run_lossless` — in every state of every such run.
-/

namespace PacketSim.Reliable

open Lib

variable {order : ByteOrder} {o : Options} {msgs : List Chunk}

/-! ### Where the ids are -/

/-- The ids of the messages of `n` bytes on a stream. -/
def idsOn (order : ByteOrder) (n : ℕ) (l : List Byte) : Multiset UInt16 :=
  (cut n l).map order.load

/-- The ids the server owes an answer.  In the middle of a pass the entries that were due and are
behind it have been answered, and not yet erased. -/
def Server.pending (s : Server) : Multiset UInt16 :=
  let ids (l : List (ℤ × UInt16)) : Multiset UInt16 := l.map Prod.snd
  match s.pc with
  | .sending t rest | .duplicating t _ rest =>
      ids (s.delays.filter fun d => !(d.1 < t)) + ids (rest.filter fun d => d.1 < t)
  | _ => ids s.delays

/-- The id of the frame the reader is about to store. -/
def Reader.stored (order : ByteOrder) : Reader → Multiset UInt16
  | .storing buf => {order.load buf.bytes}
  | _ => 0

/-- The ids of the messages in the buffer. -/
def Sender.ids (b : Sender) : Multiset UInt16 := (b.held.map Msg.msgId : List UInt16)

/-- The ids received. -/
def Client.got (c : Client) : Multiset UInt16 :=
  ((List.range NUM_MSGS).filter fun i => c.received[i]? = some true).map UInt16.ofNat

namespace System

/-- The ids between a request being written and its chunk being read, wherever they are. -/
def inTransit (order : ByteOrder) (s : System) : Multiset UInt16 :=
  idsOn order 2 s.requests + s.server.pending +
    (idsOn order (CHUNK_SIZE + 2) (s.reader.taken ++ s.responses) + s.reader.stored order +
      s.sender.ids)

/-- The connection is in use at both ends. -/
def Open (s : System) : Prop := s.server.pc ≠ .closed ∧ s.reader ≠ .exited

instance : ∀ pc : ServerPc, Decidable (pc = .closed)
  | .closed => isTrue rfl
  | .loop | .sending _ _ | .duplicating _ _ _ | .receiving _ => isFalse nofun

instance : ∀ r : Reader, Decidable (r = .exited)
  | .exited => isTrue rfl
  | .polling | .reading _ | .storing _ => isFalse nofun

instance (s : System) : Decidable s.Open :=
  inferInstanceAs (Decidable (s.server.pc ≠ .closed ∧ s.reader ≠ .exited))

/-- The ids that the client requests in a step. -/
def sends (s : System) : Action → List UInt16
  | .client now => (s.client.step s.sender now).2.2.toList
  | .reader _ | .server _ => []

/-- The ids that the client requests in a run. -/
def sent (order : ByteOrder) (o : Options) (msgs : List Chunk) (s : System) :
    List Action → List UInt16
  | [] => []
  | a :: as => s.sends a ++ sent order o msgs (s.step order o msgs a) as

end System

/-! ### The client -/

namespace Client

variable {c : Client}

theorem toNat_id {i : ℕ} (hi : i < NUM_MSGS) : (UInt16.ofNat i).toNat = i :=
  UInt16.toNat_ofNat_of_lt' (hi.trans (by decide))

theorem mem_got {id : UInt16} : id ∈ c.got ↔ c.received[id.toNat]? = some true := by
  simp only [got, Multiset.mem_coe, List.mem_map, List.mem_filter, List.mem_range,
    decide_eq_true_eq]
  constructor
  · rintro ⟨i, ⟨hi, hreceived⟩, rfl⟩
    rwa [toNat_id hi]
  · intro h
    obtain ⟨hlt, -⟩ := Vector.getElem?_eq_some_iff.mp h
    exact ⟨id.toNat, ⟨hlt, h⟩, UInt16.ofNat_toNat⟩

theorem nodup_got (c : Client) : c.got.Nodup := by
  refine Multiset.coe_nodup.mpr (List.Nodup.map_on ?_ (List.nodup_range.filter _))
  intro i hi j hj heq
  have hi' := List.mem_range.mp (List.mem_of_mem_filter hi)
  have hj' := List.mem_range.mp (List.mem_of_mem_filter hj)
  have := congrArg UInt16.toNat heq
  rwa [toNat_id hi', toNat_id hj'] at this

/-- **A message that is missing is received.** -/
theorem got_receive {msg : Msg} (hvalid : msg.msgId.toNat < NUM_MSGS) (hnew : msg.msgId ∉ c.got) :
    (c.receive msg).1.got = msg.msgId ::ₘ c.got := by
  have hmissing : ¬ c.received[msg.msgId.toNat] = true := fun h =>
    hnew (mem_got.mpr ((Vector.getElem?_eq_getElem hvalid).trans (congrArg some h)))
  rw [receive, dif_neg (not_le.mpr hvalid), if_neg hmissing]
  refine (Multiset.Nodup.ext (nodup_got _) (Multiset.nodup_cons.mpr ⟨hnew, nodup_got c⟩)).mpr ?_
  intro id
  rw [mem_got, Multiset.mem_cons, mem_got, Vector.getElem?_set]
  split_ifs with hsame
  · simp [UInt16.toNat_inj.mp hsame]
  · have hne : id ≠ msg.msgId := fun h => hsame (congrArg UInt16.toNat h.symm)
    simp [hne]

/-- At the head of the loop the next message is missing: all the others have been written. -/
def Waits (c : Client) : Prop :=
  c.pc = .loop → ∀ h : c.nextExpected.toNat < NUM_MSGS, c.received[c.nextExpected.toNat] = false

theorem Waits.step (h : c.Waits) (b : Sender) (now : ℤ) : (c.step b now).1.Waits := by
  unfold Client.step
  cases hpc : c.pc with
  | loop => dsimp only; split_ifs <;> rintro ⟨⟩
  | requesting => dsimp only; split_ifs <;> rintro ⟨⟩
  | draining => dsimp only; split_ifs <;> rintro ⟨⟩
  | taking => dsimp only; split <;> rintro ⟨⟩
  | writing =>
      dsimp only
      split_ifs with hnext hreceived
      · rintro ⟨⟩
      · exact fun _ _ => eq_false_of_ne_true hreceived
      · exact fun _ hlt => absurd hlt hnext
  | exited => rintro ⟨⟩
  | joining | aborted => exact h

end Client

/-! ### The streams -/

/-- Messages of `n` bytes. -/
abbrev Messages (n : ℕ) (l : List Byte) : Prop := Framed (fun f => f.length = n) l

@[simp] theorem idsOn_nil (order : ByteOrder) (n : ℕ) : idsOn order n [] = 0 := by simp [idsOn]

theorem idsOn_append {n : ℕ} (hn : 0 < n) {l : List Byte} (h : Messages n l) (l' : List Byte) :
    idsOn order n (l ++ l') = idsOn order n l + idsOn order n l' := by
  rw [idsOn, h.cut_append (fun _ => id) hn, List.map_append, ← Multiset.coe_add]
  rfl

theorem idsOn_cons (order : ByteOrder) {n : ℕ} (hn : 0 < n) {f : List Byte} (hf : f.length = n)
    (l : List Byte) :
    idsOn order n (f ++ l) = order.load f ::ₘ idsOn order n l := by
  rw [idsOn, cut_append hn hf, List.map_cons, ← Multiset.cons_coe]
  rfl

/-- A request holds the id it is for. -/
theorem idsOn_store (order : ByteOrder) (id : UInt16) : idsOn order 2 (order.store id) = {id} := by
  have h := idsOn_cons order Nat.two_pos (order.length_store id) []
  have hload := order.load_store_append id []
  rw [List.append_nil] at h hload
  rw [h, hload, idsOn_nil]
  rfl

/-- A response holds the id it answers. -/
theorem idsOn_build (order : ByteOrder) (id : UInt16) (chunk : Chunk) :
    idsOn order (CHUNK_SIZE + 2) (Frame.build order id chunk).bytes = {id} := by
  have h := idsOn_cons order (Nat.succ_pos _) (Frame.build order id chunk).length_eq []
  have hload : order.load (Frame.build order id chunk).bytes = id := order.load_store_append id _
  rw [List.append_nil] at h
  rw [h, hload, idsOn_nil]
  rfl

/-! ### The server -/

namespace Server

variable {s : Server} {requests : List Byte}

/-- The entries that are not due, and those that are. -/
theorem ids_filter (l : List (ℤ × UInt16)) (t : ℤ) :
    (((l.filter fun d => !(d.1 < t)).map Prod.snd : List UInt16) : Multiset UInt16) +
      ((l.filter fun d => d.1 < t).map Prod.snd : List UInt16) =
        (l.map Prod.snd : List UInt16) := by
  rw [add_comm, Multiset.coe_add, ← List.map_append, Multiset.coe_eq_coe]
  exact (List.filter_append_perm (fun d : ℤ × UInt16 => d.1 < t) l).map _

/-- An entry that is due is owed until the pass comes to it. -/
theorem pending_due {t : ℤ} {d : ℤ × UInt16} {rest : List (ℤ × UInt16)}
    (hpc : s.pc = .sending t (d :: rest)) (hdue : d.1 < t) :
    s.pending = d.2 ::ₘ ({ s with pc := .sending t rest } : Server).pending := by
  have hfilter : (d :: rest).filter (fun d => decide (d.1 < t)) =
      d :: rest.filter fun d => decide (d.1 < t) := List.filter_cons_of_pos (decide_eq_true hdue)
  simp only [pending, hpc, hfilter, List.map_cons, ← Multiset.cons_coe, Multiset.add_cons]

/-- **Nothing is dropped on purpose.**  A valid request for which there is room is accepted. -/
theorem handle_accepts (hdrops : o.noPacketDrops = true) (hchaos : o.chaosMode = false) {t now : ℤ}
    {msgId : UInt16} {d : Draws} (hid : msgId.toNat < msgs.length)
    (hroom : s.delays.length < NUM_CHUNKS) :
    (s.handle o msgs t msgId d now).delays = s.delays ++ [(t + delay o d, msgId)] := by
  simp [handle, hdrops, hchaos, not_le.mpr hid, not_le.mpr hroom]

/-- One step of a server that drops nothing: what it writes, and what is left. -/
structure Conserves (order : ByteOrder) (s : Server) (requests : List Byte)
    (r : Server × List Byte × List Byte) : Prop where
  single : ∀ t data rest, r.1.pc ≠ .duplicating t data rest
  left : Messages 2 r.2.1
  written : Messages (CHUNK_SIZE + 2) r.2.2
  ids : r.1.pending + idsOn order 2 r.2.1 + idsOn order (CHUNK_SIZE + 2) r.2.2 =
    s.pending + idsOn order 2 requests

/-- The server goes elsewhere, and owes what it owed. -/
theorem Conserves.goto {s' : Server} (hrequests : Messages 2 requests)
    (hsingle : ∀ t data rest, s'.pc ≠ .duplicating t data rest) (h : s'.pending = s.pending) :
    s.Conserves order requests (s', requests, []) :=
  ⟨hsingle, hrequests, .nil, by rw [idsOn_nil, add_zero, h]⟩

theorem Conserves.step (hdrops : o.noPacketDrops = true) (hchaos : o.chaosMode = false)
    (hsingle : ∀ t data rest, s.pc ≠ .duplicating t data rest) (hrequests : Messages 2 requests)
    (hvalid : ∀ id ∈ s.pending + idsOn order 2 requests, id.toNat < msgs.length)
    (hroom : (s.pending + idsOn order 2 requests).card ≤ NUM_CHUNKS) (env : ServerEnv)
    (hopen : (s.step order o msgs requests env).1.pc ≠ .closed) :
    s.Conserves order requests (s.step order o msgs requests env) := by
  unfold Server.step at hopen ⊢
  cases hpc : s.pc with
  | loop =>
      simp only [hpc] at hopen ⊢
      split_ifs at hopen ⊢
      · exact absurd rfl hopen
      · refine .goto hrequests nofun ?_
        simp only [pending, hpc]
        exact ids_filter _ _
  | sending t rest =>
      cases rest with
      | nil =>
          refine .goto hrequests nofun ?_
          simp [pending, hpc]
      | cons d rest =>
          simp only [hpc] at hopen ⊢
          by_cases hdue : d.1 < t
          · have hmem : d.2 ∈ s.pending := pending_due hpc hdue ▸ Multiset.mem_cons_self _ _
            have hid := hvalid _ (Multiset.mem_add.mpr (.inl hmem))
            obtain ⟨chunk, hchunk⟩ : ∃ chunk, msgs[d.2.toNat]? = some chunk :=
              ⟨_, List.getElem?_eq_getElem hid⟩
            rw [if_pos hdue, hchunk] at hopen ⊢
            cases hwritten : env.written with
            | some k => simp [hwritten] at hopen
            | none =>
                simp only [hchaos, Bool.false_and, Bool.false_eq_true, if_false]
                refine ⟨nofun, hrequests, ?_, ?_⟩
                · exact Framed.nil.snoc (Frame.build order d.2 chunk).length_eq
                · rw [idsOn_build, pending_due hpc hdue, Multiset.cons_add,
                    ← Multiset.singleton_add, add_comm]
          · rw [if_neg hdue]
            refine .goto hrequests nofun ?_
            simp [pending, hpc, hdue]
  | duplicating t data rest => exact absurd hpc (hsingle t data rest)
  | receiving t =>
      simp only [hpc] at hopen ⊢
      split_ifs at hopen ⊢ with hidle herror
      · refine .goto hrequests nofun ?_
        simp only [pending, hpc]
      · exact absurd rfl hopen
      · split
        · rename_i x y requests
          obtain ⟨-, hrest⟩ := Framed.split (f := [x, y]) (fun _ => id) Nat.two_pos hrequests rfl
          have hids : idsOn order 2 (x :: y :: requests) =
              order.load [x, y] ::ₘ idsOn order 2 requests :=
            idsOn_cons order Nat.two_pos (f := [x, y]) rfl requests
          rw [hids] at hvalid hroom
          have hid := hvalid _ (Multiset.mem_add.mpr (.inr (Multiset.mem_cons_self _ _)))
          have hpending : s.pending.card = s.delays.length := by simp [pending, hpc]
          have hfree : s.delays.length < NUM_CHUNKS := by
            rw [Multiset.card_add, Multiset.card_cons] at hroom
            omega
          refine ⟨nofun, hrest, .nil, ?_⟩
          rw [hids, idsOn_nil, add_zero]
          simp only [pending, hpc, handle_accepts hdrops hchaos hid hfree, List.map_append,
            ← Multiset.coe_add, List.map_cons, List.map_nil, Multiset.coe_singleton]
          rw [add_assoc, Multiset.singleton_add]
        · refine .goto hrequests ?_ rfl
          simp [hpc]
  | closed => exact absurd hpc (by simp [hpc] at hopen)

end Server

/-! ### The reader and the client -/

/-- **One step of the reader.**  With room in the buffer no frame is discarded. -/
theorem Reader.conserves (order : ByteOrder) {r : Reader} {b : Sender} {responses : List Byte}
    (h : Messages (CHUNK_SIZE + 2) (r.taken ++ responses)) (hroom : b.numMsgs ≤ NUM_CHUNKS)
    (hfree : ∀ buf, r = .storing buf → b.numMsgs < NUM_CHUNKS) (env : ReaderEnv)
    (hopen : (r.step order b responses env).1 ≠ .exited) :
    let r' := r.step order b responses env
    Messages (CHUNK_SIZE + 2) (r'.1.taken ++ r'.2.2) ∧ r'.2.1.numMsgs ≤ NUM_CHUNKS ∧
      idsOn order (CHUNK_SIZE + 2) (r'.1.taken ++ r'.2.2) + r'.1.stored order + r'.2.1.ids =
        idsOn order (CHUNK_SIZE + 2) (r.taken ++ responses) + r.stored order + b.ids := by
  intro r'
  cases r with
  | polling =>
      simp only [r', Reader.step] at hopen ⊢
      split_ifs at hopen ⊢
      · exact ⟨h, hroom, rfl⟩
      · exact absurd rfl hopen
      · exact ⟨h, hroom, rfl⟩
  | reading buf =>
      simp only [r', Reader.step] at hopen ⊢
      split_ifs at hopen ⊢ with herror hfull
      · exact absurd rfl hopen
      · -- the frame is complete
        generalize min env.bytes (CHUNK_SIZE + 2 - buf.length) = k at hfull ⊢
        have hsplit : taken (.reading buf) ++ responses =
            (buf ++ responses.take k) ++ responses.drop k := by
          rw [List.append_assoc, List.take_append_drop]
          rfl
        rw [hsplit] at h ⊢
        refine ⟨(Framed.split (fun _ => id) (Nat.succ_pos _) h hfull).2, hroom, ?_⟩
        rw [idsOn_cons order (Nat.succ_pos _) hfull]
        show idsOn order _ (responses.drop k) + {order.load (buf ++ responses.take k)} + b.ids =
          order.load (buf ++ responses.take k) ::ₘ idsOn order _ (responses.drop k) + 0 + b.ids
        rw [add_zero, ← Multiset.singleton_add, add_comm {_}]
      · generalize min env.bytes (CHUNK_SIZE + 2 - buf.length) = k
        have hsplit : taken (.reading (buf ++ responses.take k)) ++ responses.drop k =
            taken (.reading buf) ++ responses := by
          rw [taken, List.append_assoc, List.take_append_drop]
          rfl
        rw [hsplit]
        exact ⟨h, hroom, rfl⟩
  | storing buf =>
      refine ⟨h, Sender.numMsgs_store hroom, ?_⟩
      have hids : (b.store order buf).ids = {order.load buf.bytes} + b.ids := by
        rw [Sender.ids, Sender.held_store hroom, if_pos (hfree buf rfl), List.map_append,
          ← Multiset.coe_add, add_comm]
        rfl
      show idsOn order _ responses + 0 + (b.store order buf).ids =
        idsOn order _ responses + {order.load buf.bytes} + b.ids
      rw [hids, add_zero, add_assoc]
  | exited => exact absurd rfl hopen

namespace Client

variable {c : Client} {b : Sender}

theorem got_request (now : ℤ) (msgId : UInt16) (hid : msgId.toNat < NUM_MSGS) :
    (c.request now msgId hid).1.got = c.got := by
  unfold request
  split_ifs <;> rfl

/-- **One step of `main`.**  It takes messages out of the buffer to receive them. -/
theorem conserves (hroom : b.numMsgs ≤ NUM_CHUNKS) (hvalid : ∀ id ∈ b.ids, id.toNat < NUM_MSGS)
    (hnew : (b.ids + c.got).Nodup) (now : ℤ) :
    (c.step b now).2.1.ids + (c.step b now).1.got = b.ids + c.got := by
  have hdoes := c.step_does b now
  generalize c.step b now = r at hdoes ⊢
  cases hdoes with
  | @request reading w msgId hpc hlt hid =>
      have hgot := c.got_request reading msgId hid
      exact congrArg (b.ids + ·) hgot
  | @take _ msg b' hpc hget =>
      have hids : b.ids = msg.msgId ::ₘ b'.ids := by
        rw [Sender.ids, (Sender.held_getMsg hroom hget).1]
        rfl
      rw [hids] at hvalid hnew ⊢
      have hid := hvalid _ (Multiset.mem_cons_self _ _)
      rw [Multiset.cons_add, Multiset.nodup_cons, Multiset.mem_add, not_or] at hnew
      have hgot := got_receive hid hnew.1.2
      have hadd := congrArg (b'.ids + ·) hgot
      exact hadd.trans (by rw [Multiset.add_cons, Multiset.cons_add])
  | _ => rfl

end Client

/-! ### The system -/

namespace System

variable {s : System} {clock now : ℤ} {asked : List (UInt16 × ℤ)}

/-- What was asked for is in transit, once, or received. -/
structure Flowing (order : ByteOrder) (s : System) (clock : ℤ) (asked : List (UInt16 × ℤ)) :
    Prop where
  kept : Exchange.Kept ⟨s.client, s.sender, clock, asked⟩
  waits : s.client.Waits
  valid : ∀ p ∈ asked, p.1.toNat < NUM_MSGS
  single : ∀ t data rest, s.server.pc ≠ .duplicating t data rest
  requests : Messages 2 s.requests
  responses : Messages (CHUNK_SIZE + 2) (s.reader.taken ++ s.responses)
  conserved : s.inTransit order + s.client.got = (asked.map Prod.fst : List UInt16)

theorem flowing_start (order : ByteOrder) (data : Vector Msg NUM_CHUNKS) (now t₀ : ℤ) :
    (start data now).Flowing order t₀ [] where
  kept := Exchange.kept_start data t₀
  waits _ h := by simp [start, Client.start]
  valid := nofun
  single := nofun
  requests := .nil
  responses := .nil
  conserved := by
    have hgot : Client.start.got = 0 := by
      refine Multiset.eq_zero_of_forall_notMem fun id hid => ?_
      have hreceived := Client.mem_got.mp hid
      simp [Client.start, Vector.getElem?_replicate] at hreceived
    simp [inTransit, start, hgot, Server.start, Server.pending, Reader.taken, Reader.stored,
      Sender.ids, Sender.held_start]

/-! What follows while no request is repeated. -/

section
variable (h : s.Flowing order clock asked) (honce : (asked.map Prod.fst).Nodup)
include h

theorem Flowing.mem_asked {id : UInt16} (hid : id ∈ s.inTransit order) :
    id ∈ asked.map Prod.fst := by
  have := h.conserved ▸ Multiset.mem_add.mpr (.inl hid)
  exact Multiset.mem_coe.mp this

theorem Flowing.valid_inTransit {id : UInt16} (hid : id ∈ s.inTransit order) :
    id.toNat < NUM_MSGS := by
  obtain ⟨p, hp, rfl⟩ := List.mem_map.mp (h.mem_asked hid)
  exact h.valid p hp

include honce

theorem Flowing.nodup : (s.inTransit order + s.client.got).Nodup := by
  rw [h.conserved]
  exact Multiset.coe_nodup.mpr honce

/-- What is in transit is in the window. -/
theorem Flowing.inWindow {id : UInt16} (hid : id ∈ s.inTransit order) :
    s.client.nextExpected.toNat ≤ id.toNat ∧
      id.toNat < s.client.nextExpected.toNat + WINDOW_SIZE.toNat := by
  have hasked := h.mem_asked hid
  obtain ⟨p, hp, rfl⟩ := List.mem_map.mp hasked
  refine ⟨not_lt.mp fun hlt => ?_, h.kept.client.ahead p hp⟩
  -- what is below the window is received
  have hgot := Client.mem_got.mpr (h.kept.client.below _ hlt)
  exact Multiset.disjoint_left.mp (Multiset.nodup_add.mp (h.nodup honce)).2.2 hid hgot

/-- **No more than a window is in transit.** -/
theorem Flowing.card_le : (s.inTransit order).card ≤ WINDOW_SIZE.toNat := by
  let next := s.client.nextExpected.toNat
  have hnodup := (Multiset.nodup_add.mp (h.nodup honce)).1
  have hsub : ∀ id ∈ (⟨s.inTransit order, hnodup⟩ : Finset UInt16),
      id.toNat ∈ Finset.Ico next (next + WINDOW_SIZE.toNat) :=
    fun id hid => Finset.mem_Ico.mpr (h.inWindow honce hid)
  calc _ ≤ (Finset.Ico next (next + WINDOW_SIZE.toNat)).card :=
        Finset.card_le_card_of_injOn UInt16.toNat hsub fun a _ b _ heq => UInt16.toNat_inj.mp heq
    _ = WINDOW_SIZE.toNat := by rw [Nat.card_Ico, Nat.add_sub_cancel_left]

end

theorem ids_le (order : ByteOrder) (s : System) : s.sender.ids ≤ s.inTransit order :=
  (le_add_left le_rfl).trans (le_add_left le_rfl)

/-- A connection in use was in use. -/
theorem Open.of_step {a : Action} (h : (s.step order o msgs a).Open) : s.Open := by
  cases a with
  | client now => exact h
  | reader env =>
      refine ⟨h.1, fun hexited => h.2 ?_⟩
      simp only [System.step, hexited, Reader.step]
  | server env =>
      refine ⟨fun hclosed => h.1 ?_, h.2⟩
      simp only [System.step, Server.step, hclosed]

theorem Flowing.main (h : s.Flowing order clock asked) (o : Options) (msgs : List Chunk)
    (honce : (asked.map Prod.fst).Nodup) (hnow : clock ≤ now) :
    ∃ asked', (s.step order o msgs (.client now)).Flowing order now asked' ∧
      asked'.map Prod.fst = asked.map Prod.fst ++ s.sends (.client now) := by
  let x : Exchange := ⟨s.client, s.sender, clock, asked⟩
  let r := s.client.step s.sender now
  let asked' := (x.step order (.main (now - clock).toNat)).asked
  have hclock : clock + (now - clock).toNat = now := by omega
  have hstep : x.step order (.main (now - clock).toNat) = ⟨r.1, r.2.1, now, asked'⟩ := by
    simp only [Exchange.step, x, r, asked', hclock]
  have hkept : Exchange.Kept ⟨r.1, r.2.1, now, asked'⟩ := hstep ▸ h.kept.main (now - clock).toNat
  have hasked : asked'.map Prod.fst = asked.map Prod.fst ++ r.2.2.toList := by
    have := x.asked_main order (now - clock).toNat
    rwa [show x.clock + (now - clock).toNat = now from hclock] at this
  have hids : r.2.1.ids + r.1.got = s.sender.ids + s.client.got :=
    Client.conserves h.kept.room
      (fun id hid => h.valid_inTransit (Multiset.mem_of_le (ids_le order s) hid))
      (Multiset.nodup_of_le (add_le_add_left (ids_le order s) _) (h.nodup honce)) now
  have hrequests : idsOn order 2 (s.requests ++ r.2.2.elim [] order.store) =
      idsOn order 2 s.requests + (r.2.2.toList : List UInt16) := by
    rw [idsOn_append Nat.two_pos h.requests]
    cases r.2.2 with
    | none => simp
    | some id => simp [idsOn_store]
  refine ⟨asked', ⟨hkept, h.waits.step s.sender now, fun p hp => ?_, h.single, ?_, h.responses, ?_⟩,
    hasked⟩
  · have hmem : p.1 ∈ asked.map Prod.fst ++ r.2.2.toList := hasked ▸ List.mem_map_of_mem hp
    rcases List.mem_append.mp hmem with hold | hnew
    · obtain ⟨q, hq, heq⟩ := List.mem_map.mp hold
      exact heq ▸ h.valid q hq
    · have hsent : (x.client.step x.sender now).2.2 = some p.1 := Option.mem_toList.mp hnew
      exact (h.kept.sends hsent).1.2.trans_le (min_le_right _ _)
  · show Messages 2 (s.requests ++ r.2.2.elim [] order.store)
    cases r.2.2 with
    | none => exact (List.append_nil s.requests).symm ▸ h.requests
    | some id => exact h.requests.snoc (order.length_store id)
  · have hold := h.conserved
    rw [hasked, ← Multiset.coe_add, ← hold]
    show idsOn order 2 (s.requests ++ r.2.2.elim [] order.store) + s.server.pending +
      (idsOn order (CHUNK_SIZE + 2) (s.reader.taken ++ s.responses) + s.reader.stored order +
        r.2.1.ids) + r.1.got = _
    rw [hrequests, add_assoc _ _ r.1.got, add_assoc _ r.2.1.ids, hids, inTransit]
    abel

/-- **A frame that arrives finds room.** -/
theorem Flowing.room_frame (h : s.Flowing order clock asked) (honce : (asked.map Prod.fst).Nodup)
    {buf : Frame} (hr : s.reader = .storing buf) : s.sender.numMsgs < NUM_CHUNKS := by
  have hcard := h.card_le honce
  have hstored : (s.reader.stored order).card = 1 := by rw [hr]; rfl
  have hids : s.sender.ids.card = s.sender.numMsgs := by
    rw [Sender.ids, Multiset.coe_card, List.length_map, Sender.length_held h.kept.room]
  have hsize : WINDOW_SIZE.toNat = NUM_CHUNKS := rfl
  simp only [inTransit, Multiset.card_add, hids, hstored] at hcard
  omega

/-- **A request that arrives finds room.** -/
theorem Flowing.room_request (h : s.Flowing order clock asked)
    (honce : (asked.map Prod.fst).Nodup) :
    (s.server.pending + idsOn order 2 s.requests).card ≤ NUM_CHUNKS := by
  have hcard := h.card_le honce
  have hsize : WINDOW_SIZE.toNat = NUM_CHUNKS := rfl
  simp only [inTransit, Multiset.card_add] at hcard ⊢
  omega

theorem Flowing.readerStep (h : s.Flowing order clock asked)
    (honce : (asked.map Prod.fst).Nodup) {env : ReaderEnv}
    (hopen : (s.step order o msgs (.reader env)).Open) :
    (s.step order o msgs (.reader env)).Flowing order clock asked := by
  let r := s.reader.step order s.sender s.responses env
  obtain ⟨hresponses, hroom, hids⟩ : Messages (CHUNK_SIZE + 2) (r.1.taken ++ r.2.2) ∧
      r.2.1.numMsgs ≤ NUM_CHUNKS ∧ _ :=
    Reader.conserves order h.responses h.kept.room
      (fun buf hr => h.room_frame honce hr) env hopen.2
  have hconserved : (s.step order o msgs (.reader env)).inTransit order + s.client.got =
      (asked.map Prod.fst : List UInt16) := by
    rw [← h.conserved]
    exact congrArg (fun M => idsOn order 2 s.requests + s.server.pending + M + s.client.got) hids
  refine ⟨⟨h.kept.client, h.kept.pass, hroom, fun m hm => ?_⟩, h.waits, h.valid, h.single,
    h.requests, hresponses, hconserved⟩
  have hid : m.msgId ∈ (s.step order o msgs (.reader env)).inTransit order :=
    Multiset.mem_of_le (ids_le order _) (Multiset.mem_coe.mpr (List.mem_map_of_mem hm))
  exact Multiset.mem_coe.mp (hconserved ▸ Multiset.mem_add.mpr (.inl hid))

theorem Flowing.serverStep (hdrops : o.noPacketDrops = true) (hchaos : o.chaosMode = false)
    (hlen : NUM_MSGS ≤ msgs.length) (h : s.Flowing order clock asked)
    (honce : (asked.map Prod.fst).Nodup) {env : ServerEnv}
    (hopen : (s.step order o msgs (.server env)).Open) :
    (s.step order o msgs (.server env)).Flowing order clock asked := by
  have hvalid : ∀ id ∈ s.server.pending + idsOn order 2 s.requests, id.toNat < msgs.length := by
    intro id hid
    refine (h.valid_inTransit (Multiset.mem_add.mpr (.inl ?_))).trans_le hlen
    rwa [add_comm]
  have hserver := Server.Conserves.step hdrops hchaos h.single h.requests hvalid
    (h.room_request honce) env hopen.1
  let r := s.server.step order o msgs s.requests env
  have hstream : idsOn order (CHUNK_SIZE + 2) (s.reader.taken ++ (s.responses ++ r.2.2)) =
      idsOn order (CHUNK_SIZE + 2) (s.reader.taken ++ s.responses) +
        idsOn order (CHUNK_SIZE + 2) r.2.2 := by
    rw [← List.append_assoc, idsOn_append (Nat.succ_pos _) h.responses]
  refine ⟨h.kept, h.waits, h.valid, hserver.single, hserver.left, ?_, ?_⟩
  · show Messages (CHUNK_SIZE + 2) (s.reader.taken ++ (s.responses ++ r.2.2))
    rw [← List.append_assoc]
    exact h.responses.append hserver.written
  · have hids := hserver.ids
    rw [← h.conserved]
    show idsOn order 2 r.2.1 + r.1.pending +
      (idsOn order (CHUNK_SIZE + 2) (s.reader.taken ++ (s.responses ++ r.2.2)) +
        s.reader.stored order + s.sender.ids) + s.client.got = _
    rw [hstream, inTransit, add_comm (idsOn order 2 s.requests), ← hids]
    abel

/-- The next request is accepted. -/
theorem Flowing.accepts (hchaos : o.chaosMode = false) (hdrops : o.noPacketDrops = true)
    (hlen : NUM_MSGS ≤ msgs.length) (h : s.Flowing order clock asked)
    (honce : (asked.map Prod.fst).Nodup) {t : ℤ} {x y : Byte} {rest : List Byte} {draws : Draws}
    (hpc : s.server.pc = .receiving t) (hrequests : s.requests = x :: y :: rest) :
    (s.server.handle o msgs t (order.load [x, y]) draws now).delays =
      s.server.delays ++ [(t + Server.delay o draws, order.load [x, y])] := by
  have hroom := h.room_request honce
  have hids : idsOn order 2 s.requests = order.load [x, y] ::ₘ idsOn order 2 rest :=
    hrequests ▸ idsOn_cons order Nat.two_pos (f := [x, y]) rfl rest
  have hmem : order.load [x, y] ∈ s.inTransit order := by
    rw [inTransit, hids, Multiset.mem_add, Multiset.mem_add]
    exact .inl (.inl (Multiset.mem_cons_self _ _))
  have hpending : s.server.pending.card = s.server.delays.length := by
    simp [Server.pending, hpc]
  rw [hids, Multiset.card_add, Multiset.card_cons] at hroom
  exact Server.handle_accepts hdrops hchaos ((h.valid_inTransit hmem).trans_le hlen) (by omega)

/-- With nothing in transit the next message has not been requested. -/
theorem Flowing.first_request (h : s.Flowing order clock asked) (hpc : s.client.pc = .loop)
    (hmore : s.client.nextExpected.toNat < NUM_MSGS) (hempty : s.inTransit order = 0) :
    s.client.requested[s.client.nextExpected.toNat]? = some false := by
  have hreceived := h.waits hpc hmore
  have hmissing : s.client.nextExpected ∉ asked.map Prod.fst := by
    intro hasked
    have hgot := h.conserved ▸ Multiset.mem_coe.mpr hasked
    rw [hempty, zero_add, Client.mem_got, Vector.getElem?_eq_getElem hmore, hreceived] at hgot
    cases hgot
  have hlast := h.kept.client.last s.client.nextExpected
  rw [lastTime_eq_none.mpr hmissing, Client.lastAsked_of_lt _ hmore] at hlast
  rw [Vector.getElem?_eq_getElem hmore]
  split_ifs at hlast with hrequested
  exact congrArg some (eq_false_of_ne_true hrequested)

theorem Open.of_run {as : List Action} (h : (s.run order o msgs as).Open) : s.Open := by
  induction as generalizing s with
  | nil => exact h
  | cons a as ih => exact (ih h).of_step

/-- **A run.**  The invariant holds as long as no request is repeated. -/
theorem Flowing.run (hdrops : o.noPacketDrops = true) (hchaos : o.chaosMode = false)
    (hlen : NUM_MSGS ≤ msgs.length) (h : s.Flowing order clock asked) (as : List Action)
    (hclock : (clock :: as.filterMap Action.reading).Pairwise (· ≤ ·))
    (honce : (asked.map Prod.fst ++ s.sent order o msgs as).Nodup)
    (hopen : (s.run order o msgs as).Open) :
    ∃ clock' asked', (s.run order o msgs as).Flowing order clock' asked' ∧
      asked'.map Prod.fst = asked.map Prod.fst ++ s.sent order o msgs as := by
  induction as generalizing s clock asked with
  | nil => exact ⟨clock, asked, h, (List.append_nil _).symm⟩
  | cons a as ih =>
      have hnodup := (List.nodup_append.mp honce).1
      have hnext : (s.step order o msgs a).Open := Open.of_run hopen
      rw [sent, ← List.append_assoc] at honce ⊢
      cases a with
      | client now =>
          obtain ⟨hle, hrest⟩ := List.pairwise_cons.mp hclock
          obtain ⟨asked', hstep, hasked⟩ := h.main o msgs hnodup
            (hle now List.mem_cons_self)
          rw [← hasked] at honce ⊢
          exact ih hstep hrest honce hopen
      | reader env =>
          rw [sends, List.append_nil] at honce ⊢
          exact ih (h.readerStep hnodup hnext) hclock honce hopen
      | server env =>
          rw [sends, List.append_nil] at honce ⊢
          exact ih (h.serverStep hdrops hchaos hlen hnodup hnext) hclock honce hopen

/-- **Nothing is lost before a request is repeated.**  Without deliberate drops and `--chaos`, in
every state of a run whose requests are distinct and whose connection is in use: every id requested
is in transit, in one place, or received; at most a window of them is in transit; the server
accepts the next request, and the buffer has room for the next frame; if nothing is in transit the
next pass of the client makes a first request, and needs no timeout; and when all is written nothing
is in transit. -/
theorem run_lossless (order : ByteOrder) (o : Options) (msgs : List Chunk)
    (data : Vector Msg NUM_CHUNKS) (now t₀ : ℤ) (as : List Action)
    (hdrops : o.noPacketDrops = true) (hchaos : o.chaosMode = false)
    (hlen : NUM_MSGS ≤ msgs.length)
    (hclock : (t₀ :: as.filterMap Action.reading).Pairwise (· ≤ ·))
    (honce : ((start data now).sent order o msgs as).Nodup)
    (hopen : ((start data now).run order o msgs as).Open) :
    let s := (start data now).run order o msgs as
    s.inTransit order + s.client.got = ((start data now).sent order o msgs as : Multiset UInt16) ∧
      (s.inTransit order).card ≤ WINDOW_SIZE.toNat ∧
      (∀ t x y rest draws clock, s.server.pc = .receiving t → s.requests = x :: y :: rest →
        (s.server.handle o msgs t (order.load [x, y]) draws clock).delays =
          s.server.delays ++ [(t + Server.delay o draws, order.load [x, y])]) ∧
      (∀ buf, s.reader = .storing buf →
        (s.sender.store order buf).held = s.sender.held ++ [buf.toMsg order]) ∧
      (s.client.pc = .loop → s.client.totalWritten < NUM_MSGS → s.inTransit order = 0 →
        s.client.requested[s.client.nextExpected.toNat]? = some false) ∧
      (s.client.totalWritten = NUM_MSGS → s.inTransit order = 0) := by
  intro s
  obtain ⟨clock, asked, h, hasked⟩ : ∃ clock asked, s.Flowing order clock asked ∧
      asked.map Prod.fst = (start data now).sent order o msgs as :=
    (flowing_start order data now t₀).run hdrops hchaos hlen as hclock honce hopen
  rw [← hasked] at honce
  refine ⟨hasked ▸ h.conserved, h.card_le honce, fun t x y rest draws clock hpc hrequests => ?_,
    fun buf hr => ?_, fun hpc hmore hempty => ?_, fun hdone => ?_⟩
  · exact h.accepts hchaos hdrops hlen honce hpc hrequests
  · rw [Sender.held_store h.kept.room, if_pos (h.room_frame honce hr)]
  · exact h.first_request hpc (h.kept.client.written ▸ hmore) hempty
  · refine Multiset.eq_zero_of_forall_notMem fun id hid => ?_
    have hlo := (h.inWindow honce hid).1
    have hhi := h.valid_inTransit hid
    rw [h.kept.client.written, hdone] at hlo
    exact absurd hhi (not_lt.mpr hlo)

/-- One message on its way to the buffer: requested, accepted, answered, read and stored. -/
def oneMessage : List Action :=
  List.replicate 2 (.client 0) ++ List.replicate 3 (.server { now := 0 }) ++
    List.replicate 4 (.server { now := 1 }) ++ List.replicate 3 (.reader { bytes := 130 })

/-- A chunk of spaces. -/
def blank : Chunk := ⟨.replicate CHUNK_SIZE 32, rfl⟩

/-- No drops and no delays. -/
def careful : Options := { noPacketDrops := true, noDelay := true }

theorem run_lossless_oneMessage :
    let msgs := List.replicate NUM_MSGS blank
    let s := (start (.replicate NUM_CHUNKS ⟨0, blank⟩) 0).run .littleEndian careful msgs oneMessage
    s.inTransit .littleEndian + s.client.got = {0} ∧ s.sender.numMsgs = 1 := by
  intro msgs s
  have hsent : (start (.replicate NUM_CHUNKS ⟨0, blank⟩) 0).sent .littleEndian careful msgs
      oneMessage = [0] := by decide +kernel
  refine ⟨?_, by decide +kernel⟩
  have h := run_lossless .littleEndian careful msgs (.replicate NUM_CHUNKS ⟨0, blank⟩) 0 0
    oneMessage
    rfl rfl List.length_replicate.ge (by decide) (hsent ▸ by decide) (by decide +kernel)
  rw [hsent] at h
  exact h.1

end System

end PacketSim.Reliable
