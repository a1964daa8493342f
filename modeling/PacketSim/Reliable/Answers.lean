import Mathlib
import PacketSim.Lib.Deadlines
import PacketSim.Lib.Simulation
import PacketSim.Reliable.Definitions

/-!
# Reliable — Answers

One connection of the server, with any bytes for requests, and the iterations of its loop: what each
sent, and what it added to `delays`.

* `unanswered` — the entries whose due time no iteration has come after.
* `Connection.Kept` — the invariant: between iterations `delays` is what is unanswered, and every
  iteration has answered exactly the entries it is the first to come after.
* `Connection.answers_once` — on every connection.
* `System.Serves.run` — the server of the transfer is on such a connection.
-/

namespace PacketSim.Reliable

open Lib

/-! ### Iterations -/

/-- An entry of `delays` and the frames written for it. -/
structure Reply where
  entry : ℤ × UInt16
  frames : List (List Byte)
  deriving DecidableEq

/-- The frames are the entry's id and its chunk, once, or with `chaos_mode` twice. -/
def Reply.Right (order : ByteOrder) (o : Options) (msgs : List Chunk) (r : Reply) : Prop :=
  ∃ chunk, msgs[r.entry.2.toNat]? = some chunk ∧
    (r.frames = [(Frame.build order r.entry.2 chunk).bytes] ∨
      o.chaosMode = true ∧ r.frames = [(Frame.build order r.entry.2 chunk).bytes,
        (Frame.build order r.entry.2 chunk).bytes])

/-- One pass through the loop of `handle_request`. -/
structure Iteration where
  currTime : ℤ
  replies : List Reply
  accepted : Option (ℤ × UInt16)
  deriving DecidableEq

namespace Iteration

/-- The pending replies that the iteration has answered. -/
def answered (it : Iteration) : List (ℤ × UInt16) := it.replies.map Reply.entry

/-- The iteration with one more reply, of one frame so far. -/
def answer (it : Iteration) (delay : ℤ × UInt16) (frame : List Byte) : Iteration :=
  { it with replies := it.replies ++ [⟨delay, [frame]⟩] }

/-- The last frame is written once more. -/
def again (it : Iteration) (frame : List Byte) : Iteration :=
  { it with replies := it.replies.modifyLast fun r => { r with frames := r.frames ++ [frame] } }

theorem replies_again (it : Iteration) (delay : ℤ × UInt16) (frame frame' : List Byte) :
    ((it.answer delay frame).again frame').replies = it.replies ++ [⟨delay, [frame, frame']⟩] :=
  List.modifyLast_concat ..

theorem answered_answer (it : Iteration) (delay : ℤ × UInt16) (frame : List Byte) :
    (it.answer delay frame).answered = it.answered ++ [delay] := by
  simp [answered, answer]

theorem answered_again (it : Iteration) (delay : ℤ × UInt16) (frame frame' : List Byte) :
    ((it.answer delay frame).again frame').answered = (it.answer delay frame).answered := by
  rw [answered, replies_again, answered_answer]
  simp [answered]

end Iteration

/-- The entries accepted in the iterations whose due time no later iteration has come after. -/
def unanswered (its : List Iteration) : List (ℤ × UInt16) :=
  unpassed Iteration.currTime Prod.fst Iteration.accepted its

/-! ### The connection -/

/-- `past` and `current` are the history: the iterations that are over, oldest first, and the one
the server is in. -/
structure Connection where
  server : Server
  requests : List Byte
  past : List Iteration
  current : Option Iteration

/-- Bytes arrive, or the server takes a step. -/
inductive Move where
  | bytes (l : List Byte)
  | server (env : ServerEnv)

namespace Connection

/-- A connection that was just accepted. -/
def start (now : ℤ) : Connection where
  server := .start now
  requests := []
  past := []
  current := none

/-- The client's bytes wait for the server; a step of the server is recorded with what it answers.
-/
def step (order : ByteOrder) (o : Options) (msgs : List Chunk) (c : Connection) : Move → Connection
  | .bytes l => { c with requests := c.requests ++ l }
  | .server env =>
      let r := c.server.step order o msgs c.requests env
      let c' := { c with server := r.1, requests := r.2.1 }
      match c.server.pc, r.1.pc with
      | .loop, .sending currTime _ => { c' with current := some ⟨currTime, [], none⟩ }
      -- a write that fails closes the connection, and is no reply
      | .sending _ _, .closed => c'
      | .sending _ (delay :: _), _ =>
          if r.2.2 = [] then c' else { c' with current := c.current.map (·.answer delay r.2.2) }
      | .duplicating _ _ _, .sending _ _ => { c' with current := c.current.map (·.again r.2.2) }
      | .receiving _, .loop =>
          let accepted := (r.1.delays.drop c.server.delays.length).head?
          { c' with
            past := c.past ++ (c.current.map fun it => { it with accepted := accepted }).toList
            current := none }
      | _, _ => c'

/-- The moves one after the other. -/
def run (order : ByteOrder) (o : Options) (msgs : List Chunk) (c : Connection) (moves : List Move) :
    Connection :=
  moves.foldl (step order o msgs) c

/-- The history does not change what the server does. -/
theorem server_step (order : ByteOrder) (o : Options) (msgs : List Chunk) (c : Connection)
    (env : ServerEnv) :
    (c.step order o msgs (.server env)).server =
        (c.server.step order o msgs c.requests env).1 ∧
      (c.step order o msgs (.server env)).requests =
        (c.server.step order o msgs c.requests env).2.1 := by
  simp only [step]
  split
  · exact ⟨rfl, rfl⟩
  · exact ⟨rfl, rfl⟩
  · split <;> exact ⟨rfl, rfl⟩
  · exact ⟨rfl, rfl⟩
  · exact ⟨rfl, rfl⟩
  · exact ⟨rfl, rfl⟩

/-! ### The invariant -/

variable {order : ByteOrder} {o : Options} {msgs : List Chunk}

/-- The replies so far are to the first of the entries the iteration is to answer, and are right. -/
structure Answering (order : ByteOrder) (o : Options) (msgs : List Chunk) (past : List Iteration)
    (it : Iteration) (rest : List (ℤ × UInt16)) : Prop where
  due : it.answered ++ rest.filter (fun d => d.1 < it.currTime) =
    (unanswered past).filter fun d => d.1 < it.currTime
  right : ∀ r ∈ it.replies, r.Right order o msgs
  accepted : it.accepted = none

/-- Where the server is in its loop. -/
inductive At (order : ByteOrder) (o : Options) (msgs : List Chunk) (s : Server)
    (past : List Iteration) : Option Iteration → Prop where
  | loop (hpc : s.pc = .loop) (hdelays : s.delays = unanswered past) : At order o msgs s past none
  | sending {it : Iteration} {rest : List (ℤ × UInt16)} (hpc : s.pc = .sending it.currTime rest)
      (hdelays : s.delays = unanswered past) (hrest : rest ⊆ s.delays)
      (h : Answering order o msgs past it rest) : At order o msgs s past (some it)
  | duplicating {it : Iteration} {rest : List (ℤ × UInt16)} {delay : ℤ × UInt16} {chunk : Chunk}
      (hpc : s.pc = .duplicating it.currTime (Frame.build order delay.2 chunk) rest)
      (hdelays : s.delays = unanswered past) (hrest : rest ⊆ s.delays)
      (hchunk : msgs[delay.2.toNat]? = some chunk) (hchaos : o.chaosMode = true)
      (hright : ∀ r ∈ it.replies, r.Right order o msgs)
      (h : Answering order o msgs past (it.answer delay (Frame.build order delay.2 chunk).bytes)
        rest) :
      At order o msgs s past (some (it.answer delay (Frame.build order delay.2 chunk).bytes))
  | receiving {it : Iteration} (hpc : s.pc = .receiving it.currTime)
      (hdelays : s.delays = (unanswered past).filter fun d => !(d.1 < it.currTime))
      (h : Answering order o msgs past it []) : At order o msgs s past (some it)
  | closed {current : Option Iteration} (hpc : s.pc = .closed)
      (h : ∀ it, current = some it → ∃ rest, Answering order o msgs past it rest) :
      At order o msgs s past current

section At
variable {s : Server} {past : List Iteration} {current : Option Iteration}

theorem At.loop_inv (h : At order o msgs s past current) (hpc : s.pc = .loop) :
    s.delays = unanswered past := by
  cases h with
  | loop _ hdelays => exact hdelays
  | sending hpc' => cases hpc'.symm.trans hpc
  | duplicating hpc' => cases hpc'.symm.trans hpc
  | receiving hpc' => cases hpc'.symm.trans hpc
  | closed hpc' => cases hpc'.symm.trans hpc

/-- What the send loop has still to look at is in `delays`. -/
theorem At.sending_inv (h : At order o msgs s past current) {t : ℤ} {rest : List (ℤ × UInt16)}
    (hpc : s.pc = .sending t rest) : rest ⊆ s.delays := by
  cases h with
  | sending hpc' _ hrest =>
      obtain ⟨-, rfl⟩ := ServerPc.sending.inj (hpc'.symm.trans hpc)
      exact hrest
  | loop hpc' => cases hpc'.symm.trans hpc
  | duplicating hpc' => cases hpc'.symm.trans hpc
  | receiving hpc' => cases hpc'.symm.trans hpc
  | closed hpc' => cases hpc'.symm.trans hpc

/-- After the send loop and the erasure, the entries that were due are answered and gone. -/
theorem At.receiving_inv (h : At order o msgs s past current) {t : ℤ}
    (hpc : s.pc = .receiving t) : ∃ it, current = some it ∧ it.currTime = t ∧
      it.answered = (unanswered past).filter (fun d => d.1 < t) ∧
        s.delays = (unanswered past).filter fun d => !(d.1 < t) := by
  cases h with
  | @receiving it hpc' hdelays hit =>
      obtain rfl : it.currTime = t := ServerPc.receiving.inj (hpc'.symm.trans hpc)
      refine ⟨it, rfl, rfl, ?_, hdelays⟩
      rw [← hit.due, List.filter_nil, List.append_nil]
  | loop hpc' => cases hpc'.symm.trans hpc
  | sending hpc' => cases hpc'.symm.trans hpc
  | duplicating hpc' => cases hpc'.symm.trans hpc
  | closed hpc' => cases hpc'.symm.trans hpc

end At

/-- What is kept along a connection. -/
structure Kept (order : ByteOrder) (o : Options) (msgs : List Chunk) (c : Connection) : Prop where
  room : c.server.delays.length ≤ NUM_CHUNKS
  valid : ∀ d ∈ c.server.delays, d.2.toNat < msgs.length
  served : Served Iteration.currTime Prod.fst Iteration.accepted Iteration.answered c.past
  right : ∀ it ∈ c.past, ∀ r ∈ it.replies, r.Right order o msgs
  place : At order o msgs c.server c.past c.current

theorem kept_start (order : ByteOrder) (o : Options) (msgs : List Chunk) (now : ℤ) :
    (start now).Kept order o msgs where
  room := Nat.zero_le _
  valid := nofun
  served := served_nil
  right := nofun
  place := .loop rfl rfl

/-! ### One iteration -/

section Answering
variable {past : List Iteration} {it : Iteration} {d : ℤ × UInt16} {rest : List (ℤ × UInt16)}
  {chunk : Chunk}

theorem answering_start (t : ℤ) :
    Answering order o msgs past ⟨t, [], none⟩ (unanswered past) :=
  ⟨List.nil_append _, nofun, rfl⟩

/-- The timer of the next entry is still running. -/
theorem Answering.wait (h : Answering order o msgs past it (d :: rest)) (hd : ¬ d.1 < it.currTime) :
    Answering order o msgs past it rest where
  due := by
    rw [← h.due, List.filter_cons, if_neg (by simpa using hd)]
  right := h.right
  accepted := h.accepted

theorem Answering.reply (h : Answering order o msgs past it (d :: rest)) (hd : d.1 < it.currTime)
    (hchunk : msgs[d.2.toNat]? = some chunk) :
    Answering order o msgs past (it.answer d (Frame.build order d.2 chunk).bytes) rest where
  due := by
    rw [Iteration.answered_answer, List.append_assoc]
    refine Eq.trans ?_ h.due
    rw [List.filter_cons, if_pos (by simpa using hd)]
    rfl
  right r hr := by
    rcases List.mem_append.mp hr with hr | hr
    · exact h.right r hr
    · rw [List.mem_singleton.mp hr]
      exact ⟨chunk, hchunk, .inl rfl⟩
  accepted := h.accepted

/-- The last frame goes out twice. -/
theorem Answering.twice (hright : ∀ r ∈ it.replies, r.Right order o msgs)
    (h : Answering order o msgs past (it.answer d (Frame.build order d.2 chunk).bytes) rest)
    (hchunk : msgs[d.2.toNat]? = some chunk) (hchaos : o.chaosMode = true) :
    Answering order o msgs past ((it.answer d (Frame.build order d.2 chunk).bytes).again
      (Frame.build order d.2 chunk).bytes) rest where
  due := by
    rw [Iteration.answered_again]
    exact h.due
  right r hr := by
    rw [Iteration.replies_again] at hr
    rcases List.mem_append.mp hr with hr | hr
    · exact hright r hr
    · rw [List.mem_singleton.mp hr]
      exact ⟨chunk, hchunk, .inr ⟨hchaos, rfl⟩⟩
  accepted := h.accepted

end Answering

/-! ### One step -/

/-- What the server reads it drops or adds to `delays`; either way the iteration is over. -/
theorem Kept.accept {c : Connection} {it : Iteration} {s : Server} (h : c.Kept order o msgs)
    (hdelays : c.server.delays = (unanswered c.past).filter fun d => !(d.1 < it.currTime))
    (hit : Answering order o msgs c.past it []) (hpc : s.pc = .loop)
    (hs : s.delays = c.server.delays ∨ ∃ d, s.delays = c.server.delays ++ [d] ∧
      d.2.toNat < msgs.length ∧ c.server.delays.length < NUM_CHUNKS) (requests : List Byte) :
    Kept order o msgs
      { server := s
        requests := requests
        past := c.past ++
          [{ it with accepted := (s.delays.drop c.server.delays.length).head? }]
        current := none } := by
  have hadded : s.delays =
      c.server.delays ++ ((s.delays.drop c.server.delays.length).head?).toList := by
    rcases hs with hs | ⟨d, hs, -, -⟩ <;> simp [hs]
  generalize (s.delays.drop c.server.delays.length).head? = accepted at hadded
  have hanswered : it.answered = (unanswered c.past).filter fun d => d.1 < it.currTime := by
    rw [← hit.due, List.filter_nil, List.append_nil]
  refine ⟨?_, ?_, ?_, ?_, .loop hpc ?_⟩
  · rcases hs with hs | ⟨d, hs, -, hlt⟩
    · exact hs ▸ h.room
    · rw [hs, List.length_append]
      exact hlt
  · intro d hd
    rcases hs with hs | ⟨d', hs, hvalid, -⟩
    · exact h.valid d (hs ▸ hd)
    · rw [hs, List.mem_append, List.mem_singleton] at hd
      rcases hd with hd | rfl
      · exact h.valid d hd
      · exact hvalid
  · exact h.served.snoc (r := { it with accepted := accepted }) hanswered
  · intro it' hit' r hr
    rcases List.mem_append.mp hit' with hit' | hit'
    · exact h.right it' hit' r hr
    · rw [List.mem_singleton.mp hit'] at hr
      exact hit.right r hr
  · rw [hadded, hdelays]
    exact (unpassed_snoc Iteration.currTime Prod.fst Iteration.accepted c.past
      { it with accepted := accepted }).symm

/-- A step that leaves `delays` and the iterations that are over. -/
theorem Kept.stay {c c' : Connection} (h : c.Kept order o msgs)
    (hdelays : c'.server.delays = c.server.delays) (hpast : c'.past = c.past)
    (hplace : At order o msgs c'.server c'.past c'.current) : c'.Kept order o msgs where
  room := hdelays ▸ h.room
  valid := hdelays ▸ h.valid
  served := hpast ▸ h.served
  right := hpast ▸ h.right
  place := hplace

section Step
variable {s : Server} {requests : List Byte} {past : List Iteration} {it : Iteration}
  {rest : List (ℤ × UInt16)}

/-- The head of the loop reads the clock. -/
theorem Kept.begin (h : Kept order o msgs ⟨s, requests, past, none⟩) (hpc : s.pc = .loop)
    (hdelays : s.delays = unanswered past) (env : ServerEnv) :
    (step order o msgs ⟨s, requests, past, none⟩ (.server env)).Kept order o msgs := by
  by_cases hhb : s.hb < env.now
  · have hstep : s.step order o msgs requests env = ({ s with pc := .closed }, requests, []) := by
      simp only [Server.step, hpc, hhb, if_true]
    simp only [Connection.step, hstep, hpc]
    exact h.stay rfl rfl (.closed rfl nofun)
  · have hstep : s.step order o msgs requests env =
        ({ s with pc := .sending env.now s.delays }, requests, []) := by
      simp only [Server.step, hpc, hhb, if_false]
    simp only [Connection.step, hstep, hpc]
    have hnew : Answering order o msgs past ⟨env.now, [], none⟩ s.delays :=
      hdelays ▸ answering_start env.now
    exact h.stay rfl rfl (.sending rfl hdelays (List.Subset.refl _) hnew)

/-- `remove_if` drops the entries that were sent. -/
theorem Kept.erase (h : Kept order o msgs ⟨s, requests, past, some it⟩)
    (hpc : s.pc = .sending it.currTime []) (hdelays : s.delays = unanswered past)
    (hit : Answering order o msgs past it []) (env : ServerEnv) :
    (step order o msgs ⟨s, requests, past, some it⟩ (.server env)).Kept order o msgs := by
  have hstep : s.step order o msgs requests env =
      ({ s with
          delays := s.delays.filter fun delay => !(delay.1 < it.currTime)
          pc := .receiving it.currTime }, requests, []) := by
    simp only [Server.step, hpc]
  simp only [Connection.step, hstep, hpc]
  refine ⟨(List.length_filter_le _ _).trans h.room, ?_, h.served, h.right, .receiving rfl ?_ hit⟩
  · exact fun d hd => h.valid d (List.mem_of_mem_filter hd)
  · rw [← hdelays]

/-- The send loop looks at one entry. -/
theorem Kept.send {d : ℤ × UInt16} (h : Kept order o msgs ⟨s, requests, past, some it⟩)
    (hpc : s.pc = .sending it.currTime (d :: rest)) (hdelays : s.delays = unanswered past)
    (hrest : d :: rest ⊆ s.delays) (hit : Answering order o msgs past it (d :: rest))
    (env : ServerEnv) :
    (step order o msgs ⟨s, requests, past, some it⟩ (.server env)).Kept order o msgs := by
  have hrest' : rest ⊆ s.delays := List.subset_of_cons_subset hrest
  by_cases hd : d.1 < it.currTime
  · -- every entry of `delays` is valid, so there is a chunk to send
    obtain ⟨chunk, hchunk⟩ : ∃ chunk, msgs[d.2.toNat]? = some chunk :=
      ⟨_, List.getElem?_eq_getElem (h.valid d (hrest List.mem_cons_self))⟩
    have hne : (Frame.build order d.2 chunk).bytes ≠ [] := by
      rw [← List.length_pos_iff, (Frame.build order d.2 chunk).length_eq]
      exact Nat.succ_pos _
    cases hwritten : env.written with
    | some k =>
        have hstep : s.step order o msgs requests env = ({ s with pc := .closed }, requests,
            (Frame.build order d.2 chunk).bytes.take k) := by
          simp only [Server.step, hpc, hd, if_true, hchunk, hwritten]
        simp only [Connection.step, hstep, hpc]
        exact h.stay rfl rfl (.closed rfl fun it' e => ⟨d :: rest, Option.some.inj e ▸ hit⟩)
    | none =>
        by_cases hdup : (o.chaosMode && env.draws.duplicate) = true
        · have hstep : s.step order o msgs requests env =
              ({ s with pc := .duplicating it.currTime (Frame.build order d.2 chunk) rest },
                requests, (Frame.build order d.2 chunk).bytes) := by
            simp only [Server.step, hpc, hd, if_true, hchunk, hwritten, hdup]
          simp only [Connection.step, hstep, hpc, hne, if_false]
          exact h.stay rfl rfl (.duplicating rfl hdelays hrest' hchunk
            (Bool.and_eq_true_iff.mp hdup).1 hit.right (hit.reply hd hchunk))
        · have hstep : s.step order o msgs requests env =
              ({ s with pc := .sending it.currTime rest }, requests,
                (Frame.build order d.2 chunk).bytes) := by
            simp only [Server.step, hpc, hd, if_true, hchunk, hwritten, hdup, Bool.false_eq_true,
              if_false]
          simp only [Connection.step, hstep, hpc, hne, if_false]
          exact h.stay rfl rfl (.sending rfl hdelays hrest' (hit.reply hd hchunk))
  · have hstep : s.step order o msgs requests env =
        ({ s with pc := .sending it.currTime rest }, requests, []) := by
      simp only [Server.step, hpc, hd, if_false]
    simp only [Connection.step, hstep, hpc, if_true]
    exact h.stay rfl rfl (.sending rfl hdelays hrest' (hit.wait hd))

/-- The chaos mode writes the frame again. -/
theorem Kept.resend {d : ℤ × UInt16} {chunk : Chunk}
    (h : Kept order o msgs
      ⟨s, requests, past, some (it.answer d (Frame.build order d.2 chunk).bytes)⟩)
    (hpc : s.pc = .duplicating it.currTime (Frame.build order d.2 chunk) rest)
    (hdelays : s.delays = unanswered past) (hrest : rest ⊆ s.delays)
    (hchunk : msgs[d.2.toNat]? = some chunk) (hchaos : o.chaosMode = true)
    (hright : ∀ r ∈ it.replies, r.Right order o msgs)
    (hit : Answering order o msgs past (it.answer d (Frame.build order d.2 chunk).bytes) rest)
    (env : ServerEnv) :
    (step order o msgs
      ⟨s, requests, past, some (it.answer d (Frame.build order d.2 chunk).bytes)⟩
      (.server env)).Kept order o msgs := by
  cases hwritten : env.written with
  | some k =>
      have hstep : s.step order o msgs requests env = ({ s with pc := .closed }, requests,
          (Frame.build order d.2 chunk).bytes.take k) := by
        simp only [Server.step, hpc, hwritten]
      simp only [Connection.step, hstep, hpc]
      exact h.stay rfl rfl (.closed rfl fun it' e => ⟨rest, Option.some.inj e ▸ hit⟩)
  | none =>
      have hstep : s.step order o msgs requests env =
          ({ s with pc := .sending it.currTime rest }, requests,
            (Frame.build order d.2 chunk).bytes) := by
        simp only [Server.step, hpc, hwritten]
      simp only [Connection.step, hstep, hpc]
      have htwice := hit.twice hright hchunk hchaos
      exact h.stay rfl rfl (.sending rfl hdelays hrest htwice)

/-- The rest of the loop body, after the send loop. -/
theorem Kept.read (h : Kept order o msgs ⟨s, requests, past, some it⟩)
    (hpc : s.pc = .receiving it.currTime)
    (hdelays : s.delays = (unanswered past).filter fun d => !(d.1 < it.currTime))
    (hit : Answering order o msgs past it []) (env : ServerEnv) :
    (step order o msgs ⟨s, requests, past, some it⟩ (.server env)).Kept order o msgs := by
  by_cases hidle : (!env.available || requests.isEmpty) = true
  · have hstep : s.step order o msgs requests env = ({ s with pc := .loop }, requests, []) := by
      simp only [Server.step, hpc, hidle, if_true]
    simp only [Connection.step, hstep, hpc]
    exact h.accept (s := { s with pc := .loop }) hdelays hit rfl (.inl rfl) requests
  · by_cases herror : env.readError = true
    · have hstep : s.step order o msgs requests env =
          ({ s with pc := .closed }, requests, []) := by
        simp only [Server.step, hpc, hidle, herror, if_true, Bool.false_eq_true, if_false]
      simp only [Connection.step, hstep, hpc]
      exact h.stay rfl rfl (.closed rfl fun it' e => ⟨[], Option.some.inj e ▸ hit⟩)
    · match requests with
      | [] => exact absurd (Bool.or_true _) hidle
      | [x] =>
          have hstep : s.step order o msgs [x] env = (s, [x], []) := by
            simp only [Server.step, hpc, hidle, herror, Bool.false_eq_true, if_false]
          simp only [Connection.step, hstep, hpc]
          exact h
      | x :: y :: requests =>
          have hstep : s.step order o msgs (x :: y :: requests) env =
              ({ s.handle o msgs it.currTime (order.load [x, y]) env.draws env.now with
                  pc := .loop }, requests, []) := by
            simp only [Server.step, hpc, hidle, herror, Bool.false_eq_true, if_false]
          simp only [Connection.step, hstep, hpc]
          refine h.accept (s := { s.handle o msgs it.currTime (order.load [x, y]) env.draws env.now
            with pc := .loop }) hdelays hit rfl ?_ requests
          rcases Server.handle_cases o msgs s it.currTime (order.load [x, y]) env.draws env.now with
            hsame | ⟨due, hadd, hvalid, hroom⟩
          · exact .inl hsame
          · exact .inr ⟨(due, order.load [x, y]), hadd, hvalid, hroom⟩

end Step

theorem Kept.step {c : Connection} (h : c.Kept order o msgs) (m : Move) :
    (c.step order o msgs m).Kept order o msgs := by
  cases m with
  | bytes l => exact { h with }
  | server env =>
      have hplace := h.place
      obtain ⟨s, requests, past, current⟩ := c
      cases hplace with
      | loop hpc hdelays => exact h.begin hpc hdelays env
      | @sending it rest hpc hdelays hrest hit =>
          cases rest with
          | nil => exact h.erase hpc hdelays hit env
          | cons d rest => exact h.send hpc hdelays hrest hit env
      | duplicating hpc hdelays hrest hchunk hchaos hright hit =>
          exact h.resend hpc hdelays hrest hchunk hchaos hright hit env
      | receiving hpc hdelays hit => exact h.read hpc hdelays hit env
      | closed hpc hit =>
          have hpc' : s.pc = .closed := hpc
          simp only [Connection.step, Server.step, hpc']
          exact h.stay rfl rfl (.closed hpc hit)

theorem Kept.run {c : Connection} (h : c.Kept order o msgs) (moves : List Move) :
    (c.run order o msgs moves).Kept order o msgs := by
  induction moves generalizing c with
  | nil => exact h
  | cons m moves ih => exact ih (h.step m)

/-- What the iteration the server is in has answered so far. -/
theorem Kept.current {c : Connection} (h : c.Kept order o msgs) {it : Iteration}
    (hit : c.current = some it) : ∃ rest, Answering order o msgs c.past it rest := by
  obtain ⟨s, requests, past, current⟩ := c
  cases h.place with
  | loop => cases hit
  | sending _ _ _ h => exact Option.some.inj hit ▸ ⟨_, h⟩
  | duplicating _ _ _ _ _ _ h => exact Option.some.inj hit ▸ ⟨_, h⟩
  | receiving _ _ h => exact Option.some.inj hit ▸ ⟨_, h⟩
  | closed _ h => exact h it hit

/-- **Every accepted request is answered exactly once.**  On every connection: `delays` has at most
`NUM_CHUNKS` entries, all valid; every iteration answers exactly the unanswered entries whose due
time it comes after, in order, each with its id and its chunk, and has dropped them from `delays`
when it reads a request; between iterations what was accepted has been answered once or is still in
`delays`; and the send loop skips no entry as invalid. -/
theorem answers_once (order : ByteOrder) (o : Options) (msgs : List Chunk) (now : ℤ)
    (moves : List Move) :
    let c := (start now).run order o msgs moves
    (c.server.delays.length ≤ NUM_CHUNKS ∧ ∀ d ∈ c.server.delays, d.2.toNat < msgs.length) ∧
      (∀ before it after, c.past = before ++ it :: after →
        it.answered = (unanswered before).filter fun d => d.1 < it.currTime) ∧
      (∀ it, c.current = some it →
        it.answered <+: (unanswered c.past).filter fun d => d.1 < it.currTime) ∧
      (∀ it ∈ c.past ++ c.current.toList, ∀ r ∈ it.replies, r.Right order o msgs) ∧
      (∀ t, c.server.pc = .receiving t → ∃ it, c.current = some it ∧ it.currTime = t ∧
        it.answered = (unanswered c.past).filter (fun d => d.1 < t) ∧
          c.server.delays = (unanswered c.past).filter fun d => !(d.1 < t)) ∧
      (c.server.pc = .loop → c.server.delays = unanswered c.past ∧
        (c.past.flatMap Iteration.answered ++ c.server.delays).Perm
          (c.past.filterMap Iteration.accepted)) ∧
      (∀ t d rest, c.server.pc = .sending t (d :: rest) →
        ∃ chunk, msgs[d.2.toNat]? = some chunk) := by
  intro c
  have h : c.Kept order o msgs := (kept_start order o msgs now).run moves
  refine ⟨⟨h.room, h.valid⟩, h.served, ?_, ?_, ?_, ?_, ?_⟩
  · intro it hit
    obtain ⟨rest, hrest⟩ := h.current hit
    exact ⟨_, hrest.due⟩
  · intro it hit
    rcases List.mem_append.mp hit with hit | hit
    · exact h.right it hit
    · obtain ⟨rest, hrest⟩ := h.current (Option.mem_toList.mp hit)
      exact hrest.right
  · exact fun t hpc => h.place.receiving_inv hpc
  · intro hpc
    have hdelays := h.place.loop_inv hpc
    exact ⟨hdelays, hdelays ▸ h.served.perm⟩
  · intro t d rest hpc
    have hmem := h.place.sending_inv hpc List.mem_cons_self
    exact ⟨_, List.getElem?_eq_getElem (h.valid d hmem)⟩

/-- A request read at time 0 is answered at time 1, and only then. -/
example :
    let chunk : Chunk := ⟨.replicate CHUNK_SIZE 65, rfl⟩
    let turns (now : ℤ) : List Move := .replicate 3 (.server { now := now })
    let c := (start 0).run .littleEndian {} [chunk]
      (.bytes [0, 0] :: turns 0 ++ turns 0 ++ turns 1 ++ turns 2)
    c.past.map Iteration.accepted = [some (0, 0), none, none] ∧
      c.past.map Iteration.answered = [[], [], [(0, 0)]] := by
  decide +kernel

end Connection

/-! ### The system -/

namespace System

/-- The connection on which the server is, and what its client has sent to it. -/
structure Serves (s : System) (c : Connection) : Prop where
  server : s.server = c.server
  requests : s.requests = c.requests

/-- The bytes a step of the client writes arrive, and the server's steps are its own. -/
def moves (order : ByteOrder) (s : System) : Action → List Move
  | .client now => [.bytes ((s.client.step s.sender now).2.2.elim [] order.store)]
  | .reader _ => []
  | .server env => [.server env]

theorem serves_start (data : Vector Msg NUM_CHUNKS) (now : ℤ) :
    (start data now).Serves (.start now) :=
  ⟨rfl, rfl⟩

/-- **One step, of any thread.** -/
theorem Serves.step {s : System} {c : Connection} (h : s.Serves c) (order : ByteOrder) (o : Options)
    (msgs : List Chunk) (a : Action) :
    (s.step order o msgs a).Serves (c.run order o msgs (s.moves order a)) := by
  obtain ⟨hserver, hrequests⟩ := h
  cases a with
  | client now => exact ⟨hserver, congrArg (· ++ _) hrequests⟩
  | reader env => exact ⟨hserver, hrequests⟩
  | server env =>
      have hstep := c.server_step order o msgs env
      rw [← hserver, ← hrequests] at hstep
      exact ⟨hstep.1.symm, hstep.2.symm⟩

/-- **The server of the transfer is on such a connection.** -/
theorem Serves.run {s : System} {c : Connection} (h : s.Serves c) (order : ByteOrder) (o : Options)
    (msgs : List Chunk) (as : List Action) :
    ∃ moves, (s.run order o msgs as).Serves (c.run order o msgs moves) := by
  have hsim : Simulates (System.step order o msgs) (Connection.step order o msgs) Serves :=
    fun s _ a h => ⟨s.moves order a, h.step order o msgs a⟩
  exact hsim.run h as

/-- The server holds no more than `NUM_CHUNKS` requests, all of them for chunks it has. -/
theorem delays_valid (order : ByteOrder) (o : Options) (msgs : List Chunk)
    (data : Vector Msg NUM_CHUNKS) (now : ℤ) (as : List Action) :
    let delays := ((start data now).run order o msgs as).server.delays
    delays.length ≤ NUM_CHUNKS ∧ ∀ d ∈ delays, d.2.toNat < msgs.length := by
  obtain ⟨moves, hserves⟩ := (serves_start data now).run order o msgs as
  have hkept := (Connection.kept_start order o msgs now).run moves
  rw [hserves.server]
  exact ⟨hkept.room, hkept.valid⟩

end System

end PacketSim.Reliable
