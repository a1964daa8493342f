import PacketSim.Reliable.Integrity

/-!
# Reliable — Chunks

`load_data` (`server.cpp`) cuts the file into chunks of `CHUNK_SIZE` bytes and fills the last one up
with zero bytes.  A response carries no length, and the client writes every chunk whole, so the
bytes it writes are the text and the filling (`padded`).

* `length_loadData`, `flatMap_loadData`: how many chunks there are, and what they hold.
* `transfer`: every response received, and the write loop run to its end.
* `transfer_eq_padded`: for every text of `NUM_MSGS` chunks, in `transfer` and in every run.
-/

namespace PacketSim.Reliable

open Lib

variable {order : ByteOrder} {o : Options} {msgs : List Chunk}

/-! ### Loading -/

/-- `text.substr(i, CHUNK_SIZE)`, resized to `CHUNK_SIZE` with zero bytes. -/
def chunkAt (text : List Byte) (i : ℕ) : Chunk where
  bytes := ((text.drop i).take CHUNK_SIZE).rightpad CHUNK_SIZE 0
  length_eq := by
    simp only [List.rightpad, List.length_append, List.length_replicate, List.length_take]
    omega

/-- The loop, from the index `i` on. -/
def loadFrom (text : List Byte) (i : ℕ) : List Chunk :=
  if i < text.length then chunkAt text i :: loadFrom text (i + CHUNK_SIZE) else []
termination_by text.length - i
decreasing_by simp only [CHUNK_SIZE]; omega

/-- The chunks of the text, the last one padded. -/
def loadData (text : List Byte) : List Chunk := loadFrom text 0

theorem length_loadFrom (text : List Byte) (i : ℕ) :
    (loadFrom text i).length = (text.length - i + (CHUNK_SIZE - 1)) / CHUNK_SIZE := by
  fun_induction loadFrom text i with
  | case1 i hi ih =>
      rw [List.length_cons, ih]
      simp only [CHUNK_SIZE]
      omega
  | case2 i hi =>
      simp only [CHUNK_SIZE, List.length_nil]
      omega

/-- What is left of the text, and the filling. -/
theorem flatMap_loadFrom (text : List Byte) (i : ℕ) :
    (loadFrom text i).flatMap Chunk.bytes = text.drop i ++
      List.replicate ((loadFrom text i).length * CHUNK_SIZE - (text.length - i)) 0 := by
  fun_induction loadFrom text i with
  | case1 i hi ih =>
      rw [List.flatMap_cons, ih, List.length_cons]
      have hlen : (text.drop i).length = text.length - i := List.length_drop
      by_cases hfull : CHUNK_SIZE ≤ text.length - i
      · -- a whole chunk: the filling is that of the rest
        have hpad : (chunkAt text i).bytes = (text.drop i).take CHUNK_SIZE := by
          simp [chunkAt, List.rightpad, hlen, hfull]
        have hcount : ((loadFrom text (i + CHUNK_SIZE)).length + 1) * CHUNK_SIZE -
            (text.length - i) = (loadFrom text (i + CHUNK_SIZE)).length * CHUNK_SIZE -
              (text.length - (i + CHUNK_SIZE)) := by
          simp only [CHUNK_SIZE] at hfull ⊢
          omega
        rw [hpad, hcount, ← List.append_assoc, ← List.drop_drop, List.take_append_drop]
      · -- the last chunk: nothing is left after it
        have hnil : text.drop (i + CHUNK_SIZE) = [] := List.drop_eq_nil_of_le (by omega)
        have hlast : (loadFrom text (i + CHUNK_SIZE)).length = 0 := by
          rw [length_loadFrom]
          simp only [CHUNK_SIZE] at hfull ⊢
          omega
        have htake : (text.drop i).take CHUNK_SIZE = text.drop i :=
          List.take_of_length_le (by omega)
        simp [chunkAt, hnil, hlast, htake, List.rightpad, hlen]
  | case2 i hi =>
      simp [List.drop_eq_nil_of_le (not_lt.mp hi)]

theorem length_loadData (text : List Byte) :
    (loadData text).length = (text.length + (CHUNK_SIZE - 1)) / CHUNK_SIZE :=
  length_loadFrom text 0

/-- The text, filled up to `NUM_MSGS` chunks. -/
def padded (text : List Byte) : List Byte :=
  text ++ List.replicate (NUM_MSGS * CHUNK_SIZE - text.length) 0

theorem flatMap_loadData {text : List Byte} (h : (loadData text).length = NUM_MSGS) :
    (loadData text).flatMap Chunk.bytes = padded text := by
  have := flatMap_loadFrom text 0
  rwa [← loadData, h] at this

/-- The lengths that give `NUM_MSGS` chunks. -/
theorem length_loadData_eq {text : List Byte} : (loadData text).length = NUM_MSGS ↔
    (NUM_MSGS - 1) * CHUNK_SIZE + 1 ≤ text.length ∧ text.length ≤ NUM_MSGS * CHUNK_SIZE := by
  rw [length_loadData]
  simp only [CHUNK_SIZE, NUM_MSGS]
  omega

theorem padded_eq_self {text : List Byte} (h : text.length ≤ NUM_MSGS * CHUNK_SIZE) :
    padded text = text ↔ text.length = NUM_MSGS * CHUNK_SIZE := by
  rw [padded, List.append_right_eq_self, List.replicate_eq_nil_iff]
  omega

theorem padded_of_short {text : List Byte} (h : text.length + 1 = NUM_MSGS * CHUNK_SIZE) :
    padded text = text ++ [0] := by
  have : NUM_MSGS * CHUNK_SIZE - text.length = 1 := by omega
  rw [padded, this]
  rfl

/-! ### What the client holds -/

namespace Client

variable {c : Client}

/-- With everything received, the blocks of `chunks` are the chunks of the server. -/
theorem Sound.chunks_eq (h : c.Sound msgs) (hlen : msgs.length = NUM_MSGS)
    (hreceived : ∀ i (hi : i < NUM_MSGS), c.received[i] = true) :
    c.chunks.toList = msgs.map Chunk.bytes := by
  refine List.ext_getElem (by simp [hlen]) fun i hi hi' => ?_
  have hi : i < NUM_MSGS := by simpa using hi
  have hc := h.chunk i hi (hreceived i hi)
  rw [List.getElem?_eq_getElem (hlen ▸ hi), Option.map_some, Option.some.injEq] at hc
  simp [hc]

/-- The client's blocks, `CHUNK_SIZE` bytes of each. -/
def reassembled (c : Client) : List Byte := c.chunks.toList.flatMap (·.take CHUNK_SIZE)

theorem Sound.reassembled_eq (h : c.Sound msgs) (hlen : msgs.length = NUM_MSGS)
    (hreceived : ∀ i (hi : i < NUM_MSGS), c.received[i] = true) :
    c.reassembled = msgs.flatMap Chunk.bytes := by
  rw [reassembled, h.chunks_eq hlen hreceived, List.flatMap_map]
  refine List.flatMap_congr fun chunk _ => ?_
  exact List.take_of_length_le chunk.length_eq.le

/-- With everything written, the file holds the chunks of the server. -/
theorem Sound.output_eq (h : c.Sound msgs) (hlen : msgs.length = NUM_MSGS)
    (hall : c.nextExpected.toNat = NUM_MSGS) : c.output = msgs.flatMap Chunk.bytes := by
  rw [output, h.outfile, hall, List.take_of_length_le hlen.le, List.flatMap_def]

/-! ### One transfer -/

/-- The answers to the requests `ids`, received one after the other. -/
def receiveAll (order : ByteOrder) (msgs : List Chunk) (c : Client) (ids : List UInt16) : Client :=
  ids.foldl (fun c id =>
    match msgs[id.toNat]? with
    | some chunk => (c.receive ((Frame.build order id chunk).toMsg order)).1
    | none => c) c

/-- The `while` loop that writes, for at most `n` passes. -/
def writeAll : ℕ → Client → Client
  | 0, c => c
  | n + 1, c =>
      if h : c.nextExpected.toNat < NUM_MSGS then
        if c.received[c.nextExpected.toNat] then (c.write h).writeAll n else c
      else c

theorem receive_pc (c : Client) (msg : Msg) : (c.receive msg).1.pc = c.pc := by
  unfold receive
  split_ifs <;> rfl

theorem receive_nextExpected (c : Client) (msg : Msg) :
    (c.receive msg).1.nextExpected = c.nextExpected := by
  unfold receive
  split_ifs <;> rfl

/-- What was received stays received, and the message is. -/
theorem received_receive (c : Client) (msg : Msg) {i : ℕ} (hi : i < NUM_MSGS) :
    (c.receive msg).1.received[i] = true ↔ c.received[i] = true ∨ i = msg.msgId.toNat := by
  unfold receive
  split_ifs with hid hreceived
  · exact ⟨.inl, fun h => h.resolve_right (by omega)⟩
  · exact ⟨.inl, fun h => h.elim id fun heq => by subst heq; exact hreceived⟩
  · simp only [Vector.getElem_set]
    by_cases heq : msg.msgId.toNat = i
    · simp [heq]
    · simp [heq, Ne.symm heq]

/-- **All the answers.**  The induction is on the requests still to be answered. -/
theorem Sound.receiveAll (order : ByteOrder) (hlen : msgs.length = NUM_MSGS)
    (ids : List UInt16) :
    ∀ {c : Client}, c.Sound msgs → (c.receiveAll order msgs ids).Sound msgs ∧
      (c.receiveAll order msgs ids).pc = c.pc ∧
      (c.receiveAll order msgs ids).nextExpected = c.nextExpected ∧
      ∀ i (hi : i < NUM_MSGS), c.received[i] = true ∨ (∃ id ∈ ids, id.toNat = i) →
        (c.receiveAll order msgs ids).received[i] = true := by
  induction ids with
  | nil => exact fun {c} h => ⟨h, rfl, rfl, fun i hi hr => hr.elim id (by simp)⟩
  | cons id ids ih =>
      intro c h
      rw [Client.receiveAll, List.foldl_cons]
      cases hm : msgs[id.toNat]? with
      | none =>
          obtain ⟨hs, hpc, hn, hr⟩ := ih h
          refine ⟨hs, hpc, hn, fun i hi o => hr i hi ?_⟩
          rcases o with o | ⟨id', hid', rfl⟩
          · exact .inl o
          · rcases List.mem_cons.mp hid' with rfl | hid'
            · rw [List.getElem?_eq_getElem (hlen ▸ hi)] at hm
              cases hm
            · exact .inr ⟨id', hid', rfl⟩
      | some chunk =>
          have hgen : ((Frame.build order id chunk).toMsg order).Genuine msgs := by
            rw [Frame.toMsg_build]
            exact hm
          obtain ⟨hs, hpc, hn, hr⟩ := ih (h.receive hgen)
          refine ⟨hs, hpc.trans (receive_pc _ _), hn.trans (receive_nextExpected _ _),
            fun i hi o => hr i hi ?_⟩
          rw [received_receive, Frame.toMsg_build]
          rcases o with o | ⟨id', hid', rfl⟩
          · exact .inl (.inl o)
          · rcases List.mem_cons.mp hid' with rfl | hid'
            · exact .inl (.inr rfl)
            · exact .inr ⟨id', hid', rfl⟩

/-- **The write loop.**  The induction is on the passes left. -/
theorem Sound.writeAll : ∀ {n : ℕ} {c : Client}, c.Sound msgs → ¬ c.LoopExited →
    (∀ i (hi : i < NUM_MSGS), c.received[i] = true) → c.nextExpected.toNat + n = NUM_MSGS →
    (c.writeAll n).Sound msgs ∧ (c.writeAll n).nextExpected.toNat = NUM_MSGS := by
  intro n
  induction n with
  | zero => exact fun h _ _ hn => ⟨h, hn⟩
  | succ n ih =>
      intro c h hpc hr hn
      have hnext : c.nextExpected.toNat < NUM_MSGS := by omega
      have hone : (c.nextExpected + 1).toNat = c.nextExpected.toNat + 1 := by
        have : c.nextExpected.toNat < 853 := hnext
        rw [UInt16.toNat_add]
        simp
        omega
      rw [Client.writeAll, dif_pos hnext, if_pos (hr _ hnext)]
      refine ih (h.write hnext (hr _ hnext) hpc) hpc hr ?_
      show (c.nextExpected + 1).toNat + n = NUM_MSGS
      omega

end Client

/-- A request for every chunk, the answers in order, and the writing. -/
def transfer (order : ByteOrder) (text : List Byte) : List Byte :=
  ((Client.start.receiveAll order (loadData text)
    ((List.range NUM_MSGS).map UInt16.ofNat)).writeAll NUM_MSGS).output

theorem transfer_eq (order : ByteOrder) {text : List Byte} (h : (loadData text).length = NUM_MSGS) :
    transfer order text = padded text := by
  obtain ⟨hs, hpc, hn, hr⟩ := Client.Sound.receiveAll order h
    ((List.range NUM_MSGS).map UInt16.ofNat) Client.Sound.start
  have hall : ∀ i (hi : i < NUM_MSGS), (Client.start.receiveAll order (loadData text)
      ((List.range NUM_MSGS).map UInt16.ofNat)).received[i] = true := by
    intro i hi
    refine hr i hi (.inr ⟨UInt16.ofNat i, List.mem_map.mpr ⟨i, List.mem_range.mpr hi, rfl⟩, ?_⟩)
    have : i < 853 := hi
    rw [UInt16.toNat_ofNat', Nat.mod_eq_of_lt (by omega)]
  obtain ⟨hs', hn'⟩ := hs.writeAll (by rw [Client.LoopExited, hpc]; simp [Client.start]) hall
    (by rw [hn]; exact Nat.zero_add _)
  rw [transfer, hs'.output_eq h hn', flatMap_loadData h]

/-- **Chunking and reassembly.**  For every text of `NUM_MSGS` chunks, what the client writes is the
text filled up with zero bytes: chunk by chunk, when all are received in some state of some run; in
its file, when the run has ended; and when the answers come in order.  It is the text itself exactly
when the last chunk is full. -/
theorem transfer_eq_padded (text : List Byte) (htext : (loadData text).length = NUM_MSGS) :
    ((NUM_MSGS - 1) * CHUNK_SIZE + 1 ≤ text.length ∧ text.length ≤ NUM_MSGS * CHUNK_SIZE) ∧
      (∀ order, transfer order text = padded text) ∧
      (∀ (order : ByteOrder) (o : Options) (data : Vector Msg NUM_CHUNKS) (now : ℤ)
        (as : List Action),
        let c := ((System.start data now).run order o (loadData text) as).client
        ((∀ i (hi : i < NUM_MSGS), c.received[i] = true) → c.reassembled = padded text) ∧
          (c.LoopExited → c.output = padded text)) ∧
      (padded text = text ↔ text.length = NUM_MSGS * CHUNK_SIZE) := by
  have hbounds := length_loadData_eq.mp htext
  refine ⟨hbounds, fun order => transfer_eq order htext, fun order o data now as => ?_,
    padded_eq_self hbounds.2⟩
  have hintact : ((System.start data now).run order o (loadData text) as).Intact order
      (loadData text) := (System.intact_start data now).run as
  have h := hintact.client
  refine ⟨fun hall => ?_, fun hexited => ?_⟩
  · rw [h.reassembled_eq htext hall, flatMap_loadData htext]
  · have hnext := h.written.symm.trans (h.exited hexited)
    rw [h.output_eq htext hnext, flatMap_loadData htext]

/-- A text one byte short of `NUM_MSGS` full chunks. -/
def shortText : List Byte := List.replicate (NUM_MSGS * CHUNK_SIZE - 1) 65

theorem length_shortText : shortText.length + 1 = NUM_MSGS * CHUNK_SIZE := by
  rw [shortText, List.length_replicate]
  decide

theorem length_loadData_shortText : (loadData shortText).length = NUM_MSGS := by
  have := length_shortText
  rw [length_loadData_eq]
  simp only [NUM_MSGS, CHUNK_SIZE] at this ⊢
  omega

theorem transfer_eq_padded_shortText :
    ((NUM_MSGS - 1) * CHUNK_SIZE + 1 ≤ shortText.length ∧
        shortText.length ≤ NUM_MSGS * CHUNK_SIZE) ∧
      (∀ order, transfer order shortText = padded shortText) ∧
      (∀ (order : ByteOrder) (o : Options) (data : Vector Msg NUM_CHUNKS) (now : ℤ)
        (as : List Action),
        let c := ((System.start data now).run order o (loadData shortText) as).client
        ((∀ i (hi : i < NUM_MSGS), c.received[i] = true) → c.reassembled = padded shortText) ∧
          (c.LoopExited → c.output = padded shortText)) ∧
      (padded shortText = shortText ↔ shortText.length = NUM_MSGS * CHUNK_SIZE) :=
  transfer_eq_padded shortText length_loadData_shortText

/-- **A text that comes back longer.**  Its last chunk lacks one byte, and the client writes a zero
byte there. -/
theorem transfer_shortText : (loadData shortText).length = NUM_MSGS ∧
    transfer .littleEndian shortText = shortText ++ [0] ∧
    transfer .littleEndian shortText ≠ shortText := by
  have h := (transfer_eq .littleEndian length_loadData_shortText).trans
    (padded_of_short length_shortText)
  refine ⟨length_loadData_shortText, h, fun heq => ?_⟩
  have := congrArg List.length (heq.symm.trans h)
  rw [List.length_append] at this
  simp at this

end PacketSim.Reliable
