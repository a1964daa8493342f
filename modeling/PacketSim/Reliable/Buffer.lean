import Mathlib
import PacketSim.Reliable.Definitions

/-!
# Reliable — Buffer

The array of the `Sender` as a list, `held`: `get_msg` takes its head, and the reader appends to it
while there is room.
-/

namespace PacketSim.Reliable.Sender

variable {o : ByteOrder} {b b' : Sender} {m : Msg} {buf : Frame}

/-- The messages in the buffer, oldest first. -/
def held (b : Sender) : List Msg := b.data.toList.take b.numMsgs

theorem length_held (hn : b.numMsgs ≤ NUM_CHUNKS) : b.held.length = b.numMsgs := by
  simp [held, hn]

theorem held_start (data : Vector Msg NUM_CHUNKS) : (start data).held = [] := rfl

/-- The loop moves the first `n` entries down by one and leaves the others. -/
theorem getElem_shift (data : Vector Msg NUM_CHUNKS) {n j : ℕ} (hn : n ≤ NUM_CHUNKS)
    (hj : j < NUM_CHUNKS) :
    (shift data n)[j] = if h : j + 1 < n then data[j + 1] else data[j] := by
  induction n generalizing j with
  | zero => simp [shift]
  | succ n ih =>
      cases n with
      | zero => simp [shift]
      | succ i =>
          have hi : i + 1 < NUM_CHUNKS := by omega
          simp only [shift, hi, dite_true, Vector.getElem_set]
          by_cases hij : i = j
          · subst hij
            rw [if_pos rfl, ih (by omega) hi, dif_neg (by omega), dif_pos (by omega)]
          · rw [if_neg hij, ih (by omega) hj]
            split_ifs <;> first | rfl | omega

/-- **`get_msg` takes the oldest message.** -/
theorem held_getMsg (hn : b.numMsgs ≤ NUM_CHUNKS) (h : b.getMsg = some (m, b')) :
    b.held = m :: b'.held ∧ b.numMsgs = b'.numMsgs + 1 ∧ b'.finished = b.finished := by
  unfold getMsg at h
  split at h
  · cases h
  · rename_i hne
    cases h
    refine ⟨List.ext_getElem ?_ ?_, ?_, rfl⟩
    · simp [held]
      omega
    · intro j hj hj'
      cases j with
      | zero => simp [held, Vector.get]
      | succ j =>
          have hlt : j + 1 < b.numMsgs := by simp [held] at hj; omega
          simp [held, getElem_shift _ hn, hlt]
    · simp only
      omega

/-- **The reader appends, if there is room.** -/
theorem held_store (hn : b.numMsgs ≤ NUM_CHUNKS) :
    (b.store o buf).held =
      if b.numMsgs < NUM_CHUNKS then b.held ++ [buf.toMsg o] else b.held := by
  unfold store
  split
  · rename_i hlt
    refine List.ext_getElem ?_ ?_
    · simp [held]
      omega
    · intro j hj hj'
      have hj₁ : j < b.numMsgs + 1 := by
        simp only [held, List.length_take] at hj
        omega
      rcases Nat.lt_succ_iff_lt_or_eq.mp hj₁ with hlt' | rfl
      · have hj₂ : j < b.held.length := by rwa [length_held hn]
        rw [List.getElem_append_left hj₂]
        simp [held, hlt'.ne']
      · simp [held, hlt.le]
  · rfl

theorem numMsgs_store (hn : b.numMsgs ≤ NUM_CHUNKS) : (b.store o buf).numMsgs ≤ NUM_CHUNKS := by
  unfold store
  split
  · exact Nat.succ_le_of_lt ‹_›
  · exact hn

/-! ### What the buffer holds -/

variable {P : Msg → Prop}

theorem forall_held_store (hn : b.numMsgs ≤ NUM_CHUNKS) (h : ∀ m ∈ b.held, P m)
    (hbuf : P (buf.toMsg o)) : ∀ m ∈ (b.store o buf).held, P m := by
  intro m hm
  rw [held_store hn] at hm
  split at hm
  · rcases List.mem_append.mp hm with hm | hm
    · exact h m hm
    · exact List.mem_singleton.mp hm ▸ hbuf
  · exact h m hm

theorem forall_held_getMsg (hn : b.numMsgs ≤ NUM_CHUNKS) (h : ∀ m ∈ b.held, P m)
    (hget : b.getMsg = some (m, b')) : P m ∧ ∀ m' ∈ b'.held, P m' := by
  obtain ⟨hheld, -, -⟩ := held_getMsg hn hget
  rw [hheld] at h
  exact ⟨h m List.mem_cons_self, fun m' hm' => h m' (List.mem_cons_of_mem _ hm')⟩

theorem numMsgs_getMsg (hn : b.numMsgs ≤ NUM_CHUNKS) (hget : b.getMsg = some (m, b')) :
    b'.numMsgs ≤ NUM_CHUNKS := by
  obtain ⟨-, hnum, -⟩ := held_getMsg hn hget
  omega

end PacketSim.Reliable.Sender
