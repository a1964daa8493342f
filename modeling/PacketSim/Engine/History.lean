import PacketSim.Engine.Definitions

/-!
# Engine — History

What can be read off the history of a run, newest entry first: which sequences were transmitted,
acknowledged and received, and when a sequence was last transmitted.

* `History.Ordered`: a sequence is transmitted only once the one before it has arrived, and
  acknowledged only once it has arrived itself.
* `History.Spaced`: two transmissions of one sequence are a timeout apart.
-/

namespace PacketSim.History

/-- The data sequences transmitted so far. -/
def transmitted : List HistoryEntry → Finset ℕ
  | [] => ∅
  | .transmitted k _ _ :: h => insert k (transmitted h)
  | .arrived _ _ :: h => transmitted h
  | .acknowledged _ _ :: h => transmitted h

/-- The sequences whose acknowledgement the sender accepted so far. -/
def acknowledged : List HistoryEntry → Finset ℕ
  | [] => ∅
  | .transmitted _ _ _ :: h => acknowledged h
  | .arrived _ _ :: h => acknowledged h
  | .acknowledged k _ :: h => insert k (acknowledged h)

/-- The data sequences that reached their destination so far. -/
def arrivedData : List HistoryEntry → Finset ℕ
  | [] => ∅
  | .transmitted _ _ _ :: h => arrivedData h
  | .arrived p _ :: h =>
      if p.packetType = .data then insert p.sequence (arrivedData h) else arrivedData h
  | .acknowledged _ _ :: h => arrivedData h

/-- The number of arrivals at packet destinations so far, of data and of acknowledgements. -/
def arrivals : List HistoryEntry → ℕ
  | [] => 0
  | .transmitted _ _ _ :: h => arrivals h
  | .arrived _ _ :: h => arrivals h + 1
  | .acknowledged _ _ :: h => arrivals h

/-- When sequence `k` was last transmitted. -/
def lastTransmission (k : ℕ) : List HistoryEntry → Option ℚ
  | [] => none
  | .transmitted j _ t :: h => if j = k then some t else lastTransmission k h
  | .arrived _ _ :: h => lastTransmission k h
  | .acknowledged _ _ :: h => lastTransmission k h

/-- What an entry requires of the entries before it. -/
def Follows (older : List HistoryEntry) : HistoryEntry → Prop
  | .transmitted k _ _ => ∀ j, j + 1 = k → j ∈ arrivedData older
  | .arrived _ _ => True
  | .acknowledged k _ => k ∈ arrivedData older

/-- Every entry follows what is older. -/
def Ordered : List HistoryEntry → Prop
  | [] => True
  | entry :: older => Follows older entry ∧ Ordered older

/-- If both entries are transmissions of one sequence, a timeout lies between them. -/
def Apart (later earlier : HistoryEntry) : Prop :=
  ∀ k re re' t t', later = .transmitted k re t → earlier = .transmitted k re' t' →
    t' + retransmissionTimeoutMs ≤ t

/-- Any two entries are apart. -/
def Spaced (h : List HistoryEntry) : Prop := h.Pairwise Apart

/-! ### One more entry -/

section Entry
variable (h : List HistoryEntry) (k : ℕ) (re : Bool) (t : ℚ) (p : Packet)

@[simp] theorem transmitted_nil : transmitted [] = ∅ := rfl
@[simp] theorem transmitted_transmitted :
    transmitted (.transmitted k re t :: h) = insert k (transmitted h) := rfl
@[simp] theorem transmitted_arrived : transmitted (.arrived p t :: h) = transmitted h := rfl
@[simp] theorem transmitted_acknowledged :
    transmitted (.acknowledged k t :: h) = transmitted h := rfl

@[simp] theorem acknowledged_nil : acknowledged [] = ∅ := rfl
@[simp] theorem acknowledged_transmitted :
    acknowledged (.transmitted k re t :: h) = acknowledged h := rfl
@[simp] theorem acknowledged_arrived : acknowledged (.arrived p t :: h) = acknowledged h := rfl
@[simp] theorem acknowledged_acknowledged :
    acknowledged (.acknowledged k t :: h) = insert k (acknowledged h) := rfl

@[simp] theorem arrivedData_nil : arrivedData [] = ∅ := rfl
@[simp] theorem arrivedData_transmitted :
    arrivedData (.transmitted k re t :: h) = arrivedData h := rfl
@[simp] theorem arrivedData_acknowledged :
    arrivedData (.acknowledged k t :: h) = arrivedData h := rfl

theorem arrivedData_data (hp : p.packetType = .data) :
    arrivedData (.arrived p t :: h) = insert p.sequence (arrivedData h) := if_pos hp

theorem arrivedData_ack (hp : p.packetType = .ack) :
    arrivedData (.arrived p t :: h) = arrivedData h := if_neg (by simp [hp])

@[simp] theorem arrivals_nil : arrivals [] = 0 := rfl
@[simp] theorem arrivals_transmitted : arrivals (.transmitted k re t :: h) = arrivals h := rfl
@[simp] theorem arrivals_arrived : arrivals (.arrived p t :: h) = arrivals h + 1 := rfl
@[simp] theorem arrivals_acknowledged : arrivals (.acknowledged k t :: h) = arrivals h := rfl

@[simp] theorem lastTransmission_arrived :
    lastTransmission k (.arrived p t :: h) = lastTransmission k h := rfl
@[simp] theorem lastTransmission_acknowledged (j : ℕ) :
    lastTransmission k (.acknowledged j t :: h) = lastTransmission k h := rfl
@[simp] theorem lastTransmission_transmitted :
    lastTransmission k (.transmitted k re t :: h) = some t := if_pos rfl

@[simp] theorem ordered_nil : Ordered [] := trivial
@[simp] theorem ordered_cons (entry : HistoryEntry) :
    Ordered (entry :: h) ↔ Follows h entry ∧ Ordered h := Iff.rfl

@[simp] theorem spaced_arrived : Spaced (.arrived p t :: h) ↔ Spaced h := by
  simp [Spaced, Apart]
@[simp] theorem spaced_acknowledged : Spaced (.acknowledged k t :: h) ↔ Spaced h := by
  simp [Spaced, Apart]

end Entry

/-! ### The order of a run -/

theorem Ordered.of_append {newer older : List HistoryEntry} (h : Ordered (newer ++ older)) :
    Ordered older := by
  induction newer with
  | nil => exact h
  | cons _ _ ih => exact ih h.2

/-- Sequence `k` arrived before `k + 1` was first transmitted. -/
theorem Ordered.arrived_before {newer older : List HistoryEntry} {k : ℕ} {re : Bool} {t : ℚ}
    (h : Ordered (newer ++ .transmitted (k + 1) re t :: older)) : k ∈ arrivedData older :=
  h.of_append.1 k rfl

/-- Sequence `k` arrived before its acknowledgement was accepted. -/
theorem Ordered.acknowledged_after {newer older : List HistoryEntry} {k : ℕ} {t : ℚ}
    (h : Ordered (newer ++ .acknowledged k t :: older)) : k ∈ arrivedData older :=
  h.of_append.1

theorem mem_transmitted {h : List HistoryEntry} {k : ℕ} :
    k ∈ transmitted h ↔ ∃ re t, .transmitted k re t ∈ h := by
  induction h with
  | nil => simp
  | cons entry h ih => cases entry <;> simp [ih, exists_or]

/-- No transmission of `k` is later than the last. -/
theorem Spaced.le_last {h : List HistoryEntry} (hs : Spaced h) {k : ℕ} {t : ℚ}
    (hl : lastTransmission k h = some t) {re : Bool} {t' : ℚ} (hm : .transmitted k re t' ∈ h) :
    t' ≤ t := by
  induction h with
  | nil => cases hm
  | cons entry h ih =>
      obtain ⟨hhead, htail⟩ := List.pairwise_cons.mp hs
      cases entry with
      | arrived _ _ => exact ih htail hl (by simpa using hm)
      | acknowledged _ _ => exact ih htail hl (by simpa using hm)
      | transmitted j re₀ t₀ =>
          by_cases hj : j = k
          · subst hj
            obtain rfl : t₀ = t := by simpa using hl
            rcases List.mem_cons.mp hm with heq | hm
            · cases heq
              exact le_rfl
            · have hgap := hhead _ hm j _ _ _ _ rfl rfl
              have : (0 : ℚ) ≤ retransmissionTimeoutMs := by decide +kernel
              linarith
          · have hl' : lastTransmission k h = some t := by
              rwa [lastTransmission, if_neg hj] at hl
            refine ih htail hl' ?_
            rcases List.mem_cons.mp hm with heq | hm
            · cases heq
              exact absurd rfl hj
            · exact hm

theorem lastTransmission_eq_none {h : List HistoryEntry} {k : ℕ} :
    lastTransmission k h = none ↔ k ∉ transmitted h := by
  induction h with
  | nil => simp [lastTransmission]
  | cons entry h ih =>
      cases entry with
      | arrived _ _ => exact ih
      | acknowledged _ _ => exact ih
      | transmitted j re t =>
          rw [lastTransmission, transmitted_transmitted, Finset.mem_insert, not_or, ← ih]
          split
          · rename_i hj
            simp [hj]
          · rename_i hj
            simp [Ne.symm hj]

/-- A transmission a timeout after the last one of its sequence keeps the history spaced. -/
theorem Spaced.transmit {h : List HistoryEntry} (hs : Spaced h) {k : ℕ} {re : Bool} {t : ℚ}
    (hlast : ∀ t', lastTransmission k h = some t' → t' + retransmissionTimeoutMs ≤ t) :
    Spaced (.transmitted k re t :: h) := by
  refine List.pairwise_cons.mpr ⟨?_, hs⟩
  rintro entry hm k' re₁ re₂ t₁ t₂ h₁ rfl
  cases h₁
  cases hl : lastTransmission k h with
  | none =>
      exact absurd (mem_transmitted.mpr ⟨re₂, t₂, hm⟩) (lastTransmission_eq_none.mp hl)
  | some t₀ =>
      have := hs.le_last hl hm
      linarith [hlast t₀ hl]

end PacketSim.History
