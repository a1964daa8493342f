import Mathlib

/-!
# Lib — Descent

A system that goes on for ever and pays for every move.  If a step leaves the state as it is or
lowers its cost, and a state that is not done does not stay for ever, then the system gets done.
-/

namespace Lib

variable {S : Type*} {state : ℕ → S} {cost : S → ℕ}

/-- While no step moves the state, it stays. -/
theorem stays_or_falls
    (hstep : ∀ n, state (n + 1) = state n ∨ cost (state (n + 1)) < cost (state n))
    {n k : ℕ} (hnk : n ≤ k) :
    state k = state n ∨ ∃ j, n ≤ j ∧ cost (state j) < cost (state n) := by
  induction k, hnk using Nat.le_induction with
  | base => exact .inl rfl
  | succ k hnk ih =>
      rcases ih with ih | ih
      · rcases hstep k with h | h
        · exact .inl (h.trans ih)
        · exact .inr ⟨k + 1, hnk.trans k.le_succ, ih ▸ h⟩
      · exact .inr ih

/-- The induction is on the cost of the state at `n`. -/
theorem exists_done (Done : S → Prop)
    (hstep : ∀ n, state (n + 1) = state n ∨ cost (state (n + 1)) < cost (state n))
    (hmove : ∀ n, ¬ Done (state n) → ∃ k, n ≤ k ∧ (state k = state n → state (k + 1) ≠ state k))
    (n : ℕ) : ∃ k, n ≤ k ∧ Done (state k) := by
  induction hc : cost (state n) using Nat.strong_induction_on generalizing n with
  | _ c ih =>
      by_cases hdone : Done (state n)
      · exact ⟨n, le_rfl, hdone⟩
      · obtain ⟨k, hnk, hk⟩ := hmove n hdone
        have hfall : ∃ j, n ≤ j ∧ cost (state j) < cost (state n) := by
          rcases stays_or_falls hstep hnk with hstay | hfall
          · refine ⟨k + 1, hnk.trans k.le_succ, ?_⟩
            rw [← hstay]
            exact (hstep k).resolve_left (hk hstay)
          · exact hfall
        obtain ⟨j, hnj, hj⟩ := hfall
        obtain ⟨l, hjl, hl⟩ := ih _ (hc ▸ hj) j rfl
        exact ⟨l, hnj.trans hjl, hl⟩

end Lib
