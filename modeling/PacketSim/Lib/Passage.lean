import Mathlib

/-!
# Lib — Passage

A clock that never runs back, read after each of a sequence of steps, and the first step that brings
it to a mark.  `firstReach_iff`: two marks are first reached at the same steps exactly when no
reading falls between them.
-/

namespace Lib

variable {α : Type*} [LinearOrder α]

/-- Of the steps from `i` on, `j` is the first after which the clock has reached the mark.  The
reading after step `k` is `clock (k + 1)`. -/
structure FirstReach (clock : ℕ → α) (i j : ℕ) (mark : α) : Prop where
  le : i ≤ j
  reached : mark ≤ clock (j + 1)
  first : ∀ k, i ≤ k → k < j → clock (k + 1) < mark

variable {clock : ℕ → α} {i n : ℕ} {mark mark' : α}

/-- The mark is reached by some first step, if it is reached. -/
theorem exists_firstReach {k : ℕ} (hik : i ≤ k) (hk : mark ≤ clock (k + 1)) :
    ∃ j ≤ k, FirstReach clock i j mark := by
  classical
  have h : ∃ j, i ≤ j ∧ mark ≤ clock (j + 1) := ⟨k, hik, hk⟩
  refine ⟨Nat.find h, Nat.find_min' h ⟨hik, hk⟩, (Nat.find_spec h).1, (Nat.find_spec h).2,
    fun m him hm => ?_⟩
  have := Nat.find_min h hm
  exact lt_of_not_ge fun hmark => this ⟨him, hmark⟩

theorem firstReach_iff
    (hmono : ∀ k, i ≤ k → k < n → ∀ j, i ≤ j → j ≤ k → clock (j + 1) ≤ clock (k + 1))
    (hle : mark ≤ mark') :
    (∀ j < n, FirstReach clock i j mark ↔ FirstReach clock i j mark') ↔
      ∀ k, i ≤ k → k < n → clock (k + 1) < mark ∨ mark' ≤ clock (k + 1) := by
  constructor
  · intro h k hik hkn
    refine (lt_or_ge (clock (k + 1)) mark).imp_right fun hk => ?_
    obtain ⟨j, hjk, hj⟩ := exists_firstReach hik hk
    have hj' := (h j (hjk.trans_lt hkn)).mp hj
    exact hj'.reached.trans (hmono k hik hkn j hj.le hjk)
  · intro h j hjn
    constructor
    · intro hj
      have hreached := (h j hj.le hjn).resolve_left (not_lt.mpr hj.reached)
      exact ⟨hj.le, hreached, fun k hik hkj => (hj.first k hik hkj).trans_le hle⟩
    · intro hj
      refine ⟨hj.le, hle.trans hj.reached, fun k hik hkj => ?_⟩
      exact (h k hik (hkj.trans hjn)).resolve_right (not_le.mpr (hj.first k hik hkj))

end Lib
