import Mathlib

/-!
# Lib — Numbered

Things that carry a number from a counter.  `Numbered num M next`: the things in `M` have distinct
numbers, all below `next`.  Removing one keeps that (`Numbered.tail`), so does replacing one by
another with its number (`Numbered.swap`), and so does adding one that takes the next number
(`Numbered.new`).
-/

namespace Lib

variable {α : Type*}

/-- No two elements have one number, and the next number is new. -/
structure Numbered (num : α → ℕ) (M : Multiset α) (next : ℕ) : Prop where
  nodup : (M.map num).Nodup
  lt : ∀ x ∈ M, num x < next

namespace Numbered

variable {num : α → ℕ} {M : Multiset α} {next : ℕ} {x y : α}

theorem zero : Numbered num 0 next := ⟨Multiset.nodup_zero, by simp⟩

theorem tail (h : Numbered num (x ::ₘ M) next) : Numbered num M next where
  nodup := by
    have := h.nodup
    rw [Multiset.map_cons, Multiset.nodup_cons] at this
    exact this.2
  lt y hy := h.lt y (Multiset.mem_cons_of_mem hy)

theorem swap (h : Numbered num (x ::ₘ M) next) (hxy : num y = num x) :
    Numbered num (y ::ₘ M) next where
  nodup := by
    have := h.nodup
    rw [Multiset.map_cons] at this ⊢
    rwa [hxy]
  lt z hz := by
    rcases Multiset.mem_cons.mp hz with rfl | hz
    · exact hxy ▸ h.lt x (Multiset.mem_cons_self _ _)
    · exact h.lt z (Multiset.mem_cons_of_mem hz)

theorem new (h : Numbered num M next) (hx : num x = next) :
    Numbered num (x ::ₘ M) (next + 1) where
  nodup := by
    rw [Multiset.map_cons, Multiset.nodup_cons]
    refine ⟨fun hmem => ?_, h.nodup⟩
    obtain ⟨y, hy, hyx⟩ := Multiset.mem_map.mp hmem
    exact absurd (h.lt y hy) (not_lt.mpr (hx ▸ hyx.ge))
  lt y hy := by
    rcases Multiset.mem_cons.mp hy with rfl | hy
    · exact hx ▸ Nat.lt_succ_self _
    · exact (h.lt y hy).trans (Nat.lt_succ_self next)

/-- Numbers handed out one after another. -/
theorem range {f : ℕ → α} {first : ℕ} (hf : ∀ k, num (f k) = first + k) (n : ℕ) :
    Numbered num ((Multiset.range n).map f) (first + n) where
  nodup := by
    rw [Multiset.map_map]
    refine (Multiset.nodup_range n).map fun a b hab => ?_
    simpa [hf] using hab
  lt x hx := by
    obtain ⟨k, hk, rfl⟩ := Multiset.mem_map.mp hx
    rw [hf]
    exact Nat.add_lt_add_left (Multiset.mem_range.mp hk) first

end Numbered

end Lib
