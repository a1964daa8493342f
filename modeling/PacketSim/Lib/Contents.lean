import Mathlib

/-!
# Lib — Contents

A list of containers, each holding a multiset of things: what all of them hold together (`total`),
and what that becomes when one container changes.

* `total_set`: the container at an index is replaced.
* `total_modifyFirst`: the first container that satisfies a test is changed.
* `total_eq_zero`: nothing is held exactly when every container is empty.
-/

namespace Lib

variable {α β : Type*}

/-- What the containers of `l` hold together, where `f` tells what one holds. -/
def total (f : β → Multiset α) (l : List β) : Multiset α := (l.map f).sum

/-- The first element that satisfies `p` is changed by `g`. -/
def modifyFirst (p : β → Bool) (g : β → β) : List β → List β
  | [] => []
  | b :: l => if p b then g b :: l else b :: modifyFirst p g l

section
variable {f : β → Multiset α} {p : β → Bool} {g : β → β} {b b' : β} {l : List β} {i : ℕ}

@[simp] theorem total_nil : total f [] = 0 := rfl

@[simp] theorem total_cons : total f (b :: l) = f b + total f l := by simp [total]

theorem total_eq_zero : total f l = 0 ↔ ∀ b ∈ l, f b = 0 := by
  induction l with
  | nil => simp
  | cons b l ih => simp [ih]

theorem mem_total {a : α} : a ∈ total f l ↔ ∃ b ∈ l, a ∈ f b := by
  induction l with
  | nil => simp
  | cons b l ih => simp [ih]

/-- Two containers together hold no more than all. -/
theorem add_le_total {j : ℕ} (hij : i ≠ j) (hi : l[i]? = some b) (hj : l[j]? = some b') :
    f b + f b' ≤ total f l := by
  induction l generalizing i j with
  | nil => simp at hi
  | cons c l ih =>
      rw [total_cons]
      have hle : ∀ {k d}, l[k]? = some d → f d ≤ total f l := fun {k d} hk =>
        Multiset.single_le_sum (fun _ _ => Multiset.zero_le _) _
          (Multiset.mem_coe.mpr (List.mem_map_of_mem (List.mem_of_getElem? hk)))
      cases i with
      | zero =>
          obtain ⟨j, rfl⟩ := Nat.exists_eq_succ_of_ne_zero (Ne.symm hij)
          obtain rfl : c = b := by simpa using hi
          exact add_le_add_right (hle (by simpa using hj)) _
      | succ i =>
          cases j with
          | zero =>
              obtain rfl : c = b' := by simpa using hj
              rw [add_comm]
              exact add_le_add_right (hle (by simpa using hi)) _
          | succ j =>
              exact (ih (i := i) (j := j) (by omega) (by simpa using hi) (by simpa using hj)).trans
                (Multiset.le_add_left _ _)

theorem total_set (f : β → Multiset α) (h : l[i]? = some b) (b' : β) :
    total f (l.set i b') + f b = total f l + f b' := by
  induction l generalizing i with
  | nil => simp at h
  | cons c l ih =>
      cases i with
      | zero =>
          obtain rfl : c = b := by simpa using h
          simp only [List.set_cons_zero, total_cons]
          abel
      | succ i =>
          have := ih (i := i) (by simpa using h)
          simp only [List.set_cons_succ, total_cons, add_assoc, this]

theorem map_set {γ : Type*} (k : β → γ) (h : l[i]? = some b) (hk : k b' = k b) :
    (l.set i b').map k = l.map k := by
  obtain ⟨hi, rfl⟩ := List.getElem?_eq_some_iff.mp h
  rw [List.map_set, hk, ← List.getElem_map k (h := by simpa using hi), List.set_getElem_self]

theorem modify_eq_set (h : l[i]? = some b) (g : β → β) : l.modify i g = l.set i (g b) := by
  simp [List.modify_eq_set_getElem?, h]

/-- What is added may depend on the container it is added to. -/
theorem total_modifyFirst_of {s : Multiset α} (h : ∃ b ∈ l, p b)
    (hg : ∀ b ∈ l, p b → f (g b) = f b + s) :
    total f (modifyFirst p g l) = total f l + s := by
  induction l with
  | nil => simp at h
  | cons b l ih =>
      rw [modifyFirst]
      split_ifs with hp
      · rw [total_cons, total_cons, hg b (by simp) hp]
        abel
      · have hl : ∃ b ∈ l, p b := by simpa [hp] using h
        rw [total_cons, total_cons, ih hl fun c hc => hg c (List.mem_cons_of_mem _ hc)]
        abel

theorem total_modifyFirst {s : Multiset α} (h : ∃ b ∈ l, p b) (hg : ∀ b ∈ l, f (g b) = f b + s) :
    total f (modifyFirst p g l) = total f l + s :=
  total_modifyFirst_of h fun b hb _ => hg b hb

theorem getElem?_modifyFirst (h : l[i]? = some b) :
    ∃ b', (modifyFirst p g l)[i]? = some b' ∧ (b' = b ∨ b' = g b) := by
  induction l generalizing i with
  | nil => simp at h
  | cons c l ih =>
      rw [modifyFirst]
      cases i with
      | zero =>
          obtain rfl : c = b := Option.some.inj h
          split_ifs
          · exact ⟨g c, rfl, .inr rfl⟩
          · exact ⟨c, rfl, .inl rfl⟩
      | succ i =>
          split_ifs
          · exact ⟨b, h, .inl rfl⟩
          · exact ih h

theorem mem_modifyFirst (h : b' ∈ modifyFirst p g l) : ∃ b ∈ l, b' = b ∨ b' = g b := by
  induction l with
  | nil => simp [modifyFirst] at h
  | cons b l ih =>
      rw [modifyFirst] at h
      split_ifs at h
      · rcases List.mem_cons.mp h with rfl | h
        · exact ⟨b, by simp, .inr rfl⟩
        · exact ⟨b', List.mem_cons_of_mem _ h, .inl rfl⟩
      · rcases List.mem_cons.mp h with rfl | h
        · exact ⟨b', by simp, .inl rfl⟩
        · obtain ⟨c, hc, ho⟩ := ih h
          exact ⟨c, List.mem_cons_of_mem _ hc, ho⟩

theorem map_modifyFirst {γ : Type*} {k : β → γ} (hg : ∀ b, k (g b) = k b) :
    (modifyFirst p g l).map k = l.map k := by
  induction l with
  | nil => rfl
  | cons b l ih =>
      rw [modifyFirst]
      split_ifs <;> simp [hg, ih]

end

end Lib
