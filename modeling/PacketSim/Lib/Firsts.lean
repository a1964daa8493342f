import Mathlib

/-!
# Lib — Firsts

A loop over a list that emits an item under its key, unless the key was emitted before.  `firsts`
is the list of the items it emits.

* `foldl_emitNew`: the loop, with the keys emitted so far beside what is emitted.
* `nodup_keys_firsts`, `mem_keys_firsts`: every key of the list is emitted, and none twice.
-/

namespace Lib

variable {α β κ : Type*} [DecidableEq κ]

/-- The items of a list whose key is neither in `emitted` nor the key of an earlier item. -/
def firsts (key : α → κ) : List κ → List α → List α
  | _, [] => []
  | emitted, x :: l =>
      if key x ∈ emitted then firsts key emitted l else x :: firsts key (emitted ++ [key x]) l

/-- One turn of the loop. -/
def emitNew (key : α → κ) (emit : α → β) (acc : List κ × List β) (x : α) : List κ × List β :=
  if key x ∈ acc.1 then acc else (acc.1 ++ [key x], acc.2 ++ [emit x])

theorem foldl_emitNew (key : α → κ) (emit : α → β) (l : List α) (emitted : List κ)
    (out : List β) :
    l.foldl (emitNew key emit) (emitted, out) =
      (emitted ++ (firsts key emitted l).map key, out ++ (firsts key emitted l).map emit) := by
  induction l generalizing emitted out with
  | nil => simp [firsts]
  | cons x l ih =>
      rw [List.foldl_cons]
      by_cases hx : key x ∈ emitted
      · rw [emitNew, if_pos hx, ih, firsts, if_pos hx]
      · rw [emitNew, if_neg hx, ih, firsts, if_neg hx]
        simp

theorem firsts_subset (key : α → κ) (emitted : List κ) (l : List α) : firsts key emitted l ⊆ l := by
  induction l generalizing emitted with
  | nil => exact List.Subset.refl _
  | cons x l ih =>
      intro y hy
      rw [firsts] at hy
      split at hy
      · exact List.mem_cons_of_mem _ (ih _ hy)
      · cases hy with
        | head => exact List.mem_cons_self
        | tail _ hy => exact List.mem_cons_of_mem _ (ih _ hy)

theorem mem_keys_firsts {key : α → κ} {emitted : List κ} {l : List α} {k : κ} :
    k ∈ (firsts key emitted l).map key ↔ k ∉ emitted ∧ k ∈ l.map key := by
  induction l generalizing emitted with
  | nil => simp [firsts]
  | cons x l ih =>
      rw [firsts]
      split
      · rename_i hx
        rw [ih, List.map_cons, List.mem_cons]
        exact ⟨fun ⟨hk, hl⟩ => ⟨hk, Or.inr hl⟩,
          fun ⟨hk, hl⟩ => ⟨hk, hl.resolve_left fun e => hk (e ▸ hx)⟩⟩
      · rename_i hx
        rw [List.map_cons, List.mem_cons, ih, List.map_cons, List.mem_cons, List.mem_append,
          List.mem_singleton]
        by_cases e : k = key x
        · exact ⟨fun _ => ⟨e ▸ hx, Or.inl e⟩, fun _ => Or.inl e⟩
        · tauto

theorem nodup_keys_firsts (key : α → κ) (emitted : List κ) (l : List α) :
    ((firsts key emitted l).map key).Nodup := by
  induction l generalizing emitted with
  | nil => exact List.nodup_nil
  | cons x l ih =>
      rw [firsts]
      split
      · exact ih emitted
      · rw [List.map_cons, List.nodup_cons]
        refine ⟨fun h => ?_, ih _⟩
        exact (mem_keys_firsts.mp h).1 (by simp)

end Lib
