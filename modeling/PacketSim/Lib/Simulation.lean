import Mathlib

/-!
# Lib — Simulation

Two machines, each a step function folded over a list, and a relation between their states.  Where
every step of the first is some steps of the second, so is every run.
-/

namespace Lib

variable {S T A B : Type*} {f : S → A → S} {g : T → B → T} {R : S → T → Prop}

/-- The second machine follows the first as long as what is ahead is allowed from where it is. -/
theorem exists_run (allowed : T → List A → Prop)
    (hstep : ∀ s t a as, R s t → allowed t (a :: as) →
      ∃ bs : List B, R (f s a) (bs.foldl g t) ∧ allowed (bs.foldl g t) as)
    {s : S} {t : T} (h : R s t) (as : List A) (has : allowed t as) :
    ∃ bs : List B, R (as.foldl f s) (bs.foldl g t) := by
  induction as generalizing s t with
  | nil => exact ⟨[], h⟩
  | cons a as ih =>
      obtain ⟨bs, hnext, hrest⟩ := hstep s t a as h has
      obtain ⟨bs', hrun⟩ := ih hnext hrest
      refine ⟨bs ++ bs', ?_⟩
      rw [List.foldl_append]
      exact hrun

/-- Every step of the first machine is a run of the second. -/
def Simulates (f : S → A → S) (g : T → B → T) (R : S → T → Prop) : Prop :=
  ∀ s t a, R s t → ∃ bs : List B, R (f s a) (bs.foldl g t)

theorem Simulates.run (hsim : Simulates f g R) {s : S} {t : T} (h : R s t) (as : List A) :
    ∃ bs : List B, R (as.foldl f s) (bs.foldl g t) := by
  refine exists_run (fun _ _ => True) (fun s t a _ hst _ => ?_) h as trivial
  obtain ⟨bs, hnext⟩ := hsim s t a hst
  exact ⟨bs, hnext, trivial⟩

end Lib
