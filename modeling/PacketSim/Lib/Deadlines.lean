import Mathlib

/-!
# Lib — Deadlines

Rounds, each at a time, that let go of what they find past its due time and then may accept one
thing more.

* `unpassed`: what was accepted and has not been let go, described without a queue: no later round
  came after its due time.
* `Served`: every round lets go of exactly the things it is the first to come after.
* `Served.perm`: then each thing accepted has been let go once, or has not been passed.
-/

namespace Lib

variable {ι α T : Type*} [LT T] [DecidableLT T]
variable (time : ι → T) (due : α → T) (accepted : ι → Option α)

/-- The things accepted in the rounds whose due time no later round has passed, in order. -/
def unpassed : List ι → List α
  | [] => []
  | r :: later =>
      ((accepted r).filter fun a => later.all fun r' => !decide (due a < time r')).toList ++
        unpassed later

/-- The next round lets go of what it passes, and adds what it accepts. -/
theorem unpassed_snoc (rounds : List ι) (r : ι) :
    unpassed time due accepted (rounds ++ [r]) =
      (unpassed time due accepted rounds).filter (fun a => !decide (due a < time r)) ++
        (accepted r).toList := by
  induction rounds with
  | nil => cases h : accepted r <;> simp [unpassed, h]
  | cons r' later ih =>
      rw [List.cons_append, unpassed, ih, unpassed, List.filter_append, List.append_assoc]
      congr 1
      cases accepted r' with
      | none => rfl
      | some a =>
          simp only [Option.filter_some, List.all_append, List.all_cons, List.all_nil,
            Bool.and_true]
          cases hlater : later.all fun r' => !decide (due a < time r') with
          | false => rfl
          | true => cases hr : !decide (due a < time r) <;> simp [hr]

/-- `sent` says what each round lets go of: what waits when it starts and is due before it. -/
def Served (sent : ι → List α) (rounds : List ι) : Prop :=
  ∀ before r after, rounds = before ++ r :: after →
    sent r = (unpassed time due accepted before).filter fun a => due a < time r

variable {time due accepted} {sent : ι → List α} {rounds : List ι} {r : ι}

theorem served_nil : Served time due accepted sent [] := by
  intro before r after h
  simp at h

theorem Served.snoc (h : Served time due accepted sent rounds)
    (hr : sent r = (unpassed time due accepted rounds).filter fun a => due a < time r) :
    Served time due accepted sent (rounds ++ [r]) := by
  intro before r' after heq
  rcases List.eq_nil_or_concat after with rfl | ⟨after, r'', rfl⟩
  · obtain ⟨rfl, hlast⟩ := List.append_inj' heq rfl
    obtain rfl := List.singleton_inj.mp hlast
    exact hr
  · have hsplit : rounds ++ [r] = (before ++ r' :: after) ++ [r''] := by
      rw [heq, List.concat_eq_append, List.append_assoc, List.cons_append]
    obtain ⟨hrounds, -⟩ := List.append_inj' hsplit rfl
    exact h before r' after hrounds

theorem Served.init (h : Served time due accepted sent (rounds ++ [r])) :
    Served time due accepted sent rounds ∧
      sent r = (unpassed time due accepted rounds).filter fun a => due a < time r := by
  refine ⟨fun before r' after heq => h before r' (after ++ [r]) ?_, h rounds r [] rfl⟩
  rw [heq, List.append_assoc, List.cons_append]

/-- Nothing is lost, and nothing let go twice. -/
theorem Served.perm (h : Served time due accepted sent rounds) :
    (rounds.flatMap sent ++ unpassed time due accepted rounds).Perm
      (rounds.filterMap accepted) := by
  induction rounds using List.reverseRecOn with
  | nil => exact .refl _
  | append_singleton rounds r ih =>
      obtain ⟨hinit, hr⟩ := h.init
      have hlast : [r].filterMap accepted = (accepted r).toList := by
        cases h : accepted r <;> simp [h]
      rw [List.flatMap_append, List.flatMap_singleton, unpassed_snoc, hr, List.filterMap_append,
        hlast, List.append_assoc, ← List.append_assoc (List.filter _ _)]
      -- what the round lets go and what it keeps are what waited
      have hsplit := List.filter_append_perm (fun a => decide (due a < time r))
        (unpassed time due accepted rounds)
      refine ((hsplit.append_right _).append_left _).trans ?_
      rw [← List.append_assoc]
      exact (ih hinit).append_right _

end Lib
