import Mathlib

/-!
# Lib — BoundedQueue

A queue with room for `cap` items that discards what arrives while it is full, with its history:
what was taken from it, and every arrival with the number of items it found.

* `Queue.Lossy`: the queue is full at most, and what was taken followed by what is held is the list
  of the arrivals that found room.
* `Queue.lossy_run`: it holds after any sequence of arrivals and takes.
-/

namespace Lib

variable {α : Type*}

/-- A queue with a record: what is held, what was taken, and every offer with the length it found.
-/
structure Queue (α : Type*) where
  held : List α
  taken : List α
  arrivals : List (α × ℕ)

/-- What happens to the queue. -/
inductive QueueOp (α : Type*) where
  | offer (x : α)
  | take

namespace Queue

/-- Nothing was offered yet. -/
def start : Queue α := ⟨[], [], []⟩

/-- An offer to a full queue is lost. -/
def step (cap : ℕ) (q : Queue α) : QueueOp α → Queue α
  | .offer x =>
      { q with
        held := if q.held.length < cap then q.held ++ [x] else q.held
        arrivals := q.arrivals ++ [(x, q.held.length)] }
  | .take => { q with held := q.held.tail, taken := q.taken ++ q.held.head?.toList }

/-- The operations one after the other. -/
def run (cap : ℕ) (q : Queue α) (ops : List (QueueOp α)) : Queue α := ops.foldl (step cap) q

/-- The arrivals that found room, in order. -/
def kept (cap : ℕ) (arrivals : List (α × ℕ)) : List (α × ℕ) :=
  arrivals.filter fun p => p.2 < cap

/-- What was taken and what is held are the offers that found room, in order. -/
structure Lossy (cap : ℕ) (q : Queue α) : Prop where
  room : q.held.length ≤ cap
  fifo : q.taken ++ q.held = (kept cap q.arrivals).map Prod.fst
  found : ∀ p ∈ q.arrivals, p.2 ≤ cap

theorem lossy_start (cap : ℕ) : (start : Queue α).Lossy cap := ⟨Nat.zero_le _, rfl, nofun⟩

theorem Lossy.step {cap : ℕ} {q : Queue α} (h : q.Lossy cap) (op : QueueOp α) :
    (q.step cap op).Lossy cap := by
  cases op with
  | offer x =>
      have hfound : ∀ p ∈ q.arrivals ++ [(x, q.held.length)], p.2 ≤ cap := by
        intro p hp
        rcases List.mem_append.mp hp with hp | hp
        · exact h.found p hp
        · exact List.mem_singleton.mp hp ▸ h.room
      by_cases hroom : q.held.length < cap
      · refine ⟨?_, ?_, hfound⟩
        · simp [Queue.step, hroom]
        · simp [Queue.step, kept, hroom, ← List.append_assoc, h.fifo]
      · refine ⟨?_, ?_, hfound⟩
        · simpa [Queue.step, hroom] using h.room
        · simp [Queue.step, kept, hroom, h.fifo]
  | take =>
      refine ⟨(List.tail_sublist q.held).length_le.trans h.room, ?_, h.found⟩
      refine Eq.trans ?_ h.fifo
      cases hq : q.held with
      | nil => simp [Queue.step, hq]
      | cons x held => simp [Queue.step, hq]

theorem Lossy.run {cap : ℕ} {q : Queue α} (h : q.Lossy cap) (ops : List (QueueOp α)) :
    (q.run cap ops).Lossy cap := by
  induction ops generalizing q with
  | nil => exact h
  | cons op ops ih => exact ih (h.step op)

theorem lossy_run (cap : ℕ) (ops : List (QueueOp α)) : ((start : Queue α).run cap ops).Lossy cap :=
  (lossy_start cap).run ops

end Queue

end Lib
