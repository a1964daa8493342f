import Mathlib

/-!
# Lib — Heap

Priority queues, as the list of their items in the order they are popped.  `r` is the order of
the items; `push` needs it total and transitive.  A queue whose items are all distinct under `r`
pops them in one order only, whatever the layout of the heap behind it, so the sorted list is a
complete description of it.

* `mem_push`, `coe_push`: `push` adds one item.
* `pop?_eq_some`: `pop?` returns the first item and leaves the others; `pop?_le`: no item left is
  before the one popped.
-/

namespace Lib

/-- A priority queue of items in `α`, ordered by `r`. -/
structure Heap (α : Type*) (r : α → α → Prop) where
  items : List α
  sorted : items.Pairwise r

namespace Heap

variable {α : Type*} {r : α → α → Prop}

/-- Nothing is on the heap. -/
def empty : Heap α r := ⟨[], List.Pairwise.nil⟩

@[simp] theorem items_empty : (empty : Heap α r).items = [] := rfl

@[ext] theorem ext {h h' : Heap α r} (e : h.items = h'.items) : h = h' := by
  cases h; cases h'; cases e; rfl

/-- The least element, and the heap without it. -/
def pop? (h : Heap α r) : Option (α × Heap α r) :=
  match e : h.items with
  | [] => none
  | x :: xs => some (x, ⟨xs, (e ▸ h.sorted : (x :: xs).Pairwise r).of_cons⟩)

theorem pop?_eq_none {h : Heap α r} : h.pop? = none ↔ h.items = [] := by
  unfold pop?
  split <;> simp_all

theorem pop?_eq_some {h h' : Heap α r} {x : α} :
    h.pop? = some (x, h') ↔ h.items = x :: h'.items := by
  unfold pop?
  split
  · rename_i e; simp [e]
  · rename_i y ys e
    simp only [Option.some.injEq, Prod.mk.injEq, e, List.cons.injEq]
    exact ⟨fun ⟨e₁, e₂⟩ => ⟨e₁, e₂ ▸ rfl⟩, fun ⟨e₁, e₂⟩ => ⟨e₁, Heap.ext e₂⟩⟩

/-- Nothing left in the queue comes before the item popped. -/
theorem pop?_le {h h' : Heap α r} {x y : α} (hp : h.pop? = some (x, h')) (hy : y ∈ h'.items) :
    r x y := by
  have hs := h.sorted
  rw [pop?_eq_some.mp hp] at hs
  exact List.rel_of_pairwise_cons hs hy

section Push
variable [DecidableRel r] [Std.Total r] [IsTrans α r]

/-- The heap with one more element. -/
def push (x : α) (h : Heap α r) : Heap α r :=
  ⟨h.items.orderedInsert r x, List.Pairwise.orderedInsert x h.items h.sorted⟩

theorem perm_push (x : α) (h : Heap α r) : (h.push x).items.Perm (x :: h.items) :=
  List.perm_orderedInsert r x h.items

theorem mem_push {x y : α} {h : Heap α r} : y ∈ (h.push x).items ↔ y = x ∨ y ∈ h.items :=
  List.mem_orderedInsert r

theorem length_push (x : α) (h : Heap α r) : (h.push x).items.length = h.items.length + 1 :=
  List.orderedInsert_length r h.items x

/-- A filter does not see a pushed item that it rejects. -/
theorem filter_push {p : α → Bool} {x : α} (hx : p x = false) (h : Heap α r) :
    (h.push x).items.filter p = h.items.filter p := by
  have hitems : (h.push x).items = _ := List.orderedInsert_eq_take_drop r x h.items
  rw [hitems, List.filter_append, List.filter_cons, if_neg (by simp [hx]), ← List.filter_append,
    List.takeWhile_append_dropWhile]

theorem coe_push (x : α) (h : Heap α r) :
    ((h.push x).items : Multiset α) = x ::ₘ (h.items : Multiset α) :=
  Multiset.coe_eq_coe.mpr (perm_push x h)

end Push

end Heap

end Lib
