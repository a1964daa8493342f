import Mathlib

/-!
# Lib — Trails

Following a partial choice of next nodes towards a target.  `Trail next d u p v`: the list `p`
starts at `u`, ends at `v`, moves along `next`, and meets `d` at its end if at all.

* `Trail.not_mem`: the nodes before the last are not `d`.
* `Trail.length_le`: a trail that has ended, at `d` or where there is no next node, is a longest
  one from its start.
* `Trail.eq_of_length`: a trail is determined by its start and its length.
* `Trail.nodup`: a trail to the target meets no node twice, so it is no longer than there are nodes
  to start a move from (`Trail.length_le_card`).
* `toGo_hop`: the moves to go to the target, and one move less.
-/

namespace Lib

variable {α : Type*}

/-- `Trail next d u p v`: following `next` from `u` leads along `p` to `v`, and passes `d` only at
the end. -/
inductive Trail (next : α → Option α) (d : α) : α → List α → α → Prop where
  | single (u : α) : Trail next d u [u] u
  | cons {u x v : α} {p : List α}
      (hu : u ≠ d) (h : next u = some x) (t : Trail next d x p v) : Trail next d u (u :: p) v

namespace Trail

variable {next : α → Option α} {d u v x : α} {p q : List α}

theorem ne_nil (h : Trail next d u p v) : p ≠ [] := by
  cases h <;> simp

theorem getLast? (h : Trail next d u p v) : p.getLast? = some v := by
  induction h with
  | single u => rfl
  | cons _ _ _ ih =>
      rw [List.getLast?_cons, ih]; rfl

/-- One more move at the end. -/
theorem concat (h : Trail next d u p v) (hv : v ≠ d) (e : next v = some x) :
    Trail next d u (p ++ [x]) x := by
  induction h with
  | single u => exact .cons hv e (.single x)
  | cons hu e' _ ih => exact .cons hu e' (ih hv e)

/-- A chain of moves, none of them from `d`, is a trail. -/
theorem of_isChain : ∀ {u : α} {p : List α},
    ((u :: p).IsChain fun a b => a ≠ d ∧ next a = some b) → p.getLastD u = v →
    Trail next d u (u :: p) v
  | u, [], _, hv => by
      obtain rfl : u = v := hv
      exact .single u
  | u, x :: p, h, hv => by
      obtain ⟨⟨hu, hx⟩, h⟩ := List.isChain_cons_cons.mp h
      exact .cons hu hx (of_isChain h (by rwa [List.getLastD_cons] at hv))

theorem not_mem (h : Trail next d u (p ++ [x]) v) : d ∉ p := by
  generalize hq : p ++ [x] = q at h
  induction h generalizing p with
  | single u =>
      obtain ⟨rfl, -⟩ := List.append_eq_singleton_iff.mp hq |>.resolve_right (by simp)
      simp
  | @cons u y v q hu _ t ih =>
      cases p with
      | nil =>
          obtain ⟨-, rfl⟩ := List.cons.inj hq
          exact absurd rfl t.ne_nil
      | cons a p =>
          obtain ⟨rfl, hq'⟩ := List.cons.inj hq
          exact List.not_mem_cons_of_ne_of_not_mem hu.symm (ih hq')

/-- A trail that has ended is a longest one. -/
theorem length_le (h : Trail next d u p v) (hv : v = d ∨ next v = none)
    {w : α} (t : Trail next d u q w) : q.length ≤ p.length := by
  induction h generalizing q with
  | single u =>
      cases t with
      | single => rfl
      | cons hu e _ => simp [hu, e] at hv
  | cons hu e s ih =>
      cases t with
      | single => simp
      | cons _ e' t =>
          obtain rfl := Option.some.inj (e.symm.trans e')
          exact Nat.succ_le_succ (ih hv t)

/-- A trail is determined by its start and its length. -/
theorem eq_of_length (h : Trail next d u p v) {w : α} (t : Trail next d u q w)
    (hlen : p.length = q.length) : p = q := by
  induction h generalizing q with
  | single u =>
      cases t with
      | single => rfl
      | cons _ _ t => exact absurd (List.length_eq_zero_iff.mp (by simpa using hlen.symm)) t.ne_nil
  | cons _ e s ih =>
      cases t with
      | single => exact absurd (List.length_eq_zero_iff.mp (by simpa using hlen)) s.ne_nil
      | cons _ e' t =>
          obtain rfl := Option.some.inj (e.symm.trans e')
          rw [ih t (by simpa using hlen)]

/-- The rest of a trail, from a node on it. -/
theorem exists_suffix (h : Trail next d u p v) {w : α} (hw : w ∈ p) :
    ∃ q, q <:+ p ∧ Trail next d w q v := by
  induction h with
  | single u =>
      obtain rfl := List.mem_singleton.mp hw
      exact ⟨[w], List.suffix_rfl, .single w⟩
  | @cons u x v p hu e t ih =>
      rcases List.mem_cons.mp hw with rfl | hw
      · exact ⟨w :: p, List.suffix_rfl, .cons hu e t⟩
      · obtain ⟨q, hq, tq⟩ := ih hw
        exact ⟨q, hq.trans (List.suffix_cons u p), tq⟩

/-- A trail to the target meets no node twice. -/
theorem nodup (h : Trail next d u p v) (hv : v = d) : p.Nodup := by
  induction h with
  | single u => exact List.nodup_singleton u
  | @cons u x v p hu e t ih =>
      refine List.nodup_cons.mpr ⟨fun hmem => ?_, ih hv⟩
      -- the rest from the second visit would be as long as the whole
      obtain ⟨q, hq, tq⟩ := t.exists_suffix hmem
      have hle := tq.length_le (.inl hv) (.cons hu e t)
      have := hq.length_le
      rw [List.length_cons] at hle
      omega

/-- The nodes of a trail other than its end have a next node. -/
theorem next_of_mem_dropLast (h : Trail next d u p v) {w : α} (hw : w ∈ p.dropLast) :
    w ≠ d ∧ ∃ x, next w = some x := by
  induction h with
  | single u => cases hw
  | @cons u x v p hu e t ih =>
      rw [List.dropLast_cons_of_ne_nil t.ne_nil] at hw
      rcases List.mem_cons.mp hw with rfl | hw
      · exact ⟨hu, x, e⟩
      · exact ih hw

/-- A trail that meets no node twice, and the nodes that have a next one. -/
theorem length_le_card [DecidableEq α] {known : Finset α} (h : Trail next d u p v) (hp : p.Nodup)
    (hknown : ∀ w x, next w = some x → w ∈ known) : p.length ≤ (known.erase d).card + 1 := by
  have hsub : ∀ w ∈ p.dropLast, w ∈ known.erase d := by
    intro w hw
    obtain ⟨hne, x, hx⟩ := h.next_of_mem_dropLast hw
    exact Finset.mem_erase.mpr ⟨hne, hknown w x hx⟩
  have hle : p.dropLast.length ≤ (known.erase d).card := by
    rw [← List.toFinset_card_of_nodup (hp.sublist (List.dropLast_sublist p))]
    exact Finset.card_le_card fun w hw => hsub w (List.mem_toFinset.mp hw)
  rw [List.length_dropLast] at hle
  omega

/-- The moves of a trail, after one move more. -/
theorem zip_concat (h : Trail next d u p v) (x : α) :
    (p ++ [x]).zip (p ++ [x]).tail = p.zip p.tail ++ [(v, x)] := by
  induction h with
  | single u => rfl
  | @cons u y v q _ _ t ih =>
      cases q with
      | nil => exact absurd rfl t.ne_nil
      | cons z q => exact congrArg ((u, z) :: ·) ih

/-- There is one trail to the target. -/
theorem unique (h : Trail next d u p d) (t : Trail next d u q d) : p = q :=
  h.eq_of_length t (le_antisymm (t.length_le (.inl rfl) h) (h.length_le (.inl rfl) t))

end Trail

/-! ### The moves to go -/

section
variable {next : α → Option α} {d u x : α} {p : List α}

open scoped Classical in
/-- The number of moves from `u` to `d`, where there is a trail. -/
noncomputable def toGo (next : α → Option α) (d u : α) : ℕ :=
  if h : ∃ p, Trail next d u p d then h.choose.length - 1 else 0

theorem Trail.toGo_eq (h : Trail next d u p d) : toGo next d u = p.length - 1 := by
  have hex : ∃ p, Trail next d u p d := ⟨p, h⟩
  rw [toGo, dif_pos hex, hex.choose_spec.unique h]

/-- A move is one less to go. -/
theorem toGo_hop (hu : u ≠ d) (e : next u = some x) (h : Trail next d x p d) :
    toGo next d u = toGo next d x + 1 := by
  have hp := List.length_pos_iff.mpr h.ne_nil
  rw [h.toGo_eq, (Trail.cons hu e h).toGo_eq, List.length_cons]
  omega

end

end Lib
