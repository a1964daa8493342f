import Mathlib

/-!
# Lib — Pacing

A log of entries with a key and a time, oldest first, and a writer that remembers only the time of
the last entry of each key.

* `lastTime`: that time.
* `Paced`: two entries of one key are at least `gap` apart.
* `Paced.snoc`: it is enough to wait for `gap` after the last one.
-/

namespace Lib

variable {κ T : Type*} [DecidableEq κ] {log : List (κ × T)} {k k' : κ} {t t' now : T}

/-! ### The last entry -/

/-- The time of the last entry with the key. -/
def lastTime (log : List (κ × T)) (k : κ) : Option T :=
  (log.filter fun p => p.1 = k).getLast?.map Prod.snd

@[simp] theorem lastTime_nil (k : κ) : lastTime ([] : List (κ × T)) k = none := rfl

theorem lastTime_snoc (log : List (κ × T)) (k k' : κ) (t : T) :
    lastTime (log ++ [(k', t)]) k = if k' = k then some t else lastTime log k := by
  by_cases hk : k' = k
  · simp [lastTime, hk]
  · simp [lastTime, hk]

theorem mem_of_lastTime (h : lastTime log k = some t) : (k, t) ∈ log := by
  obtain ⟨⟨k', t'⟩, hlast, rfl⟩ := Option.map_eq_some_iff.mp h
  obtain ⟨hmem, hkey⟩ := List.mem_filter.mp (List.mem_of_getLast? hlast)
  obtain rfl : k' = k := of_decide_eq_true hkey
  exact hmem

theorem lastTime_of_mem (h : k ∈ log.map Prod.fst) : ∃ t, lastTime log k = some t := by
  obtain ⟨p, hp, rfl⟩ := List.mem_map.mp h
  refine Option.isSome_iff_exists.mp ?_
  rw [lastTime, Option.isSome_map, Option.isSome_iff_ne_none, Ne, List.getLast?_eq_none_iff]
  exact List.ne_nil_of_mem (List.mem_filter.mpr ⟨hp, decide_eq_true rfl⟩)

theorem lastTime_eq_none : lastTime log k = none ↔ k ∉ log.map Prod.fst := by
  constructor
  · intro h hk
    obtain ⟨t, ht⟩ := lastTime_of_mem hk
    rw [h] at ht
    cases ht
  · intro h
    refine Option.eq_none_iff_forall_ne_some.mpr fun t ht => h ?_
    exact List.mem_map_of_mem (mem_of_lastTime ht)

/-! ### The gap -/

variable [AddCommGroup T] [LinearOrder T] [IsOrderedAddMonoid T] {gap : T}

/-- Entries of one key are in order, with `gap` between them. -/
def Paced (gap : T) (log : List (κ × T)) : Prop :=
  log.Pairwise fun p q => p.1 = q.1 → gap ≤ q.2 - p.2

/-- The last entry is the latest. -/
theorem Paced.le_lastTime (h : Paced gap log) (hgap : 0 ≤ gap) (hmem : (k, t) ∈ log)
    (hlast : lastTime log k = some t') : t ≤ t' := by
  induction log using List.reverseRecOn with
  | nil => cases hmem
  | append_singleton log p ih =>
      obtain ⟨k', now⟩ := p
      obtain ⟨hlog, -, hnow⟩ := List.pairwise_append.mp h
      rw [lastTime_snoc] at hlast
      split_ifs at hlast with hk
      · cases hlast
        rcases List.mem_append.mp hmem with hmem | hmem
        · exact sub_nonneg.mp (hgap.trans (hnow _ hmem _ List.mem_cons_self hk.symm))
        · cases List.mem_singleton.mp hmem
          exact le_rfl
      · rcases List.mem_append.mp hmem with hmem | hmem
        · exact ih hlog hmem hlast
        · cases List.mem_singleton.mp hmem
          exact absurd rfl hk

theorem Paced.snoc (h : Paced gap log) (hgap : 0 ≤ gap)
    (hwait : ∀ t, lastTime log k = some t → gap ≤ now - t) : Paced gap (log ++ [(k, now)]) := by
  refine List.pairwise_append.mpr ⟨h, List.pairwise_singleton _ _, ?_⟩
  rintro ⟨k', t⟩ hp q hq rfl
  cases List.mem_singleton.mp hq
  obtain ⟨t', ht'⟩ := lastTime_of_mem (List.mem_map_of_mem (f := Prod.fst) hp)
  calc gap ≤ now - t' := hwait t' ht'
    _ ≤ now - t := sub_le_sub_left (h.le_lastTime hgap hp ht') now

end Lib
