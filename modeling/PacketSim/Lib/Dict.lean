import Mathlib

/-!
# Lib — Dict

Dictionaries in insertion order.  `insert` overwrites the value of a key it finds, where the key
stands, and appends a key it does not find; iteration (`keys`, `values`) follows the order of the
entries.  No key occurs twice: that is a field of the structure.

* `get?_insert`, `get?_modify`, `get?_map`: a lookup after each operation.
* `keys_insert`, `keys_modify`, `keys_map`: what each operation does to the keys.
* `entries_modify`: `modify` at a key touches one entry and leaves the others in place.
-/

namespace Lib

/-- A dictionary with keys in `κ` and values in `ν`, in insertion order. -/
structure Dict (κ ν : Type*) where
  entries : List (κ × ν)
  nodup : (entries.map Prod.fst).Nodup

namespace Dict

variable {κ ν μ : Type*}

/-- The keys, in the order they were first inserted. -/
def keys (d : Dict κ ν) : List κ := d.entries.map Prod.fst

/-- The values, in the order of the keys. -/
def values (d : Dict κ ν) : List ν := d.entries.map Prod.snd

/-- The dictionary with no key. -/
def empty : Dict κ ν := ⟨[], List.nodup_nil⟩

/-- The same keys, each value replaced by `f key value`. -/
def map (f : κ → ν → μ) (d : Dict κ ν) : Dict κ μ where
  entries := d.entries.map fun p => (p.1, f p.1 p.2)
  nodup := by simpa [List.map_map, Function.comp_def] using d.nodup

section Lookup
variable [DecidableEq κ]

/-- The value at a key. -/
def get? (d : Dict κ ν) (k : κ) : Option ν := d.entries.lookup k

/-- The value at `k`, if there is one, replaced by `f` of it. -/
def modify (k : κ) (f : ν → ν) (d : Dict κ ν) : Dict κ ν :=
  d.map fun j v => if j = k then f v else v

/-- A key that is there keeps its place; a new one comes last. -/
def insert (k : κ) (v : ν) (d : Dict κ ν) : Dict κ ν :=
  if h : k ∈ d.keys then d.modify k fun _ => v
  else ⟨d.entries ++ [(k, v)], by
    rw [List.map_append]
    exact List.Nodup.append d.nodup (List.nodup_singleton k)
      (List.disjoint_singleton.mpr h)⟩

/-- The dictionary a literal builds: entries inserted from left to right. -/
def ofList (l : List (κ × ν)) : Dict κ ν := l.foldl (fun d p => d.insert p.1 p.2) empty

end Lookup

/-! ### Keys and entries -/

theorem keys_nodup (d : Dict κ ν) : d.keys.Nodup := d.nodup

@[simp] theorem keys_empty : (empty : Dict κ ν).keys = [] := rfl

@[simp] theorem keys_map (f : κ → ν → μ) (d : Dict κ ν) : (d.map f).keys = d.keys := by
  simp [keys, map, List.map_map, Function.comp_def]

@[ext] theorem ext {d d' : Dict κ ν} (h : d.entries = d'.entries) : d = d' := by
  cases d; cases d'; cases h; rfl

theorem map_map {ρ : Type*} (f : κ → ν → μ) (g : κ → μ → ρ) (d : Dict κ ν) :
    (d.map f).map g = d.map fun k v => g k (f k v) := by
  ext1; simp [map, List.map_map, Function.comp_def]

@[simp] theorem map_id (d : Dict κ ν) : (d.map fun _ v => v) = d := by
  ext1; simp [map]

/-- Two maps that agree on the entries of `d` give the same dictionary. -/
theorem map_congr {f g : κ → ν → μ} {d : Dict κ ν} (h : ∀ p ∈ d.entries, f p.1 p.2 = g p.1 p.2) :
    d.map f = d.map g := by
  ext1
  exact List.map_congr_left fun p hp => by rw [h p hp]

section Lookup
variable [DecidableEq κ]

/-- A lookup finds `v` at `k` exactly when the entry `(k, v)` is there. -/
theorem get?_eq_some {d : Dict κ ν} {k : κ} {v : ν} : d.get? k = some v ↔ (k, v) ∈ d.entries := by
  rw [get?, List.lookup_eq_some_iff]
  constructor
  · rintro ⟨l₁, l₂, e, -⟩
    rw [e]; simp
  · intro h
    obtain ⟨l₁, l₂, e⟩ := List.append_of_mem h
    refine ⟨l₁, l₂, e, fun p hp => ?_⟩
    have hn := d.nodup
    rw [e, List.map_append, List.map_cons] at hn
    have hk : k ∉ l₁.map Prod.fst := fun hk =>
      (List.nodup_append.mp hn).2.2 k hk k (by simp) rfl
    rw [bne_iff_ne]
    exact fun e => hk (e ▸ List.mem_map_of_mem (f := Prod.fst) hp)

theorem get?_eq_none {d : Dict κ ν} {k : κ} : d.get? k = none ↔ k ∉ d.keys := by
  simp only [get?, List.lookup_eq_none_iff, keys, List.mem_map, not_exists, not_and, bne_iff_ne,
    ne_eq]
  exact ⟨fun h p hp e => h p hp e.symm, fun h p hp e => h p hp e.symm⟩

theorem mem_keys {d : Dict κ ν} {k : κ} : k ∈ d.keys ↔ ∃ v, d.get? k = some v := by
  rw [← Option.ne_none_iff_exists', ne_eq, get?_eq_none, not_not]

theorem mem_keys_of_get? {d : Dict κ ν} {k : κ} {v : ν} (h : d.get? k = some v) : k ∈ d.keys :=
  mem_keys.mpr ⟨v, h⟩

@[simp] theorem get?_empty (k : κ) : (empty : Dict κ ν).get? k = none := rfl

@[simp] theorem get?_map (f : κ → ν → μ) (d : Dict κ ν) (k : κ) :
    (d.map f).get? k = (d.get? k).map (f k) := by
  cases h : d.get? k with
  | none => rw [Option.map_none, get?_eq_none, keys_map]; exact get?_eq_none.mp h
  | some v =>
      rw [Option.map_some, get?_eq_some]
      exact List.mem_map.mpr ⟨(k, v), get?_eq_some.mp h, rfl⟩

@[simp] theorem keys_modify (k : κ) (f : ν → ν) (d : Dict κ ν) : (d.modify k f).keys = d.keys :=
  keys_map _ d

theorem get?_modify (k j : κ) (f : ν → ν) (d : Dict κ ν) :
    (d.modify k f).get? j = if j = k then (d.get? j).map f else d.get? j := by
  rw [modify, get?_map]
  split <;> simp

@[simp] theorem get?_modify_self (k : κ) (f : ν → ν) (d : Dict κ ν) :
    (d.modify k f).get? k = (d.get? k).map f := by
  rw [get?_modify, if_pos rfl]

/-- A change at one key that `g` does not see. -/
theorem map_modify {d : Dict κ ν} {k : κ} {v : ν} (h : d.get? k = some v) {g : ν → μ} {f : ν → ν}
    (hf : g (f v) = g v) : ((d.modify k f).map fun _ => g) = d.map fun _ => g := by
  rw [modify, map_map]
  refine map_congr fun p hp => ?_
  split
  · rename_i hk
    obtain rfl : p.2 = v := Option.some.inj ((get?_eq_some.mpr (hk ▸ hp)).symm.trans h)
    exact hf
  · rfl

/-- A change at one key, before or after a map. -/
theorem modify_map {d : Dict κ ν} {k : κ} {g : ν → μ} {f : ν → ν} {f' : μ → μ}
    (hf : ∀ v, f' (g v) = g (f v)) :
    (d.map fun _ => g).modify k f' = (d.modify k f).map fun _ => g := by
  rw [modify, modify, map_map, map_map]
  refine map_congr fun p _ => ?_
  split
  · exact hf p.2
  · rfl

theorem get?_insert (k j : κ) (v : ν) (d : Dict κ ν) :
    (d.insert k v).get? j = if j = k then some v else d.get? j := by
  unfold insert
  split
  · rename_i h
    rw [get?_modify]
    obtain ⟨u, hu⟩ := mem_keys.mp h
    by_cases e : j = k
    · subst e; simp [hu]
    · rw [if_neg e, if_neg e]
  · rename_i h
    rw [← get?_eq_none] at h
    rw [get?, List.lookup_append]
    by_cases e : j = k
    · subst e
      rw [if_pos rfl, show d.entries.lookup j = none from h]
      simp
    · have hb : (j == k) = false := beq_eq_false_iff_ne.mpr e
      simp [e, get?, List.lookup_cons, hb]

theorem keys_insert (k : κ) (v : ν) (d : Dict κ ν) :
    (d.insert k v).keys = if k ∈ d.keys then d.keys else d.keys ++ [k] := by
  unfold insert
  split
  · simp
  · simp [keys]

theorem mem_keys_insert {k j : κ} {v : ν} {d : Dict κ ν} :
    j ∈ (d.insert k v).keys ↔ j = k ∨ j ∈ d.keys := by
  rw [keys_insert]
  split
  · rename_i h
    exact ⟨Or.inr, fun o => o.elim (fun e => e ▸ h) id⟩
  · simp [or_comm]

/-- The entries before and after the one `modify` changes. -/
theorem entries_modify {d : Dict κ ν} {k : κ} {v : ν} (h : d.get? k = some v) :
    ∃ l₁ l₂, d.entries = l₁ ++ (k, v) :: l₂ ∧
      ∀ f, (d.modify k f).entries = l₁ ++ (k, f v) :: l₂ := by
  obtain ⟨l₁, l₂, e⟩ := List.append_of_mem (get?_eq_some.mp h)
  have hn := d.nodup
  rw [e, List.map_append, List.map_cons] at hn
  have off : ∀ p ∈ l₁ ++ l₂, p.1 ≠ k := by
    intro p hp ep
    have hk : (k :: (l₁.map Prod.fst ++ l₂.map Prod.fst)).Nodup :=
      List.perm_middle.nodup_iff.mp hn
    rw [← List.map_append, List.nodup_cons] at hk
    exact hk.1 (ep ▸ List.mem_map_of_mem (f := Prod.fst) hp)
  refine ⟨l₁, l₂, e, fun f => ?_⟩
  have side : ∀ l : List (κ × ν), (∀ p ∈ l, p.1 ≠ k) →
      (l.map fun p => (p.1, if p.1 = k then f p.2 else p.2)) = l := fun l hl =>
    (List.map_congr_left fun p hp => by rw [if_neg (hl p hp)]; rfl).trans (List.map_id l)
  have h₁ := side l₁ fun p hp => off p (List.mem_append_left _ hp)
  have h₂ := side l₂ fun p hp => off p (List.mem_append_right _ hp)
  simp only [modify, map, e, List.map_append, List.map_cons, if_true, h₁, h₂]

end Lookup

end Dict

end Lib
