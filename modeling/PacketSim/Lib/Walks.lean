import Mathlib

/-!
# Lib — Walks

Walks in a weighted graph.  `w u v = some c` says that the graph has an edge from `u` to `v` of
weight `c`.  `Walk w u v p c`: the list `p` runs from `u` to `v` along edges, and its edges weigh
`c` together.  `Shortest w u v c`: some walk from `u` to `v` weighs `c` and none weighs less.

* `Walk.append`, `Walk.concat`, `Walk.reverse`: how walks compose.
* `exists_shortest`: over non-negative integers, a shortest walk exists where a walk does.
* `Shortest.tail`: a shortest walk, less its first edge, is a shortest walk.
* `Walk.nodup_of_shortest`: with positive weights, the beginning of a shortest walk meets no vertex
  twice.
* `Descends`: a choice of one next vertex at each vertex, each lying on a shortest walk to `d`.
  Following it (`follow`) is itself a shortest walk to `d`, with no vertex twice
  (`Descends.follow_shortest`), whichever shortest walks the choices were read from.
-/

namespace Lib

variable {V W : Type*}

/-- `p` lists the vertices of a walk from `u` to `v` whose edges weigh `c` together. -/
inductive Walk [AddCommMonoid W] (w : V → V → Option W) : V → V → List V → W → Prop where
  | single (u : V) : Walk w u u [u] 0
  | cons {u x v : V} {p : List V} {c d : W}
      (h : w u x = some c) (t : Walk w x v p d) : Walk w u v (u :: p) (c + d)

namespace Walk

section
variable [AddCommMonoid W] {w : V → V → Option W} {u v x : V} {p q : List V} {c d : W}

theorem head? (h : Walk w u v p c) : p.head? = some u := by
  cases h <;> rfl

theorem ne_nil (h : Walk w u v p c) : p ≠ [] := by
  cases h <;> simp

theorem getLast? (h : Walk w u v p c) : p.getLast? = some v := by
  induction h with
  | single u => rfl
  | cons _ t ih =>
      rw [List.getLast?_cons, ih]; rfl

theorem right_mem (h : Walk w u v p c) : v ∈ p := by
  induction h with
  | single u => simp
  | cons _ _ ih => exact List.mem_cons_of_mem _ ih

theorem append (h : Walk w u x p c) (t : Walk w x v q d) :
    Walk w u v (p ++ q.tail) (c + d) := by
  induction h with
  | single u =>
      rw [zero_add]
      cases t with
      | single => exact .single _
      | cons e t => exact .cons e t
  | cons e _ ih => rw [add_assoc]; exact .cons e (ih t)

/-- One more edge at the end. -/
theorem concat (h : Walk w u x p c) (e : w x v = some d) : Walk w u v (p ++ [v]) (c + d) := by
  simpa using h.append (.cons e (.single v))

/-- The list determines the weight. -/
theorem unique (h : Walk w u v p c) : ∀ {d : W}, Walk w u v p d → c = d := by
  induction h with
  | single u =>
      intro d h'
      cases h' with
      | single => rfl
      | cons _ t => exact absurd rfl t.ne_nil
  | cons e t ih =>
      intro d h'
      cases h' with
      | single => exact absurd rfl t.ne_nil
      | cons e' t' =>
          obtain rfl := Option.some.inj (t.head?.symm.trans t'.head?)
          obtain rfl := Option.some.inj (e.symm.trans e')
          rw [ih t']

/-- A walk over edges of weight at most `b` weighs at most `b` an edge. -/
theorem le_length {w : V → V → Option ℤ} {b : ℤ} (hw : ∀ u v c, w u v = some c → c ≤ b) {u v : V}
    {p : List V} {c : ℤ} (h : Walk w u v p c) : c ≤ (p.length - 1) * b := by
  induction h with
  | single u => simp
  | @cons u x v p c d e t ih =>
      have hc := hw _ _ _ e
      calc c + d ≤ b + (p.length - 1) * b := add_le_add hc ih
        _ = ((u :: p).length - 1) * b := by push_cast [List.length_cons]; ring

/-- Where every edge runs both ways, so does every walk. -/
theorem reverse (hw : ∀ a b, w a b = w b a) (h : Walk w u v p c) : Walk w v u p.reverse c := by
  induction h with
  | single u => exact .single u
  | cons e _ ih =>
      rw [List.reverse_cons, add_comm]
      exact ih.concat (by rw [hw, e])

/-- A walk passes through each of its vertices. -/
theorem through (h : Walk w u v p c) :
    ∀ {x : V}, x ∈ p → ∃ q r a b, Walk w u x q a ∧ Walk w x v r b ∧ a + b = c := by
  induction h with
  | single u =>
      intro x hx
      obtain rfl := List.mem_singleton.mp hx
      exact ⟨_, _, _, _, .single x, .single x, add_zero 0⟩
  | @cons u y v p c d e t ih =>
      intro x hx
      rcases List.mem_cons.mp hx with rfl | hx
      · exact ⟨_, _, _, _, .single x, .cons e t, zero_add _⟩
      · obtain ⟨q, r, a, b, hq, hr, rfl⟩ := ih hx
        exact ⟨_, r, _, b, .cons e hq, hr, add_assoc c a b⟩

end

theorem nonneg [AddCommMonoid W] [LinearOrder W] [IsOrderedCancelAddMonoid W]
    {w : V → V → Option W} {u v : V} {p : List V} {c : W}
    (hw : ∀ a b c, w a b = some c → 0 ≤ c) (h : Walk w u v p c) : 0 ≤ c := by
  induction h with
  | single => exact le_refl 0
  | cons e _ ih => exact add_nonneg (hw _ _ _ e) ih

end Walk

section Shortest
variable [AddCommMonoid W] [LinearOrder W]

/-- The least weight of a walk from `u` to `v` is `c`. -/
def Shortest (w : V → V → Option W) (u v : V) (c : W) : Prop :=
  (∃ p, Walk w u v p c) ∧ ∀ p c', Walk w u v p c' → c ≤ c'

variable {w : V → V → Option W} {u v x : V} {a c d : W}

theorem Shortest.unique (h : Shortest w u v c) (h' : Shortest w u v d) : c = d := by
  obtain ⟨⟨p, hp⟩, hmin⟩ := h
  obtain ⟨⟨q, hq⟩, hmin'⟩ := h'
  exact le_antisymm (hmin q d hq) (hmin' p c hp)

theorem shortest_self [IsOrderedCancelAddMonoid W] (hw : ∀ a b c, w a b = some c → 0 ≤ c) :
    Shortest w u u 0 :=
  ⟨⟨_, .single u⟩, fun _ _ h => h.nonneg hw⟩

/-- A shortest walk, less its first edge. -/
theorem Shortest.tail [IsOrderedCancelAddMonoid W] (h : Shortest w u v (a + d))
    (e : w u x = some a) {p : List V} (t : Walk w x v p d) : Shortest w x v d :=
  ⟨⟨p, t⟩, fun _ _ t' => le_of_add_le_add_left (h.2 _ _ (.cons e t'))⟩

/-- Over non-negative integers, where there is a walk there is a shortest one. -/
theorem exists_shortest {w : V → V → Option ℤ} (hw : ∀ a b c, w a b = some c → 0 ≤ c) {u v : V}
    {p : List V} {c : ℤ} (h : Walk w u v p c) : ∃ d, Shortest w u v d := by
  obtain ⟨d, hd, hmin⟩ := Int.exists_least_of_bdd (P := fun d => ∃ p, Walk w u v p d)
    ⟨0, fun d hd => hd.elim fun p hp => hp.nonneg hw⟩ ⟨c, p, h⟩
  exact ⟨d, hd, fun p c' hp => hmin c' ⟨p, hp⟩⟩

end Shortest

section Prefix
variable [AddCommMonoid W] [LinearOrder W] [IsOrderedCancelAddMonoid W] {w : V → V → Option W}

/-- Where all edges weigh something, a walk that a shortest walk begins with meets no vertex
twice. -/
theorem Walk.nodup_of_shortest (hw : ∀ a b c, w a b = some c → 0 < c) {u v t : V} {p : List V}
    {c d : W} (h : Walk w u v p c) (hd : Shortest w v t d) :
    Shortest w u t (c + d) → p.Nodup := by
  have hw' : ∀ a b c, w a b = some c → 0 ≤ c := fun a b c e => (hw a b c e).le
  induction h with
  | single u => exact fun _ => List.nodup_singleton u
  | @cons u x v p a c e s ih =>
      intro hu
      obtain ⟨q, hq⟩ := hd.1
      rw [add_assoc] at hu
      have hx : Shortest w x t (c + d) := hu.tail e (s.append hq)
      refine List.nodup_cons.mpr ⟨fun hup => ?_, ih hd hx⟩
      -- the rest of the walk comes back to `u`, and is shorter from there
      obtain ⟨_, r, b, b', hb, hb', rfl⟩ := s.through hup
      have hle : a + (b + b' + d) ≤ b' + d := hu.2 _ _ (hb'.append hq)
      have hlt : b' + d < a + (b + b' + d) := by
        have hb0 := hb.nonneg hw'
        have ha0 := hw _ _ _ e
        calc b' + d ≤ b + b' + d := by gcongr; exact le_add_of_nonneg_left hb0
          _ < a + (b + b' + d) := lt_add_of_pos_left _ ha0
      exact absurd hlt (not_lt.mpr hle)

end Prefix

/-! ### Following a choice of next vertices -/

/-- The vertices visited by moving to `next` until `d` is reached, in at most `n` moves. -/
def follow [DecidableEq V] (next : V → Option V) (d : V) : ℕ → V → Option (List V)
  | n, u =>
    if u = d then some [u] else
      match n with
      | 0 => none
      | n + 1 => (next u).bind fun x => (follow next d n x).map (u :: ·)

/-- A vertex on the way cuts it: up to there, the way stays among vertices other than `d`. -/
theorem follow_cut [DecidableEq V] {next : V → Option V} {d f : V} (hf : f ≠ d) :
    ∀ {n : ℕ} {u : V} {p : List V}, follow next d n u = some p → f ∈ p →
      ∃ S : List V, u ∈ S ∧ d ∉ S ∧ ∀ v ∈ S, v ≠ f → ∃ x ∈ S, next v = some x := by
  intro n
  induction n with
  | zero =>
      intro u p hp hfp
      unfold follow at hp
      split_ifs at hp with hu
      cases hp
      exact absurd ((List.mem_singleton.mp hfp).trans hu) hf
  | succ n ih =>
      intro u p hp hfp
      unfold follow at hp
      split_ifs at hp with hu
      · cases hp
        exact absurd ((List.mem_singleton.mp hfp).trans hu) hf
      · obtain ⟨x, hx, hp⟩ := Option.bind_eq_some_iff.mp hp
        obtain ⟨q, hq, rfl⟩ := Option.map_eq_some_iff.mp hp
        by_cases huf : u = f
        · exact ⟨[u], by simp, by simpa using Ne.symm hu, by simp [huf]⟩
        · have hfq : f ∈ q := (List.mem_cons.mp hfp).resolve_left (Ne.symm huf)
          obtain ⟨S, hxS, hdS, hS⟩ := ih hq hfq
          refine ⟨u :: S, by simp, by simp [Ne.symm hu, hdS], fun v hv hvf => ?_⟩
          rcases List.mem_cons.mp hv with rfl | hv
          · exact ⟨x, List.mem_cons_of_mem _ hxS, hx⟩
          · obtain ⟨y, hy, hvy⟩ := hS v hv hvf
            exact ⟨y, List.mem_cons_of_mem _ hy, hvy⟩

section Descends
variable [AddCommMonoid W] [LinearOrder W] [IsOrderedCancelAddMonoid W] [DecidableEq V]

/-- Every vertex of `nodes` but `d` has a next vertex, in `nodes`, at the start of some shortest
walk to `d`. -/
def Descends (w : V → V → Option W) (nodes : Finset V) (next : V → Option V) (d : V) : Prop :=
  ∀ u ∈ nodes, u ≠ d → ∃ x ∈ nodes, next u = some x ∧
    ∃ a c, w u x = some a ∧ Shortest w x d c ∧ Shortest w u d (a + c)

/-- **Following a descending choice.**  From any vertex the walk it takes reaches `d`, weighs no
more than any walk to `d`, and visits no vertex twice.  The induction is on the number of
vertices strictly nearer to `d`: each move leaves at least one of them behind. -/
theorem Descends.follow_shortest {w : V → V → Option W} {nodes : Finset V} {next : V → Option V}
    {d : V} (hw : ∀ a b c, w a b = some c → 0 < c) (hd : Descends w nodes next d) :
    ∀ (n : ℕ) (N : Finset V) (u : V) (c : W), u ∈ N → N ⊆ nodes → Shortest w u d c →
      (∀ x ∈ nodes, ∀ b, Shortest w x d b → b < c → x ∈ N) → N.card ≤ n + 1 →
      ∃ p, follow next d n u = some p ∧ Walk w u d p c ∧ p.Nodup ∧ p.length ≤ n + 1 ∧
        ∀ x ∈ p, ∃ b, Shortest w x d b ∧ b ≤ c := by
  have hw' : ∀ a b c, w a b = some c → 0 ≤ c := fun a b c e => (hw a b c e).le
  intro n
  induction n with
  | zero =>
      intro N u c hu hN hc hnear hcard
      by_cases e : u = d
      · subst e
        obtain rfl := hc.unique (shortest_self hw')
        exact ⟨[u], by simp [follow], .single u, by simp, by simp, by simpa using ⟨_, hc, le_rfl⟩⟩
      · -- the next vertex would be a second member of `N`
        exfalso
        obtain ⟨x, hx, -, a, b, ha, hb, hab⟩ := hd u (hN hu) e
        have hlt : b < c := by rw [hc.unique hab]; exact lt_add_of_pos_left b (hw _ _ _ ha)
        have hxN := hnear x hx b hb hlt
        have hxu : x ≠ u := by rintro rfl; exact hlt.ne (hb.unique hc)
        have := Finset.card_le_one.mp hcard x hxN u hu
        exact hxu this
  | succ n ih =>
      intro N u c hu hN hc hnear hcard
      by_cases e : u = d
      · subst e
        obtain rfl := hc.unique (shortest_self hw')
        exact ⟨[u], by simp [follow], .single u, by simp, by simp, by simpa using ⟨_, hc, le_rfl⟩⟩
      · obtain ⟨x, hx, hnext, a, b, ha, hb, hab⟩ := hd u (hN hu) e
        obtain rfl := hc.unique hab
        have hlt : b < a + b := lt_add_of_pos_left b (hw _ _ _ ha)
        have hxu : x ≠ u := by rintro rfl; exact hlt.ne (hb.unique hc)
        have hxN : x ∈ N.erase u := Finset.mem_erase.mpr ⟨hxu, hnear x hx b hb hlt⟩
        obtain ⟨p, hp, hwalk, hnd, hlen, hle⟩ := ih (N.erase u) x b hxN
          ((Finset.erase_subset u N).trans hN) hb
          (fun y hy b' hb' hlt' => Finset.mem_erase.mpr
            ⟨by rintro rfl; exact (hlt'.trans hlt).ne (hb'.unique hc),
              hnear y hy b' hb' (hlt'.trans hlt)⟩)
          (by have := Finset.card_erase_add_one hu; omega)
        refine ⟨u :: p, ?_, .cons ha hwalk, List.nodup_cons.mpr ⟨fun hup => ?_, hnd⟩, ?_,
          fun y hy => ?_⟩
        · rw [follow, if_neg e, hnext]
          simp [hp]
        · obtain ⟨b', hb', hle'⟩ := hle u hup
          exact (hle'.trans_lt hlt).ne (hb'.unique hc)
        · simpa using hlen
        · rcases List.mem_cons.mp hy with rfl | hy
          · exact ⟨_, hc, le_rfl⟩
          · obtain ⟨b', hb', hle'⟩ := hle y hy
            exact ⟨b', hb', hle'.trans hlt.le⟩

end Descends

end Lib
