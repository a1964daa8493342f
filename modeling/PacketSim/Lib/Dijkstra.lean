import Mathlib

/-!
# Lib — Dijkstra

Dijkstra's search with lazy deletion: a relaxation pushes a new queue entry and leaves the old one
in place, and a popped entry above its vertex's distance is skipped.

Distances are taken from any linear order with a top, and an edge is a function on them:
`w u x = some f` says that whoever is at distance `d` of `u` is at distance `f d` of `x`.  All that
is asked of the edges is that they are monotone and do not decrease (`Tame`).  Adding a
non-negative weight is of this kind, and so is adding it with rounding or with an overflow to the
top.  `Course w z s v p d`: the list `p` runs from `s` to `v` along edges, and takes the distance
`z` at `s` to `d`.

A search has tentative distances, predecessor pointers and a queue (`Search`).  The invariant `Inv
w z s R S` is relative to the set `S` of settled vertices and a set `R` of edges out of settled
vertices that are still to be relaxed.  It holds of the initial search (`Inv.init`) and is kept by
skipping a stale entry (`Inv.skip`), settling the least entry (`Inv.settle`) and relaxing one edge
(`Inv.relax`).

* `Inv.reach`: at every time, a course from `s` to `v` takes `z` to at least `v`'s tentative
  distance or at least some queue entry.  So a popped distance is least, and a vertex still at `⊤`
  when the queue is empty is out of reach.
* `Inv.back`: the predecessor pointers lead from any vertex at a distance less than `⊤` back to `s`,
  along a course to that distance with no vertex twice.
* `potential`: queue entries and edges out of unsettled vertices, which bounds the pops to come
  (`potential_settle`).
-/

namespace Lib.Dijkstra

variable {V W : Type*}

/-- Tentative distances (`⊤` for none yet), predecessor pointers and queue entries. -/
structure Search (V W : Type*) where
  dist : V → W
  prev : V → Option V
  heap : Multiset (W × V)

/-- `p` is what following the pointers from `u` to `s` collects. -/
inductive Back (prev : V → Option V) (s : V) : V → List V → Prop where
  | source : Back prev s s [s]
  | step {u x : V} {p : List V} (hne : u ≠ s) (hp : prev u = some x) (t : Back prev s x p) :
      Back prev s u (u :: p)

/-- Pointers that agree on the vertices collected collect the same vertices. -/
theorem Back.congr {prev prev' : V → Option V} {s u : V} {p : List V} (h : Back prev s u p) :
    (∀ x ∈ p, prev' x = prev x) → Back prev' s u p := by
  induction h with
  | source => exact fun _ => .source
  | step hne hp _ ih =>
      exact fun he => .step hne ((he _ (by simp)).trans hp)
        (ih fun x hx => he x (List.mem_cons_of_mem _ hx))

/-- `p` lists the vertices of a course from `s` to `v`, which takes the distance `z` to `d`. -/
inductive Course (w : V → V → Option (W → W)) (z : W) (s : V) : V → List V → W → Prop where
  | source : Course w z s s [s] z
  | step {u x : V} {p : List V} {d : W} {f : W → W} (t : Course w z s u p d)
      (h : w u x = some f) : Course w z s x (p ++ [x]) (f d)

variable [LinearOrder W]

/-- The edges are monotone and do not decrease. -/
structure Tame (w : V → V → Option (W → W)) : Prop where
  mono : ∀ u x f, w u x = some f → Monotone f
  le : ∀ u x f, w u x = some f → ∀ d, d ≤ f d

theorem Tame.le_course {w : V → V → Option (W → W)} (hw : Tame w) {z : W} {s v : V} {p : List V}
    {d : W} (h : Course w z s v p d) : z ≤ d := by
  induction h with
  | source => exact le_rfl
  | step _ e ih => exact ih.trans (hw.le _ _ _ e _)

variable [OrderTop W]

/-- The invariant of the search, with the vertices of `S` settled and the edges of `R` out of them
still to be relaxed. -/
structure Inv (w : V → V → Option (W → W)) (z : W) (s : V) (R : V → V → Prop) (S : Finset V)
    (σ : Search V W) : Prop where
  source : σ.dist s = z
  relaxed : ∀ u ∈ S, ∀ x f, ¬ R u x → w u x = some f → σ.dist x ≤ f (σ.dist u)
  queued : ∀ u ∉ S, σ.dist u ≠ ⊤ → (σ.dist u, u) ∈ σ.heap
  finite : ∀ d u, (d, u) ∈ σ.heap → d ≠ ⊤
  dist_le : ∀ d u, (d, u) ∈ σ.heap → σ.dist u ≤ d
  later : ∀ d u, (d, u) ∈ σ.heap → ∀ v ∈ S, σ.dist v ≤ d
  stale : ∀ d u, (d, u) ∈ σ.heap → u ∈ S → σ.dist u < d
  nodup : σ.heap.Nodup
  tentative : ∀ u ∉ S, u ≠ s → σ.dist u ≠ ⊤ →
    ∃ x ∈ S, ∃ f, σ.prev u = some x ∧ w x u = some f ∧ σ.dist u = f (σ.dist x)
  route : ∀ u ∈ S, ∃ p, Back σ.prev s u p ∧ (∀ x ∈ p, x ∈ S) ∧ p.Nodup ∧
    Course w z s u p.reverse (σ.dist u)

namespace Inv

variable {w : V → V → Option (W → W)} {z : W} {s : V} {R : V → V → Prop} {S : Finset V}
  {σ : Search V W}

theorem init {dist : V → W} (prev : V → Option V) (hz : z ≠ ⊤) (hs : dist s = z)
    (ht : ∀ u, u ≠ s → dist u = ⊤) : Inv w z s R ∅ ⟨dist, prev, {(z, s)}⟩ where
  source := hs
  relaxed := by simp
  queued u _ hd := by
    by_cases e : u = s
    · simp [e, hs]
    · exact absurd (ht u e) hd
  finite d u h := by
    obtain ⟨rfl, rfl⟩ := Prod.mk.inj (Multiset.mem_singleton.mp h)
    exact hz
  dist_le d u h := by
    obtain ⟨rfl, rfl⟩ := Prod.mk.inj (Multiset.mem_singleton.mp h)
    exact hs.le
  later := by simp
  stale := by simp
  nodup := Multiset.nodup_singleton _
  tentative u _ hne hd := absurd (ht u hne) hd
  route := by simp

/-- Fewer edges to relax, as long as those dropped are no edges. -/
theorem weaken {R' : V → V → Prop} (h : Inv w z s R S σ)
    (hR : ∀ u x f, w u x = some f → R u x → R' u x) : Inv w z s R' S σ :=
  { h with relaxed := fun u hu x f hn hw =>
      h.relaxed u hu x f (fun hr => hn (hR u x f hw hr)) hw }

/-- A popped entry above its vertex's distance is dropped. -/
theorem skip {d : W} {u : V} {H : Multiset (W × V)} (h : Inv w z s R S σ)
    (hp : σ.heap = (d, u) ::ₘ H) (hlt : σ.dist u < d) : Inv w z s R S { σ with heap := H } :=
  have sub : ∀ e v, (e, v) ∈ H → (e, v) ∈ σ.heap := fun e v hv => by
    rw [hp]; exact Multiset.mem_cons_of_mem hv
  { h with
    queued := fun v hv he => by
      have hm := h.queued v hv he
      rw [hp, Multiset.mem_cons] at hm
      rcases hm with hm | hm
      · obtain ⟨he, rfl⟩ := Prod.mk.inj hm
        exact absurd he hlt.ne
      · exact hm
    finite := fun e v hv => h.finite e v (sub e v hv)
    dist_le := fun e v hv => h.dist_le e v (sub e v hv)
    later := fun e v hv => h.later e v (sub e v hv)
    stale := fun e v hv => h.stale e v (sub e v hv)
    nodup := by
      have hn := h.nodup
      rw [hp] at hn
      exact (Multiset.nodup_cons.mp hn).2 }

/-- What popping a least entry at its vertex's distance means. -/
theorem pop_fresh {d : W} {u : V} {H : Multiset (W × V)} (h : Inv w z s R S σ)
    (hp : σ.heap = (d, u) ::ₘ H) (hlt : ¬ σ.dist u < d) : σ.dist u = d ∧ u ∉ S := by
  have hm : (d, u) ∈ σ.heap := by rw [hp]; exact Multiset.mem_cons_self _ _
  exact ⟨le_antisymm (h.dist_le d u hm) (not_lt.mp hlt), fun hu => hlt (h.stale d u hm hu)⟩

/-- The least entry's vertex is settled; the edges out of it are still to be relaxed. -/
theorem settle [DecidableEq V] {d : W} {u : V} {H : Multiset (W × V)}
    (h : Inv w z s (fun _ _ => False) S σ) (hp : σ.heap = (d, u) ::ₘ H)
    (hmin : ∀ e v, (e, v) ∈ H → d ≤ e) (hlt : ¬ σ.dist u < d) :
    Inv w z s (fun v _ => v = u) (insert u S) { σ with heap := H } := by
  obtain ⟨hd, hu⟩ := h.pop_fresh hp hlt
  have sub : ∀ e v, (e, v) ∈ H → (e, v) ∈ σ.heap := fun e v hv => by
    rw [hp]; exact Multiset.mem_cons_of_mem hv
  have hn := h.nodup
  rw [hp, Multiset.nodup_cons] at hn
  have htop : σ.dist u ≠ ⊤ := by
    rw [hd]
    exact h.finite d u (by rw [hp]; exact Multiset.mem_cons_self _ _)
  refine ⟨h.source, fun v hv x f hr hw => ?_, fun v hv he => ?_,
    fun e v hv => h.finite e v (sub e v hv), fun e v hv => h.dist_le e v (sub e v hv),
    fun e v hv x hx => ?_, fun e v hv hvS => ?_, hn.2, fun v hv hne he => ?_, fun v hv => ?_⟩
  · exact h.relaxed v ((Finset.mem_insert.mp hv).resolve_left hr) x f id hw
  · rw [Finset.mem_insert, not_or] at hv
    have hm := h.queued v hv.2 he
    rw [hp, Multiset.mem_cons] at hm
    exact hm.resolve_left fun hm => hv.1 (Prod.mk.inj hm).2
  · rcases Finset.mem_insert.mp hx with rfl | hx
    · exact hd.le.trans (hmin e v hv)
    · exact h.later e v (sub e v hv) x hx
  · rcases Finset.mem_insert.mp hvS with rfl | hvS
    · -- an entry of `u` left in the queue is another one, so above `d`
      refine lt_of_le_of_ne (h.dist_le e v (sub e v hv)) fun he => hn.1 ?_
      exact (hd.symm.trans he) ▸ hv
    · exact h.stale e v (sub e v hv) hvS
  · rw [Finset.mem_insert, not_or] at hv
    obtain ⟨x, hx, f, hpx, hwx, hf⟩ := h.tentative v hv.2 hne he
    exact ⟨x, Finset.mem_insert_of_mem hx, f, hpx, hwx, hf⟩
  · rcases Finset.mem_insert.mp hv with rfl | hv
    · by_cases hs : v = s
      · subst hs
        refine ⟨[v], .source, by simp, by simp, ?_⟩
        rw [h.source]
        exact .source
      · obtain ⟨x, hx, f, hpx, hwx, hf⟩ := h.tentative v hu hs htop
        obtain ⟨p, hback, hsub, hnd, hcourse⟩ := h.route x hx
        refine ⟨v :: p, .step hs hpx hback, fun y hy => ?_, ?_, ?_⟩
        · rcases List.mem_cons.mp hy with rfl | hy
          · exact Finset.mem_insert_self _ _
          · exact Finset.mem_insert_of_mem (hsub y hy)
        · exact List.nodup_cons.mpr ⟨fun hvp => hu (hsub v hvp), hnd⟩
        · rw [List.reverse_cons, hf]
          exact hcourse.step hwx
    · obtain ⟨p, hback, hsub, hnd, hcourse⟩ := h.route v hv
      exact ⟨p, hback, fun y hy => Finset.mem_insert_of_mem (hsub y hy), hnd, hcourse⟩

/-- One edge out of the settled vertex `u` is found not to improve on `x`'s distance. -/
theorem keep {u x : V} {f : W → W} (h : Inv w z s R S σ) (hw : w u x = some f)
    (hle : σ.dist x ≤ f (σ.dist u)) :
    Inv w z s (fun a b => R a b ∧ ¬ (a = u ∧ b = x)) S σ :=
  { h with
    relaxed := fun v hv y g hr hwv => by
      by_cases hvy : v = u ∧ y = x
      · obtain ⟨rfl, rfl⟩ := hvy
        obtain rfl : f = g := Option.some.inj (hw.symm.trans hwv)
        exact hle
      · exact h.relaxed v hv y g (fun hR => hr ⟨hR, hvy⟩) hwv }

/-- Settled vertices are at most as far as the last one settled, so an edge out of it improves on
unsettled vertices only. -/
theorem not_settled (htame : Tame w) {u x : V} {f : W → W} (_ : Inv w z s R S σ)
    (hfar : ∀ v ∈ S, σ.dist v ≤ σ.dist u) (hw : w u x = some f)
    (hlt : f (σ.dist u) < σ.dist x) : x ∉ S := fun hx =>
  absurd ((hfar x hx).trans (htame.le _ _ _ hw _)) (not_le.mpr hlt)

/-- One edge out of the settled vertex `u`, no nearer than any other settled vertex, improves on
`x`'s distance. -/
theorem relax [DecidableEq V] (htame : Tame w) {u x : V} {f : W → W} (h : Inv w z s R S σ)
    (hu : u ∈ S) (hfar : ∀ v ∈ S, σ.dist v ≤ σ.dist u) (hw : w u x = some f)
    (hlt : f (σ.dist u) < σ.dist x) :
    Inv w z s (fun a b => R a b ∧ ¬ (a = u ∧ b = x)) S
      ⟨Function.update σ.dist x (f (σ.dist u)), Function.update σ.prev x (some u),
        (f (σ.dist u), x) ::ₘ σ.heap⟩ := by
  have hx : x ∉ S := h.not_settled htame hfar hw hlt
  have ne : ∀ v ∈ S, v ≠ x := fun v hv e => hx (e ▸ hv)
  have hxs : s ≠ x := by
    rintro rfl
    obtain ⟨p, -, -, -, hcourse⟩ := h.route u hu
    rw [h.source] at hlt
    exact absurd hlt (not_lt.mpr ((htame.le_course hcourse).trans (htame.le _ _ _ hw _)))
  have le' : ∀ v, Function.update σ.dist x (f (σ.dist u)) v ≤ σ.dist v := fun v => by
    by_cases e : v = x
    · subst e; rw [Function.update_self]; exact hlt.le
    · rw [Function.update_of_ne e]
  have ent : ∀ {e v}, (e, v) ∈ (f (σ.dist u), x) ::ₘ σ.heap →
      (e = f (σ.dist u) ∧ v = x) ∨ (e, v) ∈ σ.heap :=
    fun hv => (Multiset.mem_cons.mp hv).imp_left fun e => Prod.mk.inj e
  refine ⟨?_, fun v hv y g hr hwv => ?_, fun v hv he => ?_, fun e v hv => ?_, fun e v hv => ?_,
    fun e v hv y hy => ?_, fun e v hv hvS => ?_, ?_, fun v hv hne he => ?_, fun v hv => ?_⟩
  all_goals dsimp only at *
  · rw [Function.update_of_ne hxs]; exact h.source
  · rw [Function.update_of_ne (ne v hv)]
    by_cases hvy : v = u ∧ y = x
    · obtain ⟨rfl, rfl⟩ := hvy
      obtain rfl : f = g := Option.some.inj (hw.symm.trans hwv)
      rw [Function.update_self]
    · exact (le' y).trans (h.relaxed v hv y g (fun hR => hr ⟨hR, hvy⟩) hwv)
  · by_cases hvx : v = x
    · subst hvx
      rw [Function.update_self]
      exact Multiset.mem_cons_self _ _
    · rw [Function.update_of_ne hvx] at he ⊢
      exact Multiset.mem_cons_of_mem (h.queued v hv he)
  · rcases ent hv with ⟨rfl, rfl⟩ | hv
    · exact hlt.ne_top
    · exact h.finite e v hv
  · rcases ent hv with ⟨rfl, rfl⟩ | hv
    · rw [Function.update_self]
    · exact (le' v).trans (h.dist_le e v hv)
  · rw [Function.update_of_ne (ne y hy)]
    rcases ent hv with ⟨rfl, rfl⟩ | hv
    · exact (hfar y hy).trans (htame.le _ _ _ hw _)
    · exact h.later e v hv y hy
  · rw [Function.update_of_ne (ne v hvS)]
    rcases ent hv with ⟨rfl, rfl⟩ | hv
    · exact absurd hvS hx
    · exact h.stale e v hv hvS
  · -- an old entry of `x` is at least `x`'s old distance
    exact Multiset.nodup_cons.mpr
      ⟨fun hm => absurd (h.dist_le _ _ hm) (not_le.mpr hlt), h.nodup⟩
  · by_cases hvx : v = x
    · subst hvx
      refine ⟨u, hu, f, by rw [Function.update_self], hw, ?_⟩
      rw [Function.update_self, Function.update_of_ne (ne u hu)]
    · rw [Function.update_of_ne hvx] at he
      obtain ⟨y, hy, g, hpy, hwy, hg⟩ := h.tentative v hv hne he
      refine ⟨y, hy, g, by rw [Function.update_of_ne hvx]; exact hpy, hwy, ?_⟩
      rw [Function.update_of_ne hvx, Function.update_of_ne (ne y hy), hg]
  · obtain ⟨p, hback, hsub, hnd, hcourse⟩ := h.route v hv
    refine ⟨p, hback.congr fun y hy => ?_, hsub, hnd, ?_⟩
    · rw [Function.update_of_ne (ne y (hsub y hy))]
    · rw [Function.update_of_ne (ne v hv)]; exact hcourse

/-! ### What the distances and the pointers mean -/

/-- **A course takes `z` to at least its end's distance, or at least a queue entry.** -/
theorem reach (htame : Tame w) (h : Inv w z s (fun _ _ => False) S σ) {v : V} {p : List V} {d : W}
    (t : Course w z s v p d) : σ.dist v ≤ d ∨ ∃ e y, (e, y) ∈ σ.heap ∧ e ≤ d := by
  induction t with
  | source => exact .inl h.source.le
  | @step u x p d f t hw ih =>
      have hle : d ≤ f d := htame.le _ _ _ hw d
      rcases ih with hd | ⟨e, y, hy, he⟩
      · by_cases htop : σ.dist u = ⊤
        · -- nothing is beyond `⊤`
          rw [htop, top_le_iff] at hd
          rw [hd, top_le_iff] at hle
          rw [hd, hle]
          exact .inl le_top
        · by_cases hu : u ∈ S
          · exact .inl ((h.relaxed u hu x f id hw).trans (htame.mono _ _ _ hw hd))
          · exact .inr ⟨_, u, h.queued u hu htop, hd.trans hle⟩
      · exact .inr ⟨e, y, hy, he.trans hle⟩

/-- What is nearer than every queue entry is settled. -/
theorem settled_of_lt (h : Inv w z s R S σ) {u : V} {d : W} (hd : ∀ e y, (e, y) ∈ σ.heap → d ≤ e)
    (hlt : σ.dist u < d) : u ∈ S := by
  by_contra hu
  exact absurd (hd _ _ (h.queued u hu hlt.ne_top)) (not_le.mpr hlt)

/-- **The pointers lead back.**  From a vertex at a distance less than `⊤` they collect a course to
that distance, with no vertex twice. -/
theorem back (h : Inv w z s R S σ) {u : V} (hd : σ.dist u ≠ ⊤) :
    ∃ p, Back σ.prev s u p ∧ p.Nodup ∧ Course w z s u p.reverse (σ.dist u) := by
  by_cases hu : u ∈ S
  · obtain ⟨p, hback, -, hnd, hcourse⟩ := h.route u hu
    exact ⟨p, hback, hnd, hcourse⟩
  · by_cases hs : u = s
    · subst hs
      refine ⟨[u], .source, by simp, ?_⟩
      rw [h.source]
      exact .source
    · obtain ⟨x, hx, f, hpx, hwx, hf⟩ := h.tentative u hu hs hd
      obtain ⟨p, hback, hsub, hnd, hcourse⟩ := h.route x hx
      refine ⟨u :: p, .step hs hpx hback, List.nodup_cons.mpr ⟨fun h' => hu (hsub u h'), hnd⟩, ?_⟩
      rw [List.reverse_cons, hf]
      exact hcourse.step hwx

end Inv

/-! ### A bound on the pops -/

/-- Queue entries, and edges out of the vertices of `nodes` not in `S`. -/
def potential [DecidableEq V] (deg : V → ℕ) (nodes S : Finset V) (entries : ℕ) : ℕ :=
  entries + ∑ v ∈ nodes \ S, deg v

/-- The entries that settling `u` pushes are paid for by `u` leaving the unsettled vertices. -/
theorem potential_settle [DecidableEq V] (deg : V → ℕ) {nodes S : Finset V} {u : V}
    (hu : u ∈ nodes) (hS : u ∉ S) (n : ℕ) :
    potential deg nodes (insert u S) (n + deg u) = potential deg nodes S n := by
  have hmem : u ∈ nodes \ S := Finset.mem_sdiff.mpr ⟨hu, hS⟩
  rw [potential, potential, Finset.sdiff_insert, ← Finset.add_sum_erase _ deg hmem, add_assoc]

end Lib.Dijkstra
