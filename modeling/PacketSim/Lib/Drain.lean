import Mathlib

/-!
# Lib — Drain

A loop that takes the next item of an agenda, runs a handler for it and goes on, until nothing is
next or a handler raises.  The handlers act on the state the agenda is in.

* `Drains next run s ran r`: from `s` the loop runs the items `ran`, in this order, and ends in `r`.
  The loop ends from `s` exactly when there are such `ran` and `r`, and then there is one of each
  (`Drains.unique`).
* `not_drains`: where every pass succeeds and keeps a property, it does not.
* `IsAgenda`: what is next is the head of the agenda.  The loop runs the agenda where no handler
  raises or changes what is left of it (`IsAgenda.drains`), and more where one adds to it
  (`IsAgenda.length_lt`).
-/

namespace Lib

variable {S α ε : Type*}

/-- `Drains next run s ran r`: the loop from `s` ran `ran` and ended with `r`. -/
inductive Drains (next : S → Option (α × S)) (run : α → S → Except ε S) :
    S → List α → Except ε S → Prop where
  | stop {s : S} (h : next s = none) : Drains next run s [] (.ok s)
  | raise {s s₁ : S} {x : α} {e : ε} (h : next s = some (x, s₁)) (hx : run x s₁ = .error e) :
      Drains next run s [x] (.error e)
  | turn {s s₁ s₂ : S} {x : α} {ran : List α} {r : Except ε S} (h : next s = some (x, s₁))
      (hx : run x s₁ = .ok s₂) (t : Drains next run s₂ ran r) : Drains next run s (x :: ran) r

variable {next : S → Option (α × S)} {run : α → S → Except ε S} {agenda : S → List α}

theorem Drains.unique {s : S} {ran ran' : List α} {r r' : Except ε S}
    (h : Drains next run s ran r) (h' : Drains next run s ran' r') : ran = ran' ∧ r = r' := by
  induction h generalizing ran' with
  | stop hs =>
      cases h' with
      | stop => exact ⟨rfl, rfl⟩
      | raise hs' => cases hs.symm.trans hs'
      | turn hs' => cases hs.symm.trans hs'
  | raise hs hx =>
      cases h' with
      | stop hs' => cases hs.symm.trans hs'
      | raise hs' hx' =>
          cases hs.symm.trans hs'
          cases hx.symm.trans hx'
          exact ⟨rfl, rfl⟩
      | turn hs' hx' =>
          cases hs.symm.trans hs'
          cases hx.symm.trans hx'
  | turn hs hx _ ih =>
      cases h' with
      | stop hs' => cases hs.symm.trans hs'
      | raise hs' hx' =>
          cases hs.symm.trans hs'
          cases hx.symm.trans hx'
      | turn hs' hx' t' =>
          cases hs.symm.trans hs'
          cases hx.symm.trans hx'
          obtain ⟨rfl, rfl⟩ := ih t'
          exact ⟨rfl, rfl⟩

/-- What every handler keeps, the loop keeps. -/
theorem Drains.invariant {P : S → Prop} (htake : ∀ s x s₁, next s = some (x, s₁) → P s → P s₁)
    (hrun : ∀ x s s', run x s = .ok s' → P s → P s') {s : S} {ran : List α} {r : Except ε S}
    (h : Drains next run s ran r) : ∀ s', r = .ok s' → P s → P s' := by
  induction h with
  | stop _ =>
      intro s' e hs
      cases e
      exact hs
  | raise _ _ => exact nofun
  | turn h hx _ ih => exact fun s' e hs => ih s' e (hrun _ _ _ hx (htake _ _ _ h hs))

/-- The loop ends where nothing is next. -/
theorem Drains.next_eq_none {s : S} {ran : List α} {r : Except ε S} (h : Drains next run s ran r) :
    ∀ s', r = .ok s' → next s' = none := by
  induction h with
  | stop h =>
      intro s' e
      cases e
      exact h
  | raise _ _ => exact nofun
  | turn _ _ _ ih => exact ih

/-- Where every pass succeeds and keeps `Q`, the loop does not end. -/
theorem not_drains {Q : S → Prop}
    (hpass : ∀ s, Q s → ∃ x s₁ s₂, next s = some (x, s₁) ∧ run x s₁ = .ok s₂ ∧ Q s₂) {s : S}
    {ran : List α} {r : Except ε S} (h : Drains next run s ran r) : ¬ Q s := by
  induction h with
  | stop hs =>
      intro hQ
      obtain ⟨x, s₁, s₂, hn, -⟩ := hpass _ hQ
      cases hs.symm.trans hn
  | raise hs hx =>
      intro hQ
      obtain ⟨x, s₁, s₂, hn, hr, -⟩ := hpass _ hQ
      cases hs.symm.trans hn
      cases hx.symm.trans hr
  | turn hs hx _ ih =>
      intro hQ
      obtain ⟨x, s₁, s₂, hn, hr, hQ₂⟩ := hpass _ hQ
      cases hs.symm.trans hn
      cases hx.symm.trans hr
      exact ih hQ₂

/-! ### Agendas -/

/-- What is next is the head of the agenda. -/
structure IsAgenda (next : S → Option (α × S)) (agenda : S → List α) : Prop where
  stop : ∀ s, next s = none → agenda s = []
  take : ∀ s x s₁, next s = some (x, s₁) → agenda s = x :: agenda s₁

/-- **Where no handler raises or changes what is left of the agenda**, the loop runs the agenda. -/
theorem IsAgenda.drains (h : IsAgenda next agenda) {P : S → Prop}
    (hrun : ∀ s x s₁, P s → next s = some (x, s₁) →
      ∃ s₂, run x s₁ = .ok s₂ ∧ agenda s₂ = agenda s₁ ∧ P s₂) {s : S} (hs : P s) :
    ∃ s', Drains next run s (agenda s) (.ok s') := by
  -- by induction on what is left of the agenda
  generalize hl : agenda s = l
  induction l generalizing s with
  | nil =>
      cases hn : next s with
      | none => exact ⟨s, .stop hn⟩
      | some p =>
          have htake := h.take s p.1 p.2 hn
          rw [hl] at htake
          cases htake
  | cons y l ih =>
      cases hn : next s with
      | none =>
          have hstop := h.stop s hn
          rw [hl] at hstop
          cases hstop
      | some p =>
          obtain ⟨x, s₁⟩ := p
          have htake := h.take s x s₁ hn
          rw [hl] at htake
          obtain ⟨rfl, hl₁⟩ := List.cons.inj htake
          obtain ⟨s₂, hx, hl₂, hs₂⟩ := hrun s y s₁ hs hn
          obtain ⟨s', t⟩ := ih hs₂ (hl₂.trans hl₁.symm)
          exact ⟨s', .turn hn hx t⟩

section Length
variable (h : IsAgenda next agenda)
  (hgrow : ∀ s x s₁ s₂, next s = some (x, s₁) → run x s₁ = .ok s₂ →
    (agenda s₁).length ≤ (agenda s₂).length)
include h hgrow

/-- Where no handler takes from the agenda, the loop runs at least as many items as it holds. -/
theorem IsAgenda.length_le {s : S} {ran : List α} {r : Except ε S} (t : Drains next run s ran r) :
    ∀ s', r = .ok s' → (agenda s).length ≤ ran.length := by
  induction t with
  | stop hs => exact fun _ _ => by simp [h.stop _ hs]
  | raise _ _ => exact nofun
  | turn hs hx _ ih =>
      intro s' e
      rw [h.take _ _ _ hs, List.length_cons, List.length_cons]
      exact Nat.succ_le_succ ((hgrow _ _ _ _ hs hx).trans (ih s' e))

/-- Where an item to come makes the agenda longer, the loop runs more. -/
theorem IsAgenda.length_lt {Q : S → Prop} (hQ : ∀ s, Q s → agenda s ≠ [])
    (hstep : ∀ s x s₁ s₂, Q s → next s = some (x, s₁) → run x s₁ = .ok s₂ →
      Q s₂ ∨ (agenda s₁).length < (agenda s₂).length)
    {s : S} {ran : List α} {r : Except ε S} (t : Drains next run s ran r) :
    ∀ s', r = .ok s' → Q s → (agenda s).length < ran.length := by
  induction t with
  | stop hs => exact fun _ _ hq => absurd (h.stop _ hs) (hQ _ hq)
  | raise _ _ => exact nofun
  | turn hs hx t ih =>
      intro s' e hq
      rw [h.take _ _ _ hs, List.length_cons, List.length_cons]
      refine Nat.succ_lt_succ ?_
      rcases hstep _ _ _ _ hq hs hx with hq₂ | hlt
      · exact (hgrow _ _ _ _ hs hx).trans_lt (ih s' e hq₂)
      · exact hlt.trans_le (h.length_le hgrow t s' e)

end Length

end Lib
