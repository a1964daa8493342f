import Mathlib

/-!
# Lib — Except

Runs of fallible steps.  `bind_eq_ok` and `map_eq_ok` take a successful run apart, `bind_eq_error`
a failing one, and `bind_total` puts one together; `foldlM_invariant` is the loop rule for a `for`
loop whose body may raise, `foldlM_pass` gives a pass of such a loop, and `foldlM_total` shows that
the loop never raises; `mapM_total` is that for a loop that collects.  `bind_congr_ok` and
`foldlM_congr` compare two programs where both run, `bind_comm` and `foldlM_comm` the runs of two
programs from states that `T` relates.
-/

namespace Lib

universe u v

variable {ε : Type u} {α β : Type v}

theorem bind_eq_ok {x : Except ε α} {f : α → Except ε β} {b : β} :
    x >>= f = .ok b ↔ ∃ a, x = .ok a ∧ f a = .ok b := by
  cases x <;> simp [bind, Except.bind]

theorem bind_eq_error {x : Except ε α} {f : α → Except ε β} {e : ε} :
    x >>= f = .error e ↔ x = .error e ∨ ∃ a, x = .ok a ∧ f a = .error e := by
  cases x <;> simp [bind, Except.bind]

theorem map_eq_ok {x : Except ε α} {f : α → β} {b : β} :
    x.map f = .ok b ↔ ∃ a, x = .ok a ∧ f a = b := by
  cases x <;> simp [Except.map]

theorem bind_total {x : Except ε α} {f : α → Except ε β} {P : α → Prop} {Q : β → Prop}
    (hx : ∃ a, x = .ok a ∧ P a) (hf : ∀ a, P a → ∃ b, f a = .ok b ∧ Q b) :
    ∃ b, x >>= f = .ok b ∧ Q b := by
  obtain ⟨a, rfl, ha⟩ := hx
  exact hf a ha

theorem exists_ok {x : Except ε α} (h : x.toBool = true) : ∃ a, x = .ok a := by
  cases x with
  | error _ => cases h
  | ok a => exact ⟨a, rfl⟩

theorem eq_ok_getD {x : Except ε α} (h : x.toBool = true) (a : α) :
    x = .ok (x.toOption.getD a) := by
  obtain ⟨b, rfl⟩ := exists_ok h
  rfl

theorem exists_ok_and {x : Except ε α} {f : α → Bool} (h : x.toOption.any f = true) :
    ∃ a, x = .ok a ∧ f a = true := by
  cases x with
  | error _ => cases h
  | ok a => exact ⟨a, rfl, h⟩

/-- Programs that go on alike. -/
theorem bind_congr_ok {x : Except ε α} {f g : α → Except ε β} (h : ∀ a, x = .ok a → f a = g a) :
    x >>= f = x >>= g := by
  cases x with
  | error _ => rfl
  | ok a => exact h a rfl

/-- What every pass of a loop keeps, the loop keeps. -/
theorem foldlM_invariant {f : β → α → Except ε β} {P : β → Prop} {l : List α}
    (step : ∀ b a b', a ∈ l → f b a = .ok b' → P b → P b') :
    ∀ {b b' : β}, l.foldlM f b = .ok b' → P b → P b' := by
  induction l with
  | nil => intro b b' h hb; cases h; exact hb
  | cons a l ih =>
      intro b b' h hb
      rw [List.foldlM_cons, bind_eq_ok] at h
      obtain ⟨b₁, h₁, h₂⟩ := h
      exact ih (fun b a b' ha => step b a b' (List.mem_cons_of_mem _ ha)) h₂
        (step b a b₁ (by simp) h₁ hb)

/-- A loop that ends has passed every element. -/
theorem foldlM_pass {f : β → α → Except ε β} {a : α} :
    ∀ {l : List α} {b b' : β}, l.foldlM f b = .ok b' → a ∈ l → ∃ b₁ b₂, f b₁ a = .ok b₂
  | x :: l, b, b', h, ha => by
      rw [List.foldlM_cons, bind_eq_ok] at h
      obtain ⟨b₁, h₁, h₂⟩ := h
      rcases List.mem_cons.mp ha with rfl | ha
      · exact ⟨b, b₁, h₁⟩
      · exact foldlM_pass h₂ ha

/-- Two programs that go alike go alike one after the other. -/
theorem bind_comm {α' β' : Type v} {x : Except ε α} {x' : Except ε α'} {f : α → Except ε β}
    {f' : α' → Except ε β'} {T : α → α'} {U : β → β'} (hx : x' = x.map T)
    (hf : ∀ a, x = .ok a → f' (T a) = (f a).map U) : x' >>= f' = (x >>= f).map U := by
  subst hx
  cases x with
  | error _ => rfl
  | ok a => exact hf a rfl

/-- Two loops whose passes go alike, in states with `P`, go alike. -/
theorem foldlM_comm {β' : Type v} {f : β → α → Except ε β} {f' : β' → α → Except ε β'}
    {T : β → β'} {P : β → Prop} (hf : ∀ b a, P b → f' (T b) a = (f b a).map T)
    (step : ∀ b a b', f b a = .ok b' → P b → P b') :
    ∀ {l : List α} {b : β}, P b → l.foldlM f' (T b) = (l.foldlM f b).map T
  | [], _, _ => rfl
  | a :: l, b, hb => by
      rw [List.foldlM_cons, List.foldlM_cons]
      exact bind_comm (hf b a hb) fun b₁ h₁ => foldlM_comm hf step (step b a b₁ h₁ hb)

/-- Two loops whose passes do the same, in states with `P`, do the same. -/
theorem foldlM_congr {f g : β → α → Except ε β} {P : β → Prop} {l : List α}
    (hfg : ∀ b a, a ∈ l → P b → f b a = g b a)
    (step : ∀ b a b', a ∈ l → g b a = .ok b' → P b → P b') :
    ∀ {b : β}, P b → l.foldlM f b = l.foldlM g b := by
  induction l with
  | nil => exact fun _ => rfl
  | cons a l ih =>
      intro b hb
      rw [List.foldlM_cons, List.foldlM_cons, hfg b a (by simp) hb]
      exact bind_congr_ok fun b₁ h₁ => ih (fun b a ha => hfg b a (List.mem_cons_of_mem _ ha))
        (fun b a b' ha => step b a b' (List.mem_cons_of_mem _ ha)) (step b a b₁ (by simp) h₁ hb)

/-- A loop none of whose passes changes anything changes nothing. -/
theorem foldlM_fixed {f : β → α → Except ε β} {b : β} :
    ∀ {l : List α}, (∀ a ∈ l, f b a = .ok b) → l.foldlM f b = .ok b
  | [], _ => rfl
  | a :: l, h => by
      rw [List.foldlM_cons, h a (by simp)]
      exact foldlM_fixed fun x hx => h x (List.mem_cons_of_mem _ hx)

/-- A loop each of whose passes succeeds, and keeps what the passes need, succeeds. -/
theorem foldlM_total {f : β → α → Except ε β} {P : β → Prop} {l : List α}
    (step : ∀ b a, a ∈ l → P b → ∃ b', f b a = .ok b' ∧ P b') :
    ∀ {b : β}, P b → ∃ b', l.foldlM f b = .ok b' ∧ P b' := by
  induction l with
  | nil => exact fun {b} hb => ⟨b, rfl, hb⟩
  | cons a l ih =>
      intro b hb
      obtain ⟨b₁, h₁, hb₁⟩ := step b a (by simp) hb
      obtain ⟨b', h', hb'⟩ := ih (fun b a ha => step b a (List.mem_cons_of_mem _ ha)) hb₁
      exact ⟨b', by rw [List.foldlM_cons, h₁]; exact h', hb'⟩

/-- What can be computed for every element can be computed for the list. -/
theorem mapM_total {f : α → Except ε β} {P : β → Prop} :
    ∀ {l : List α}, (∀ a ∈ l, ∃ b, f a = .ok b ∧ P b) →
      ∃ bs, l.mapM f = .ok bs ∧ ∀ b ∈ bs, P b
  | [], _ => ⟨[], rfl, by simp⟩
  | a :: l, h => by
      obtain ⟨b, hb, hpb⟩ := h a (by simp)
      obtain ⟨bs, hbs, hpbs⟩ := mapM_total (l := l) fun x hx => h x (List.mem_cons_of_mem _ hx)
      refine ⟨b :: bs, ?_, List.forall_mem_cons.mpr ⟨hpb, hpbs⟩⟩
      rw [List.mapM_cons, hb]
      show (l.mapM f >>= fun bs => pure (b :: bs)) = _
      rw [hbs]
      rfl

end Lib
