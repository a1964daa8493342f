import Mathlib

/-!
# Lib — Service

A station that serves a queue: in each round it takes the head, if there is one and it is free, and
is then busy for a fixed time.  Items join at the end of the queue, before the round or after it.

* `Round`: one round, with the items that join and the items that leave.
* `Rounds.served`: over any rounds the queue and what joins it leave in order; not more often than
  once in the busy time; and, if no two rounds are further apart than `gap`, an item with `m` others
  before it has left after `m + 1` busy times and as many gaps (`ServedInTurn.bounds`).
-/

namespace Lib

variable {α T : Type*} [Field T] [LinearOrder T] [IsStrictOrderedRing T]

/-- The queue, and when the station is free again. -/
structure Station (α T : Type*) where
  queue : List α
  free : T

namespace Station

/-- The items join the end of the queue. -/
def join (s : Station α T) (items : List α) : Station α T := { s with queue := s.queue ++ items }

/-- The station's turn at time `now`. -/
def serve (busy now : T) (s : Station α T) : Station α T :=
  match s.queue with
  | [] => s
  | _ :: queue => if now < s.free then s else ⟨queue, now + busy⟩

omit [IsStrictOrderedRing T] in
/-- What is left is the end of the queue. -/
theorem serve_suffix (busy now : T) (s : Station α T) : (s.serve busy now).queue <:+ s.queue := by
  obtain ⟨queue, free⟩ := s
  cases queue with
  | nil => exact List.suffix_rfl
  | cons x rest =>
      simp only [serve]
      split
      · exact List.suffix_rfl
      · exact List.suffix_cons x rest

/-- A round: some items join, the station has its turn, in which some leave, and some more join. -/
def Round (busy now : T) (joined left : List α) (s s' : Station α T) : Prop :=
  ∃ before after, joined = before ++ after ∧
    (s.join before).queue = left ++ ((s.join before).serve busy now).queue ∧
    s' = ((s.join before).serve busy now).join after

variable {s s' : Station α T} {busy gap now : T} {x : α} {rest joined left : List α}

omit [IsStrictOrderedRing T] in
theorem serve_nil (h : s.queue = []) : s.serve busy now = s := by
  rw [serve, h]

omit [IsStrictOrderedRing T] in
theorem serve_cons (h : s.queue = x :: rest) :
    s.serve busy now = if now < s.free then s else ⟨rest, now + busy⟩ := by
  rw [serve, h]

omit [IsStrictOrderedRing T] in
/-- The queue and what joins it is what leaves and the queue after. -/
theorem Round.queue (h : s.Round busy now joined left s') :
    s.queue ++ joined = left ++ s'.queue := by
  obtain ⟨before, after, rfl, hleft, rfl⟩ := h
  have hjoin : s.queue ++ before = left ++ ((s.join before).serve busy now).queue := hleft
  rw [← List.append_assoc, hjoin, List.append_assoc]
  rfl

omit [IsStrictOrderedRing T] in
/-- Nothing is served, or the head of the queue. -/
theorem Round.cases (h : s.Round busy now joined left s') :
    (left = [] ∧ s'.free = s.free ∧ (s.queue ≠ [] → now < s.free)) ∨
      (left.length = 1 ∧ s.free ≤ now ∧ s'.free = now + busy) := by
  obtain ⟨before, after, -, hleft, rfl⟩ := h
  cases hq : (s.join before).queue with
  | nil =>
      have hnil := (List.append_eq_nil_iff.mp hq).1
      rw [hq] at hleft
      rw [serve_nil hq]
      exact .inl ⟨(List.append_eq_nil_iff.mp hleft.symm).1, rfl, fun hne => absurd hnil hne⟩
  | cons x rest =>
      rw [serve_cons hq] at hleft ⊢
      split_ifs at hleft ⊢ with hbusy
      · exact .inl ⟨List.append_left_eq_self.mp hleft.symm, rfl, fun _ => hbusy⟩
      · have hlength := congrArg List.length (hq.symm.trans hleft)
        simp only [List.length_cons, List.length_append] at hlength
        exact .inr ⟨by omega, not_lt.mp hbusy, rfl⟩

/-- A station is not busy for longer than it takes. -/
theorem Round.free_le {before : T} (h : s.Round busy now joined left s')
    (hfree : s.free ≤ before + busy) (hle : before ≤ now) : s'.free ≤ now + busy := by
  obtain ⟨-, hsame, -⟩ | ⟨-, -, hserved⟩ := h.cases
  · rw [hsame]
    linarith
  · rw [hserved]

end Station

/-! ### Many rounds -/

/-- What `items` has from round `i` to before round `j`, in order. -/
def between (items : ℕ → List α) (i j : ℕ) : List α := (List.range' i (j - i)).flatMap items

theorem between_self (items : ℕ → List α) (i : ℕ) : between items i i = [] := by
  simp [between]

theorem between_succ (items : ℕ → List α) {i j : ℕ} (h : i ≤ j) :
    between items i (j + 1) = between items i j ++ items j := by
  rw [between, Nat.succ_sub h, List.range'_concat, List.flatMap_append, between]
  simp [Nat.add_sub_cancel' h]

section
variable {states : ℕ → Station α T} {clock : ℕ → T} {joined left : ℕ → List α} {busy gap : T}
  {i j : ℕ}

/-- The rounds from state `i` to state `j`; the clock never goes back. -/
structure Rounds (busy : T) (states : ℕ → Station α T) (clock : ℕ → T) (joined left : ℕ → List α)
    (i j : ℕ) : Prop where
  round : ∀ k, i ≤ k → k < j →
    (states k).Round busy (clock (k + 1)) (joined k) (left k) (states (k + 1))
  forward : ∀ k, i ≤ k → k < j → clock k ≤ clock (k + 1)

omit [IsStrictOrderedRing T] in
theorem Rounds.initial (h : Rounds busy states clock joined left i (j + 1)) :
    Rounds busy states clock joined left i j where
  round k hk hkj := h.round k hk (hkj.trans (Nat.lt_succ_self j))
  forward k hk hkj := h.forward k hk (hkj.trans (Nat.lt_succ_self j))

/-- The station has served in turn since state `i`. -/
structure ServedInTurn (busy gap : T) (states : ℕ → Station α T) (clock : ℕ → T)
    (joined left : ℕ → List α) (i j : ℕ) : Prop where
  order : (states i).queue ++ between joined i j = between left i j ++ (states j).queue
  forward : clock i ≤ clock j
  free : (states j).free ≤ clock j + busy
  /-- Two services are apart. -/
  apart : between left i j ≠ [] → clock i + (between left i j).length * busy ≤ (states j).free
  /-- While items of state `i` wait, the station is free for a gap at most. -/
  prompt : (between left i j).length < (states i).queue.length →
    (j = i ∨ clock j < (states j).free) ∧
      (states j).free ≤ clock i + busy + (between left i j).length * (busy + gap)

theorem Rounds.served (h : Rounds busy states clock joined left i j) (hij : i ≤ j)
    (hgap : 0 ≤ gap) (hgaps : ∀ k, i ≤ k → k < j → clock (k + 1) ≤ clock k + gap)
    (hbusy : 0 < busy) (hfree : (states i).free ≤ clock i + busy) :
    ServedInTurn busy gap states clock joined left i j := by
  induction j, hij using Nat.le_induction with
  | base =>
      constructor
      · simp [between_self]
      · exact le_rfl
      · exact hfree
      · exact fun hne => absurd (between_self left i) hne
      · rw [between_self]
        exact fun _ => ⟨.inl rfl, by simpa using hfree⟩
  | succ j hij ih =>
      have hn := ih h.initial fun k hk hkj => hgaps k hk (hkj.trans (Nat.lt_succ_self j))
      have hstep := h.forward j hij (Nat.lt_succ_self j)
      have hround := h.round j hij (Nat.lt_succ_self j)
      have hclock := hn.forward.trans hstep
      have hfree' := hround.free_le hn.free hstep
      have horder : (states i).queue ++ between joined i (j + 1) =
          between left i (j + 1) ++ (states (j + 1)).queue := by
        rw [between_succ _ hij, between_succ _ hij, ← List.append_assoc, hn.order,
          List.append_assoc, hround.queue, List.append_assoc]
      obtain ⟨hleft, hsame, hwait⟩ | ⟨hleft, hopen, hserved⟩ := hround.cases
      · -- nobody is served
        have hbetween : between left i (j + 1) = between left i j := by
          rw [between_succ _ hij, hleft, List.append_nil]
        refine ⟨horder, hclock, hfree', ?_, ?_⟩
        · rw [hbetween, hsame]
          exact hn.apart
        · rw [hbetween, hsame]
          intro hlt
          have hnonempty : (states j).queue ≠ [] := by
            intro hnil
            have hlength := congrArg List.length hn.order
            simp only [hnil, List.length_append, List.length_nil] at hlength
            omega
          exact ⟨.inr (hwait hnonempty), (hn.prompt hlt).2⟩
      · -- the head is
        have hlength : (between left i (j + 1)).length = (between left i j).length + 1 := by
          rw [between_succ _ hij, List.length_append, hleft]
        refine ⟨horder, hclock, hfree', fun _ => ?_, ?_⟩
        · have hbefore : clock i + (between left i j).length * busy ≤ clock (j + 1) := by
            rcases eq_or_ne (between left i j) [] with hnil | hne
            · rw [hnil]
              simpa using hclock
            · exact (hn.apart hne).trans hopen
          rw [hserved, hlength, Nat.cast_succ]
          linarith
        · rw [hserved, hlength, Nat.cast_succ]
          intro hlt
          obtain ⟨hwaits, hdue⟩ := hn.prompt (Nat.lt_of_succ_lt hlt)
          have hnext := hgaps j hij (Nat.lt_succ_self j)
          have hrounds : 0 ≤ ((between left i j).length : T) * (busy + gap) := by positivity
          have hlate : clock j ≤ clock i + busy + (between left i j).length * (busy + gap) := by
            rcases hwaits with rfl | hlt
            · linarith
            · exact hlt.le.trans hdue
          exact ⟨.inr (by linarith), by linarith⟩

/-- **What a station has done.** -/
theorem ServedInTurn.bounds (h : ServedInTurn busy gap states clock joined left i j)
    (hgap : 0 ≤ gap) (hbusy : 0 < busy) :
    (between left i j).length * busy ≤ clock j - clock i + busy ∧
      ∀ (m : ℕ) x, (states i).queue[m]? = some x → clock i + (m + 1) * (busy + gap) ≤ clock j →
        (between left i j)[m]? = some x := by
  constructor
  · rcases eq_or_ne (between left i j) [] with hnil | hne
    · have := h.forward
      simp only [hnil, List.length_nil, Nat.cast_zero, zero_mul]
      linarith
    · have := (h.apart hne).trans h.free
      linarith
  · intro m x hx hlate
    have hm : m < (states i).queue.length := (List.getElem?_eq_some_iff.mp hx).1
    have hlt : m < (between left i j).length := by
      by_contra hnot
      obtain ⟨hwaits, hdue⟩ := h.prompt ((not_lt.mp hnot).trans_lt hm)
      have hmn : ((between left i j).length : T) * (busy + gap) ≤ m * (busy + gap) :=
        mul_le_mul_of_nonneg_right (Nat.cast_le.mpr (not_lt.mp hnot)) (by linarith)
      have hrounds : 0 ≤ (m : T) * (busy + gap) := by positivity
      rcases hwaits with rfl | hlt
      · linarith
      · linarith
    have horder := congrArg (·[m]?) h.order
    rw [List.getElem?_append_left hm, List.getElem?_append_left hlt] at horder
    exact horder.symm.trans hx

end

end Lib
