import Mathlib

/-!
# Lib — Framing

Messages of one fixed length on a stream that keeps no boundaries.

* `Framed.split`: a reader that takes exactly one length at a time gets exactly the messages that
  were written.
* `Torn`: the same for a writer that may fail in the middle of its last message.
* `cut`: the messages themselves.
-/

namespace Lib

variable {β : Type*} {P : List β → Prop} {n : ℕ} {f l : List β}

/-- The stream is a sequence of whole messages, each satisfying `P`. -/
inductive Framed (P : List β → Prop) : List β → Prop where
  | nil : Framed P []
  | cons {f l : List β} (hf : P f) (h : Framed P l) : Framed P (f ++ l)

theorem Framed.append {l' : List β} (h : Framed P l) (h' : Framed P l') : Framed P (l ++ l') := by
  induction h with
  | nil => exact h'
  | cons hf _ ih =>
      rw [List.append_assoc]
      exact .cons hf ih

/-- Writing one more message. -/
theorem Framed.snoc (h : Framed P l) (hf : P f) : Framed P (l ++ f) := by
  have hone : Framed P f := List.append_nil f ▸ .cons hf .nil
  exact h.append hone

/-- Reading one message. -/
theorem Framed.split (hlen : ∀ f, P f → f.length = n) (hn : 0 < n) (h : Framed P (f ++ l))
    (hf : f.length = n) : P f ∧ Framed P l := by
  generalize hs : f ++ l = s at h
  cases h with
  | nil =>
      obtain ⟨rfl, -⟩ := List.append_eq_nil_iff.mp hs
      exact absurd hf (by simp [hn.ne])
  | cons hg h =>
      obtain ⟨rfl, rfl⟩ := List.append_inj hs (hf.trans (hlen _ hg).symm)
      exact ⟨hg, h⟩

theorem Framed.imp {Q : List β → Prop} (h : Framed P l) (himp : ∀ f, P f → Q f) : Framed Q l := by
  induction h with
  | nil => exact .nil
  | cons hf _ ih => exact .cons (himp _ hf) ih

/-! ### A writer that fails -/

/-- The stream is a sequence of whole messages.  If the writer has gone, the last one may have lost
its end. -/
def Torn (P : List β → Prop) (gone : Prop) (l : List β) : Prop :=
  ∃ lost, Framed P (l ++ lost) ∧ (¬ gone → lost = [])

namespace Torn

variable {gone gone' : Prop}

theorem nil : Torn P gone [] := ⟨[], .nil, fun _ => rfl⟩

theorem mono (h : Torn P gone l) (himp : gone → gone') : Torn P gone' l := by
  obtain ⟨lost, hframed, hlost⟩ := h
  exact ⟨lost, hframed, fun hthere => hlost fun hgone => hthere (himp hgone)⟩

/-- Nothing is written. -/
theorem stay (h : Torn P gone l) (himp : gone → gone') : Torn P gone' (l ++ []) := by
  rw [List.append_nil]
  exact h.mono himp

theorem imp {Q : List β → Prop} (h : Torn P gone l) (himp : ∀ f, P f → Q f) : Torn Q gone l := by
  obtain ⟨lost, hframed, hlost⟩ := h
  exact ⟨lost, hframed.imp himp, hlost⟩

theorem framed (h : Torn P gone l) (hthere : ¬ gone) : Framed P l := by
  obtain ⟨lost, hframed, hlost⟩ := h
  rwa [hlost hthere, List.append_nil] at hframed

/-- A write that goes through. -/
theorem write (h : Torn P gone l) (hthere : ¬ gone) (hf : P f) : Torn P gone' (l ++ f) := by
  refine ⟨[], ?_, fun _ => rfl⟩
  rw [List.append_nil]
  exact (h.framed hthere).snoc hf

/-- A write that fails after `k` items. -/
theorem fail (h : Torn P gone l) (hthere : ¬ gone) (hf : P f) (hgone : gone') (k : ℕ) :
    Torn P gone' (l ++ f.take k) := by
  refine ⟨f.drop k, ?_, fun hthere' => absurd hgone hthere'⟩
  rw [List.append_assoc, List.take_append_drop]
  exact (h.framed hthere).snoc hf

/-- A read of one message. -/
theorem read (hlen : ∀ f, P f → f.length = n) (hn : 0 < n) (h : Torn P gone (f ++ l))
    (hf : f.length = n) : P f ∧ Torn P gone l := by
  obtain ⟨lost, hframed, hlost⟩ := h
  rw [List.append_assoc] at hframed
  obtain ⟨hmessage, hrest⟩ := hframed.split hlen hn hf
  exact ⟨hmessage, lost, hrest, hlost⟩

end Torn

/-! ### The messages -/

/-- The stream in pieces of `n` items; what is left at its end is no piece. -/
def cut (n : ℕ) (l : List β) : List (List β) :=
  (List.range (l.length / n)).map fun i => (l.drop (n * i)).take n

@[simp] theorem cut_nil (n : ℕ) : cut n ([] : List β) = [] := by simp [cut]

theorem cut_append (hn : 0 < n) (hf : f.length = n) (l : List β) :
    cut n (f ++ l) = f :: cut n l := by
  have hlen : (f ++ l).length / n = l.length / n + 1 := by
    rw [List.length_append, hf, Nat.add_div_left _ hn]
  rw [cut, hlen, List.range_succ_eq_map, List.map_cons, List.map_map]
  congr 1
  · rw [Nat.mul_zero, List.drop_zero, List.take_left' hf]
  · refine List.map_congr_left fun i _ => ?_
    have hdrop : n * (i + 1) = f.length + n * i := by rw [hf, Nat.mul_succ, Nat.add_comm]
    rw [Function.comp_apply, Nat.succ_eq_add_one, hdrop, List.drop_length_add_append]

/-- Writing more to whole messages. -/
theorem Framed.cut_append (hlen : ∀ f, P f → f.length = n) (hn : 0 < n) (h : Framed P l)
    (l' : List β) : cut n (l ++ l') = cut n l ++ cut n l' := by
  induction h with
  | nil => rw [cut_nil, List.nil_append, List.nil_append]
  | cons hf _ ih =>
      rw [List.append_assoc, Lib.cut_append hn (hlen _ hf), Lib.cut_append hn (hlen _ hf), ih,
        List.cons_append]

end Lib
