import Mathlib

/-!
# Lib — Losses

Items sent over a network that may lose, copy and reorder them.  Copies of one item are equal, so
the network holds a multiset of items.  Whatever it does, each item sent is delivered, or still
under way, or one of the lost, of which there are no more than losses counted (`Accounted`).
-/

namespace Lib

variable {κ : Type*} {sent delivered : Finset κ} {live live' M : Multiset κ} {lost : ℕ} {k : κ}

/-- All that was sent was delivered, is live, or is one of at most `lost` losses. -/
def Accounted (sent delivered : Finset κ) (live : Multiset κ) (lost : ℕ) : Prop :=
  ∃ L : Finset κ, L.card ≤ lost ∧ ∀ k ∈ sent, k ∈ delivered ∨ k ∈ live ∨ k ∈ L

namespace Accounted

theorem empty : Accounted (∅ : Finset κ) delivered live lost := ⟨∅, Nat.zero_le _, by simp⟩

/-- Items may be copied and moved about. -/
theorem mono (h : Accounted sent delivered live lost) (hlive : live ⊆ live') :
    Accounted sent delivered live' lost := by
  obtain ⟨L, hL, hall⟩ := h
  exact ⟨L, hL, fun k hk => (hall k hk).imp_right (Or.imp_left (@hlive k))⟩

/-- Where nothing was lost and nothing is under way, all is delivered. -/
theorem all_delivered (h : Accounted sent delivered 0 0) : sent ⊆ delivered := by
  obtain ⟨L, hL, hall⟩ := h
  obtain rfl := Finset.card_eq_zero.mp (Nat.le_zero.mp hL)
  exact fun k hk => (hall k hk).resolve_right (by simp)

variable [DecidableEq κ]

theorem send (h : Accounted sent delivered live lost) (k : κ) :
    Accounted (insert k sent) delivered (k ::ₘ live) lost := by
  obtain ⟨L, hL, hall⟩ := h
  refine ⟨L, hL, fun j hj => ?_⟩
  rcases Finset.mem_insert.mp hj with rfl | hj
  · exact .inr (.inl (Multiset.mem_cons_self j live))
  · exact (hall j hj).imp_right (Or.imp_left Multiset.mem_cons_of_mem)

theorem lose (h : Accounted sent delivered (k ::ₘ live) lost) :
    Accounted sent delivered live (lost + 1) := by
  obtain ⟨L, hL, hall⟩ := h
  refine ⟨insert k L, (Finset.card_insert_le k L).trans (Nat.succ_le_succ hL), fun j hj => ?_⟩
  rcases hall j hj with hd | hl | hl
  · exact .inl hd
  · rcases Multiset.mem_cons.mp hl with rfl | hl
    · exact .inr (.inr (Finset.mem_insert_self j L))
    · exact .inr (.inl hl)
  · exact .inr (.inr (Finset.mem_insert_of_mem hl))

theorem deliver (h : Accounted sent delivered (k ::ₘ live) lost) :
    Accounted sent (insert k delivered) live lost := by
  obtain ⟨L, hL, hall⟩ := h
  refine ⟨L, hL, fun j hj => ?_⟩
  rcases hall j hj with hd | hl | hl
  · exact .inl (Finset.mem_insert_of_mem hd)
  · rcases Multiset.mem_cons.mp hl with rfl | hl
    · exact .inl (Finset.mem_insert_self j delivered)
    · exact .inr (.inl hl)
  · exact .inr (.inr hl)

/-- No more items are missing than copies were lost. -/
theorem card_le (h : Accounted sent delivered live lost) :
    sent.card ≤ delivered.card + (live.toFinset \ delivered).card + lost := by
  obtain ⟨L, hL, hall⟩ := h
  have hsub : sent ⊆ (delivered ∪ (live.toFinset \ delivered)) ∪ L := fun k hk => by
    have := hall k hk
    simp only [Finset.mem_union, Finset.mem_sdiff, Multiset.mem_toFinset]
    tauto
  calc sent.card ≤ ((delivered ∪ (live.toFinset \ delivered)) ∪ L).card := Finset.card_le_card hsub
    _ ≤ (delivered ∪ (live.toFinset \ delivered)).card + L.card := Finset.card_union_le _ _
    _ ≤ delivered.card + (live.toFinset \ delivered).card + lost :=
        Nat.add_le_add (Finset.card_union_le _ _) hL

end Accounted

end Lib
