import PacketSim.Forward.Tracing
import PacketSim.Lib.Dict
import PacketSim.Lib.Except

/-!
# Forward — Budget

How large `max_hops` has to be.  A packet that arrives goes through every router at most once, so
with two hops more than there are other routers the budget is spent only on a packet that never
arrives, and the report decides the arrival (`trace_decides`).  In `forward.py` such a packet is in
a loop, as the comment on the budget says.

One hop less is too few: see `getPacketRoute_last_hop`.
-/

namespace PacketSim
open Lib

namespace Forward

section
variable {α : Type} [DecidableEq α] {marker destination source : α}
  {hop : α → Except PyError (Option α)} {maxHops : ℕ} {known : Finset α}

/-- The packet arrives, however many hops it takes. -/
def Arrives (destination : α) (hop : α → Except PyError (Option α)) (source : α) : Prop :=
  ∃ visited, Trail (chosen hop) destination source visited destination

/-- The report on a packet, and why: it arrived along the nodes listed; or it never arrives, and is
refused by the last of the nodes, or in a loop. -/
inductive Verdict (marker destination : α) (hop : α → Except PyError (Option α)) (source : α) :
    List α → Prop where
  | arrived {visited : List α} (t : Trail (chosen hop) destination source visited destination) :
      Verdict marker destination hop source visited
  | refused {visited : List α} {last : α} (t : Trail (chosen hop) destination source visited last)
      (hnever : ¬ Arrives destination hop source) (hlast : hop last = .ok none) :
      Verdict marker destination hop source (visited ++ [marker])
  | loops {visited : List α} {last : α} (t : Trail (chosen hop) destination source visited last)
      (hnever : ¬ Arrives destination hop source) (hloop : ¬ visited.Nodup) :
      Verdict marker destination hop source (visited ++ [marker])

/-- **What the report decides.** -/
theorem trace_decides (marker : α) (hknown : ∀ v x, chosen hop v = some x → v ∈ known)
    (hbudget : (known.erase destination).card + 2 ≤ maxHops)
    (ha : Answers destination hop source maxHops) :
    ∃ hops, trace marker destination hop source maxHops = .ok hops ∧
      Verdict marker destination hop source hops := by
  obtain ⟨hops, visited, last, hok, t, he⟩ := @trace_spec _ marker _ _ _ _ _ (by omega) ha
  refine ⟨hops, hok, ?_⟩
  cases he with
  | arrived hlen hlast =>
      subst hlast
      exact .arrived t
  | refused hlen hlast hno =>
      obtain ⟨r, hr⟩ := ha _ _ t hlast hlen
      obtain rfl : r = none := by simpa [chosen, hr, Except.toOption] using hno
      refine .refused t ?_ hr
      rintro ⟨visited', t'⟩
      -- both have ended, so they are the same
      have hle := t.length_le (.inr hno) t'
      have hge := t'.length_le (.inl rfl) t
      obtain rfl := t.eq_of_length t' (le_antisymm hge hle)
      exact hlast (Option.some.inj (t.getLast?.symm.trans t'.getLast?))
  | spent hlen =>
      refine .loops t ?_ fun hnodup => ?_
      · rintro ⟨visited', t'⟩
        have hle := t'.length_le (.inl rfl) t
        have hshort := t'.length_le_card (t'.nodup rfl) hknown
        omega
      · have hshort := t.length_le_card hnodup hknown
        omega

/-- The routers other than the destination. -/
theorem card_erase_le {β : Type} [DecidableEq β] (node : β → α) (known : List β) (d : β) :
    ((known.map node).toFinset.erase (node d)).card ≤ (known.erase d).length := by
  have hsub : (known.map node).toFinset.erase (node d) ⊆ ((known.erase d).map node).toFinset := by
    intro v hv
    obtain ⟨hne, hv⟩ := Finset.mem_erase.mp hv
    obtain ⟨k, hk, rfl⟩ := List.mem_map.mp (List.mem_toFinset.mp hv)
    have hkd : k ≠ d := fun heq => hne (congrArg node heq)
    exact List.mem_toFinset.mpr (List.mem_map_of_mem ((List.mem_erase_of_ne hkd).mpr hk))
  calc _ ≤ ((known.erase d).map node).toFinset.card := Finset.card_le_card hsub
    _ ≤ ((known.erase d).map node).length := List.toFinset_card_le _
    _ = (known.erase d).length := List.length_map _

end

/-! ### Both programs -/

/-- A router that is asked is in the network, and one with tables refuses no packet. -/
theorem hop_eq_ok {networkMap : Dict String Router} {dstIp currentHop : String} {r : Option String}
    (h : hop networkMap dstIp currentHop = .ok r) : currentHop ∈ networkMap.keys ∧ r ≠ none := by
  obtain ⟨router, hrouter, h⟩ := bind_eq_ok.mp h
  obtain ⟨neighbor, -, h⟩ := bind_eq_ok.mp h
  cases h
  exact ⟨Dict.mem_keys_of_get? (getItem_eq_ok.mp hrouter), nofun⟩

theorem Sdn.hop_eq_ok {networkMap : Dict String SDNRouter} {packet : Packet}
    {currentHop : Option String} {r : Option (Option String)}
    (h : hop networkMap packet currentHop = .ok r) :
    currentHop ∈ networkMap.keys.map some := by
  cases currentHop with
  | none => cases h
  | some address =>
      obtain ⟨router, hrouter, -⟩ := bind_eq_ok.mp h
      exact List.mem_map_of_mem (Dict.mem_keys_of_get? (getItem_eq_ok.mp hrouter))

/-- The node chosen is an answer. -/
theorem ok_of_chosen {α : Type} {hop : α → Except PyError (Option α)} {v x : α}
    (h : chosen hop v = some x) : hop v = .ok (some x) := by
  cases hr : hop v with
  | ok r => exact congrArg Except.ok (by simpa [chosen, hr, Except.toOption] using h)
  | error e => simp [chosen, hr, Except.toOption] at h

/-- **When the budget is large enough.**  With two hops more than there are routers other than the
destination, the reports decide whether a packet arrives: they list its nodes if it does; and if not
they end with the marker, at a router that refuses the packet or after a loop, and in `forward.py`
after a loop always. -/
theorem getPacketRoute_decides (maxHops : ℕ) :
    (∀ (networkMap : Dict String Router) (srcIp dstIp : String),
      (networkMap.keys.erase dstIp).length + 2 ≤ maxHops →
      Answers dstIp (hop networkMap dstIp) srcIp maxHops →
      ∃ hops, getPacketRoute srcIp dstIp networkMap maxHops = .ok hops ∧
        (Arrives dstIp (hop networkMap dstIp) srcIp →
          Trail (chosen (hop networkMap dstIp)) dstIp srcIp hops dstIp) ∧
        (¬ Arrives dstIp (hop networkMap dstIp) srcIp → ∃ visited last,
          hops = visited ++ ["x (dropped)"] ∧ ¬ visited.Nodup ∧
            Trail (chosen (hop networkMap dstIp)) dstIp srcIp visited last)) ∧
    (∀ (networkMap : Dict String Sdn.SDNRouter) (packet : Sdn.Packet),
      (networkMap.keys.erase packet.dstIp).length + 2 ≤ maxHops →
      Answers (some packet.dstIp) (Sdn.hop networkMap packet) (some packet.srcIp) maxHops →
      ∃ hops, Sdn.getPacketRoute packet networkMap maxHops = .ok hops ∧
        Verdict (some "x (dropped)") (some packet.dstIp) (Sdn.hop networkMap packet)
          (some packet.srcIp) hops) := by
  refine ⟨fun networkMap srcIp dstIp hbudget ha => ?_, fun networkMap packet hbudget ha => ?_⟩
  · have hknown : ∀ v x, chosen (hop networkMap dstIp) v = some x →
        v ∈ (networkMap.keys.map id).toFinset :=
      fun v x hx => by simpa using (hop_eq_ok (ok_of_chosen hx)).1
    obtain ⟨hops, hok, hverdict⟩ := trace_decides "x (dropped)" hknown
      ((Nat.add_le_add_right (card_erase_le id _ dstIp) 2).trans hbudget) ha
    refine ⟨hops, hok, fun harrives => ?_, fun hnever => ?_⟩
    · cases hverdict with
      | arrived t => exact t
      | refused _ hnever => exact absurd harrives hnever
      | loops _ hnever => exact absurd harrives hnever
    · cases hverdict with
      | arrived t => exact absurd ⟨_, t⟩ hnever
      | refused _ _ hlast => exact absurd rfl (hop_eq_ok hlast).2
      | loops t _ hloop => exact ⟨_, _, rfl, hloop, t⟩
  · have hknown : ∀ v x, chosen (Sdn.hop networkMap packet) v = some x →
        v ∈ (networkMap.keys.map some).toFinset :=
      fun v x hx => List.mem_toFinset.mpr (Sdn.hop_eq_ok (ok_of_chosen hx))
    have hcard := card_erase_le some networkMap.keys packet.dstIp
    exact trace_decides _ hknown ((Nat.add_le_add_right hcard 2).trans hbudget) ha

theorem getPacketRoute_decides_line :
    (∃ hops, getPacketRoute "0" "7" line 9 = .ok hops ∧
      (Arrives "7" (hop line "7") "0" → Trail (chosen (hop line "7")) "7" "0" hops "7") ∧
      (¬ Arrives "7" (hop line "7") "0" → ∃ visited last,
        hops = visited ++ ["x (dropped)"] ∧ ¬ visited.Nodup ∧
          Trail (chosen (hop line "7")) "7" "0" visited last)) ∧
    (∃ hops, Sdn.getPacketRoute toEnd sdnLine 9 = .ok hops ∧
      Verdict (some "x (dropped)") (some toEnd.dstIp) (Sdn.hop sdnLine toEnd) (some toEnd.srcIp)
        hops) :=
  ⟨(getPacketRoute_decides 9).1 line "0" "7" (by decide +kernel) (answers_line 9),
    (getPacketRoute_decides 9).2 sdnLine toEnd (by decide +kernel) (answers_sdnLine 9)⟩

end Forward

end PacketSim
