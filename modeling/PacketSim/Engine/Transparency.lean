import PacketSim.Engine.Recast
import PacketSim.Engine.Blocking

/-!
# Engine — Transparency

SDN mode changes nothing for traffic it does not block.  The routers of `build_demo_sdn_routers` and
those of `build_routers` over the same tables differ only in their rules, and for a packet that does
not go to the blocked port no rule applies.

* `sdn_transparent`: the two runs are the same but for `use_sdn` and the rules.
-/

namespace PacketSim
open Lib

/-- SDN is off, and no router has rules. -/
def Recast.withoutSdn : Recast := ⟨id, fun _ => false, fun _ => none, fun _ => rfl⟩

/-- Without its rules an SDN router is a plain one. -/
theorem withoutSdn_demo {tables : Dict Int (Dict Int Int)} {firewallRouter : Option Int}
    {delayMs : ℚ} {port : ℕ} :
    (buildDemoSdnRouters tables firewallRouter delayMs port).map
      (fun _ => Recast.withoutSdn.router) = buildRouters tables delayMs := by
  rw [buildDemoSdnRouters, Dict.map_map]
  refine Dict.map_congr fun x _ => ?_
  split_ifs
  · rfl
  · rfl

/-- A plain router has no rules to lose. -/
theorem withoutSdn_plain {tables : Dict Int (Dict Int Int)} {delayMs : ℚ} :
    (buildRouters tables delayMs).map (fun _ => Recast.withoutSdn.router) =
      buildRouters tables delayMs := by
  rw [buildRouters, Dict.map_map]
  rfl

theorem wiring_plain {tables : Dict Int (Dict Int Int)} {delayMs : ℚ} :
    (buildRouters tables delayMs).map (fun _ r => r.wiring) = buildRouters tables delayMs := by
  rw [buildRouters, Dict.map_map]
  rfl

/-- The rules of the firewall do not apply to traffic for another port. -/
theorem agrees_demo {s : Setting} {tables : Dict Int (Dict Int Int)} {firewallRouter : Option Int}
    {delayMs : ℚ} {port : ℕ}
    (h : s.routers = buildDemoSdnRouters tables firewallRouter delayMs port)
    (hport : s.trafficPort ≠ port) : Recast.withoutSdn.Agrees s := by
  intro v r hr p hp
  rw [h] at hr
  rw [applyRules_demo hr, if_neg fun hblocked => hport (hp.symm.trans hblocked.2.1)]
  rfl

theorem agrees_plain {s : Setting} {tables : Dict Int (Dict Int Int)} {delayMs : ℚ}
    (h : s.routers = buildRouters tables delayMs) : Recast.withoutSdn.Agrees s := by
  intro v r hr p _
  rw [h, buildRouters, Dict.get?_map] at hr
  obtain ⟨table, -, rfl⟩ := Option.map_eq_some_iff.mp hr
  rfl

namespace Engine

variable {σ : Type}

/-- The engine but for `use_sdn`, and the class and the rules of its routers. -/
def plain (e : Engine σ) : Engine σ :=
  { e with useSdn := false, routers := e.routers.map fun _ r => { r with rules := none } }

/-- **SDN mode is transparent to what it does not block.**  Two engines agree but for `use_sdn` and
their routers' rules; the routers of one are those of `build_demo_sdn_routers`, of the other those
of `build_routers`, over the same tables; and the traffic does not go to the blocked port.  Then
`start_run` and any updates take them through states that agree, draws included; and if one raises,
the other raises the same. -/
theorem sdn_transparent [RandomSource σ] {e₁ e₂ : Engine σ} {tables : Dict Int (Dict Int Int)}
    {firewallRouter : Option Int} {delayMs : ℚ} {port : ℕ}
    (h₁ : e₁.setting.routers = buildDemoSdnRouters tables firewallRouter delayMs port)
    (h₂ : e₂.setting.routers = buildRouters tables delayMs) (hport : e₁.trafficPort ≠ port)
    (h : e₁.plain = e₂.plain) (dts : List ℚ) :
    (e₁.ticks dts).map plain = (e₂.ticks dts).map plain :=
  calc (e₁.ticks dts).map plain = (e₁.recast .withoutSdn).ticks dts :=
        (ticks_recast (agrees_demo h₁ hport) dts).symm
    _ = (e₂.recast .withoutSdn).ticks dts := congrArg (ticks · dts) h
    _ = (e₂.ticks dts).map plain := ticks_recast (agrees_plain h₂) dts

/-- The engine with other routers. -/
def withRouters (e : Engine σ) (routers : Dict Int Router) : Engine σ := { e with routers }

/-- The forwarding tables of the ring. -/
def ringTables : Dict Int (Dict Int Int) :=
  (Steady.engine "Redundant Ring" .tcp).graphManager.buildForwardingTables.toOption.getD .empty

/-- The ring, with its firewall at 4 and with plain routers; the traffic goes to 443, 80 is
blocked. -/
theorem sdn_transparent_ring :
    (((Steady.engine "Redundant Ring" .tcp).withRouters
        (buildDemoSdnRouters ringTables (some 4) processingDelayMs)).ticks
        [0, 100, 500]).map plain =
      (((Steady.engine "Redundant Ring" .tcp).withRouters
        (buildRouters ringTables processingDelayMs)).ticks [0, 100, 500]).map plain := by
  have hsame : ∀ (e : Engine Steady) (tables : Dict Int (Dict Int Int)), e.trafficPort ≠ 80 →
      ((e.withRouters (buildDemoSdnRouters tables (some 4) processingDelayMs)).ticks
          [0, 100, 500]).map plain =
        ((e.withRouters (buildRouters tables processingDelayMs)).ticks [0, 100, 500]).map plain :=
    fun e tables hport => sdn_transparent
      (show (e.withRouters (buildDemoSdnRouters tables (some 4) _)).setting.routers = _ from
        wiring_demo)
      (show (e.withRouters (buildRouters tables _)).setting.routers = _ from wiring_plain)
      hport (congrArg (fun routers => { e with useSdn := false, routers })
        (withoutSdn_demo.trans withoutSdn_plain.symm)) _
  exact hsame _ _ (by decide +kernel)

end Engine

end PacketSim
