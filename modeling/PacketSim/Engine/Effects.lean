import PacketSim.Engine.Flights

/-!
# Engine — Effects

What the engine does beside the steps of the network.  A callback touches neither the links nor the
markers nor the draws, and an arrival adds at most its marker (`Leaves`); a pass of a router may add
a drop marker, or flights, whose delays and losses alone are drawn (`dispatchRouter_cases`).
-/

namespace PacketSim
open Lib

namespace Engine

variable {σ : Type}

/-- What no callback and no arrival changes. -/
structure Links (σ : Type) where
  inFlightPackets : List InFlightPacket
  random : σ
  chaosDropRemaining : ℕ
  udpSentAll : Bool
  packetsDropped : ℕ

/-- The fields that an effect away from the links leaves alone. -/
def links (e : Engine σ) : Links σ where
  inFlightPackets := e.inFlightPackets
  random := e.random
  chaosDropRemaining := e.chaosDropRemaining
  udpSentAll := e.udpSentAll
  packetsDropped := e.stats.packetsDropped

/-- Markers are added, and the links are as they were. -/
structure Leaves (e e' : Engine σ) (markers : List PacketEvent) : Prop where
  packetEvents : e'.packetEvents = e.packetEvents ++ markers
  links : e'.links = e.links

variable {e e₁ e' : Engine σ} {l l' : List PacketEvent}

theorem Leaves.refl (e : Engine σ) : e.Leaves e [] := ⟨(List.append_nil _).symm, rfl⟩

theorem Leaves.trans (h : e.Leaves e₁ l) (h' : e₁.Leaves e' l') : e.Leaves e' (l ++ l') where
  packetEvents := by rw [h'.packetEvents, h.packetEvents, List.append_assoc]
  links := h'.links.trans h.links

/-! ### Callbacks and arrivals -/

theorem schedule_leaves {delayMs : ℚ} {c : Callback} (h : e.schedule delayMs c = .ok e') :
    e.Leaves e' [] := by
  unfold schedule at h
  dsimp only at h
  split at h
  · cases h
  · cases h
    exact ⟨(List.append_nil _).symm, rfl⟩

theorem enqueue_leaves {node : Int} {p : Packet} (h : e.enqueue node p = .ok e') :
    e.Leaves e' [] := by
  unfold enqueue at h
  split at h
  · cases h
  · cases h
    exact ⟨(List.append_nil _).symm, rfl⟩

/-- Injecting a packet counts it, and no more. -/
theorem injectPacket_leaves {p : Packet} (h : e.injectPacket p = .ok e') : e.Leaves e' [] := by
  have h' := enqueue_leaves h
  exact ⟨h'.packetEvents, h'.links⟩

theorem sendData_leaves {k : ℕ} {re : Bool} (h : e.sendData k re = .ok e') : e.Leaves e' [] := by
  unfold sendData at h
  split at h
  · cases h
    exact .refl _
  · dsimp only [makePacket] at h
    rw [bind_eq_ok] at h
    obtain ⟨e₁, h₁, h⟩ := h
    have hinject := injectPacket_leaves h₁
    have hsent : e.Leaves e₁ [] := ⟨hinject.packetEvents, hinject.links⟩
    split at h
    · have hschedule := schedule_leaves h
      exact hsent.trans ⟨hschedule.packetEvents, hschedule.links⟩
    · cases h
      exact ⟨hsent.packetEvents, hsent.links⟩

theorem runCallback_leaves {c : Callback} (h : e.runCallback c = .ok e') : e.Leaves e' [] := by
  cases c with
  | sendData k => exact sendData_leaves h
  | onTimeout k token =>
      rw [runCallback, onTimeout] at h
      split at h
      · cases h
        exact .refl _
      · split at h
        · cases h
          exact .refl _
        · exact sendData_leaves h

theorem runDueEvents_leaves {fuel : ℕ} (h : runDueEvents fuel e = .ok e') : e.Leaves e' [] :=
  runDueEvents_invariant (P := fun x => e.Leaves x []) (fun e₁ _ _ events _ _ h hs => by
    have hcallback := runCallback_leaves h
    have hpop : e.Leaves { e₁ with events } [] := ⟨hs.packetEvents, hs.links⟩
    exact hpop.trans hcallback) h (.refl e)

theorem sendAck_leaves {k : ℕ} (h : e.sendAck k = .ok e') : e.Leaves e' [] := by
  have h' := injectPacket_leaves h
  exact ⟨h'.packetEvents, h'.links⟩

theorem noteDelivered_leaves (e : Engine σ) (k : ℕ) : e.Leaves (e.noteDelivered k) [] := by
  unfold noteDelivered
  split
  · exact .refl _
  · exact ⟨(List.append_nil _).symm, rfl⟩

theorem onDataReceived_leaves {p : Packet} (h : e.onDataReceived p = .ok e') :
    e.Leaves e' [] := by
  unfold onDataReceived at h
  dsimp only at h
  split at h
  · exact (noteDelivered_leaves e p.sequence).trans (sendAck_leaves h)
  · cases h
    exact noteDelivered_leaves e p.sequence

theorem onAckReceived_leaves {p : Packet} (h : e.onAckReceived p = .ok e') : e.Leaves e' [] := by
  unfold onAckReceived at h
  split at h
  · cases h
    exact .refl _
  · dsimp only at h
    split at h
    · cases h
      exact ⟨(List.append_nil _).symm, rfl⟩
    · split at h
      · cases h
        exact ⟨(List.append_nil _).symm, rfl⟩
      · have h' := schedule_leaves h
        exact ⟨h'.packetEvents, h'.links⟩

/-- The marker of a packet that arrived at `node`. -/
def deliveryMarker (p : Packet) (node : Int) : PacketEvent where
  kind := .delivered
  node := some node
  label := if p.packetType = .ack then "ACK" else "SEQ " ++ toString p.sequence

/-- A packet at its destination leaves a marker there. -/
theorem handleArrival_leaves {f : InFlightPacket} (h : e.handleArrival f = .ok e') :
    e.Leaves e' (if f.endNode = f.packet.destination then [deliveryMarker f.packet f.endNode]
      else []) := by
  have hnoted : e.Leaves (e.recordDelivery (f.packet.arriveAt f.endNode))
      [deliveryMarker f.packet f.endNode] := ⟨rfl, rfl⟩
  unfold handleArrival at h
  dsimp only at h
  split at h
  · rename_i hdst
    rw [if_pos (show f.endNode = f.packet.destination from hdst)]
    split at h
    · exact hnoted.trans (onDataReceived_leaves h)
    · exact hnoted.trans (onAckReceived_leaves h)
  · rename_i hdst
    rw [if_neg (show f.endNode ≠ f.packet.destination from hdst)]
    exact enqueue_leaves h

/-- A run starts with the links empty and nothing marked. -/
theorem startRun_leaves (h : e.startRun = .ok e') : e'.packetEvents = [] ∧
    e'.links = ⟨[], e.random, 0, decide (e.mode = .udp), 0⟩ := by
  have hbegun : e.begun.packetEvents = [] ∧ e.begun.links = ⟨[], e.random, 0, false, 0⟩ :=
    ⟨rfl, rfl⟩
  cases hm : e.mode with
  | udp =>
      obtain ⟨e₁, h₁, rfl⟩ := (startRun_udp hm).mp h
      have hsends : e.begun.Leaves e₁ [] :=
        foldlM_invariant (P := fun x => e.begun.Leaves x [])
          (fun _ _ _ _ h hs => hs.trans (schedule_leaves h)) h₁ (.refl _)
      refine ⟨hsends.packetEvents.trans hbegun.1, ?_⟩
      have hlinks := hsends.links.trans hbegun.2
      exact congrArg (fun x : Links σ => { x with udpSentAll := true }) hlinks
  | tcp =>
      have hsend := schedule_leaves ((startRun_tcp hm).mp h)
      exact ⟨hsend.packetEvents.trans hbegun.1, hsend.links.trans hbegun.2⟩

end Engine

end PacketSim
