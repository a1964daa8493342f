import PacketSim.Graph.Definitions
import PacketSim.Lib.Trail

/-!
# Forward — Tracing

`packet-forward/`: the two exercises that trace a packet router by router, `forward.py` with
forwarding tables and `sdn.py` with rules.  Their `get_packet_route` functions are two copies of
one loop, `traceLoop`, here taken over what it appends (`marker`) and how it asks a router
(`hop`); `hop` gives `none` where `sdn.py` sees a router drop the packet.  The printed text is left
out.

* `trace_spec`: what the loop returns, in three cases.
* `truthful_iff`: the report is right about the arrival (`Truthful`) exactly when the packet does
  not reach its destination on the very last of `max_hops - 1` moves.  The loop tests the budget
  before the arrival, so there it appends the marker to a packet that has arrived.
* `getPacketRoute_truthful`: the same for both programs.
-/

namespace PacketSim
open Lib

namespace Forward

/-! ### The loop -/

section
variable {α : Type}

/-- The `for i in range(max_hops)` loop.  `hops` is held as `front` and its last node, the current
hop. -/
def traceLoop [DecidableEq α] (marker destination : α) (hop : α → Except PyError (Option α))
    (maxHops : ℕ) :
    List ℕ → List α → α → Except PyError (List α)
  | [], front, currentHop => .ok (front ++ [currentHop])
  | i :: is, front, currentHop =>
      -- the budget comes first, also for a packet that stands at its destination
      if i = maxHops - 1 then .ok (front ++ [currentHop, marker])
      else if currentHop = destination then .ok (front ++ [currentHop])
      else do
        match ← hop currentHop with
        | none => .ok (front ++ [currentHop, marker])
        | some nextHop =>
            traceLoop marker destination hop maxHops is (front ++ [currentHop]) nextHop

/-- The loop from the source, with no hop taken. -/
def trace [DecidableEq α] (marker destination : α) (hop : α → Except PyError (Option α))
    (source : α) (maxHops : ℕ) : Except PyError (List α) :=
  traceLoop marker destination hop maxHops (List.range maxHops) [] source

/-- The node a router sends the packet to, if it answers and does not drop. -/
def chosen (hop : α → Except PyError (Option α)) (node : α) : Option α := (hop node).toOption.join

/-- Every lookup the loop makes succeeds: at the nodes visited before the destination and before
the last of `maxHops` nodes. -/
def Answers (destination : α) (hop : α → Except PyError (Option α)) (source : α)
    (maxHops : ℕ) : Prop :=
  ∀ p v, Trail (chosen hop) destination source p v → v ≠ destination → p.length < maxHops →
    ∃ r, hop v = .ok r

/-- The report `hops` lists a packet's nodes from `source`, each chosen by the router before it and
only the last of them possibly the destination, and then the marker exactly when the last is not
the destination. -/
def Truthful (marker destination : α) (hop : α → Except PyError (Option α)) (source : α)
    (hops : List α) : Prop :=
  ∃ (visited : List α) (last : α) (dropped : Bool),
    hops = visited ++ (if dropped then [marker] else []) ∧
      Trail (chosen hop) destination source visited last ∧ (dropped = true ↔ last ≠ destination)

/-- The packet first reaches the destination after exactly `maxHops - 1` moves. -/
def ArrivesLast (destination : α) (hop : α → Except PyError (Option α)) (source : α)
    (maxHops : ℕ) : Prop :=
  ∃ visited, Trail (chosen hop) destination source visited destination ∧ visited.length = maxHops

variable {marker destination source : α} {hop : α → Except PyError (Option α)} {maxHops : ℕ}

/-- How the loop ends: at the destination within the budget, at a router that drops, or with the
budget spent, wherever the packet is. -/
inductive Ends (marker destination : α) (hop : α → Except PyError (Option α)) (maxHops : ℕ)
    (visited : List α) (last : α) : List α → Prop where
  | arrived (hlen : visited.length < maxHops) (hlast : last = destination) :
      Ends marker destination hop maxHops visited last visited
  | refused (hlen : visited.length < maxHops) (hlast : last ≠ destination)
      (hno : chosen hop last = none) :
      Ends marker destination hop maxHops visited last (visited ++ [marker])
  | spent (hlen : visited.length = maxHops) :
      Ends marker destination hop maxHops visited last (visited ++ [marker])

/-- The induction is on the iterations left; `front` holds one node for each iteration made. -/
theorem traceLoop_spec [DecidableEq α] (ha : Answers destination hop source maxHops) :
    ∀ (n : ℕ) (front : List α) (currentHop : α), 0 < n → front.length + n = maxHops →
      Trail (chosen hop) destination source (front ++ [currentHop]) currentHop →
      ∃ hops visited last,
        traceLoop marker destination hop maxHops (List.range' front.length n) front currentHop =
            .ok hops ∧
          Trail (chosen hop) destination source visited last ∧
          Ends marker destination hop maxHops visited last hops := by
  intro n
  induction n with
  | zero => exact fun _ _ h => absurd h (by omega)
  | succ n ih =>
      intro front u _ hn t
      have hlen : (front ++ [u]).length = front.length + 1 := by simp
      have happ : front ++ [u, marker] = front ++ [u] ++ [marker] := by simp
      rw [List.range'_succ, traceLoop]
      by_cases hlast : front.length = maxHops - 1
      · rw [if_pos hlast]
        refine ⟨_, front ++ [u], u, rfl, t, ?_⟩
        rw [happ]
        exact .spent (by omega)
      · rw [if_neg hlast]
        by_cases hu : u = destination
        · rw [if_pos hu]
          exact ⟨_, front ++ [u], u, rfl, t, .arrived (by omega) hu⟩
        · rw [if_neg hu]
          obtain ⟨r, hr⟩ := ha _ _ t hu (by omega)
          cases r with
          | none =>
              refine ⟨front ++ [u, marker], front ++ [u], u, by simp [hr, bind, Except.bind], t, ?_⟩
              rw [happ]
              exact .refused (by omega) hu (by simp [chosen, hr, Except.toOption])
          | some x =>
              have hx : chosen hop u = some x := by simp [chosen, hr, Except.toOption]
              obtain ⟨hops, visited, v, hok, tv, he⟩ := ih (front ++ [u]) x (by omega) (by omega)
                (t.concat hu hx)
              refine ⟨hops, visited, v, ?_, tv, he⟩
              rw [← hok, hlen]
              simp [hr, bind, Except.bind]

theorem trace_spec [DecidableEq α] (hm : 1 ≤ maxHops)
    (ha : Answers destination hop source maxHops) :
    ∃ hops visited last, trace marker destination hop source maxHops = .ok hops ∧
      Trail (chosen hop) destination source visited last ∧
      Ends marker destination hop maxHops visited last hops := by
  have h := @traceLoop_spec _ marker _ _ _ _ _ ha maxHops [] source hm (by simp) (.single source)
  rwa [List.length_nil, ← List.range_eq_range'] at h

/-- A trail followed by the marker is no trail that arrives earlier. -/
theorem visited_eq {visited visited' : List α} {last last' : α} {dropped : Bool}
    (hlast : last = destination) (t : Trail (chosen hop) destination source visited last)
    (t' : Trail (chosen hop) destination source visited' last')
    (h : visited ++ [marker] = visited' ++ (if dropped then [marker] else [])) :
    dropped = true ∧ visited = visited' := by
  cases dropped with
  | true => exact ⟨rfl, List.append_cancel_right h⟩
  | false =>
      obtain rfl : visited ++ [marker] = visited' := by simpa using h
      exact absurd (List.mem_of_getLast? (hlast ▸ t.getLast?)) t'.not_mem

/-- **When the loop's report is right about the arrival.** -/
theorem truthful_iff [DecidableEq α] (hm : 1 ≤ maxHops)
    (ha : Answers destination hop source maxHops) :
    ∃ hops, trace marker destination hop source maxHops = .ok hops ∧
      (Truthful marker destination hop source hops ↔
        ¬ ArrivesLast destination hop source maxHops) := by
  obtain ⟨hops, visited, last, hok, t, he⟩ := trace_spec hm ha
  refine ⟨hops, hok, ?_⟩
  -- a trail that ended within the budget leaves none of `maxHops` nodes
  have short : visited.length < maxHops → (last = destination ∨ chosen hop last = none) →
      ¬ ArrivesLast destination hop source maxHops := by
    rintro hlen hend ⟨visited', t', hlen'⟩
    have := t.length_le hend t'
    omega
  cases he with
  | arrived hlen hlast =>
      refine iff_of_true ⟨_, last, false, by simp, t, by simp [hlast]⟩ (short hlen ?_)
      exact .inl hlast
  | refused hlen hlast hno =>
      refine iff_of_true ⟨visited, last, true, by simp, t, by simp [hlast]⟩ (short hlen ?_)
      exact .inr hno
  | spent hlen =>
      by_cases hlast : last = destination
      · -- the marker is appended at the destination
        refine iff_of_false ?_ (not_not.mpr ⟨visited, hlast ▸ t, hlen⟩)
        rintro ⟨visited', last', dropped, heq, t', hiff⟩
        obtain ⟨hd, rfl⟩ := visited_eq hlast t t' heq
        have : some last = some last' := t.getLast?.symm.trans t'.getLast?
        exact hiff.mp hd ((Option.some.inj this).symm.trans hlast)
      · -- a trail of that length ends where this one does
        refine iff_of_true ⟨visited, last, true, by simp, t, by simp [hlast]⟩ ?_
        rintro ⟨visited', t', hlen'⟩
        obtain rfl : visited = visited' := t.eq_of_length t' (hlen.trans hlen'.symm)
        exact hlast (Option.some.inj (t.getLast?.symm.trans t'.getLast?))

/-- The report on a packet that arrives on the last move is not truthful. -/
theorem ArrivesLast.not_truthful [DecidableEq α] {hops : List α}
    (h : ArrivesLast destination hop source maxHops) (hm : 1 ≤ maxHops)
    (ha : Answers destination hop source maxHops)
    (run : trace marker destination hop source maxHops = .ok hops) :
    ¬ Truthful marker destination hop source hops := by
  obtain ⟨hops', hok, hiff⟩ := @truthful_iff _ marker _ _ _ _ _ hm ha
  obtain rfl : hops = hops' := Except.ok.inj (run.symm.trans hok)
  exact fun ht => hiff.mp ht h

/-- Lookups succeed along the way when they do on a set of nodes that the routers do not leave. -/
theorem answers_of_closed {S : List α} (hs : source ∈ S)
    (h : ∀ v ∈ S, (hop v).isOk ∧ ∀ x ∈ chosen hop v, x ∈ S) :
    Answers destination hop source maxHops := by
  have stays : ∀ u p v, Trail (chosen hop) destination u p v → u ∈ S → v ∈ S := by
    intro u p v t
    induction t with
    | single u => exact id
    | cons _ e _ ih => exact fun hu => ih ((h _ hu).2 _ e)
  intro p v t _ _
  have hv := stays _ _ _ t hs
  cases hr : hop v with
  | ok r => exact ⟨r, rfl⟩
  | error e => simpa [hr, Except.isOk, Except.toBool] using (h v hv).1

end

/-! ### `forward.py` -/

/-- An entry `None` of the table reads like no entry, so the table holds addresses only. -/
structure Router where
  ipAddress : String
  forwardTable : Dict String String

/-- The neighbour for an address, or for `*`. -/
def Router.forward (r : Router) (ipAddr : String) : Except PyError String :=
  match (r.forwardTable.get? ipAddr).orElse fun _ => r.forwardTable.get? "*" with
  | some neighbor => .ok neighbor
  | none => .error (.keyError ("No route from " ++ r.ipAddress ++ " to " ++ ipAddr))

/-- `network_map[current_hop].forward(dst_ip)` -/
def hop (networkMap : Dict String Router) (dstIp currentHop : String) :
    Except PyError (Option String) := do
  let router ← getItem networkMap currentHop
  return some (← router.forward dstIp)

/-- The hops of the demo, which end at the destination or with the marker. -/
def getPacketRoute (srcIp dstIp : String) (networkMap : Dict String Router)
    (maxHops : ℕ := 8) : Except PyError (List String) :=
  trace "x (dropped)" dstIp (hop networkMap dstIp) srcIp maxHops

/-! ### `sdn.py` -/

namespace Sdn

/-- The headers a rule can match. -/
structure Packet where
  srcIp : String
  dstIp : String
  srcPort : String
  dstPort : String

/-- The code compares `action_type` with `'forward'` and `'drop'`; on any other word it goes on to
the next rule. -/
inductive ActionType where
  | forward
  | drop
  | other (word : String)

/-- What a rule does with a packet. -/
structure Action where
  actionType : ActionType
  actionValue : Option String := none

/-- An address and its rules, the first match deciding. -/
structure SDNRouter where
  ipAddress : String
  rules : List ((Packet → Bool) × Action)

/-- The loop of `forward`.  The answer of a `'forward'` action built without a value is `None`. -/
def forwardLoop (packet : Packet) : List ((Packet → Bool) × Action) → Option String
  | [] => some "drop"
  | (matchFunc, action) :: rules =>
      if matchFunc packet then
        match action.actionType with
        | .forward => action.actionValue
        | .drop => some "drop"
        | .other _ => forwardLoop packet rules
      else forwardLoop packet rules

/-- The next address, if a rule forwards the packet. -/
def SDNRouter.forward (r : SDNRouter) (packet : Packet) : Option String :=
  forwardLoop packet r.rules

/-- `network_map[current_hop].forward(packet)`, compared with `'drop'`.  A hop that is `None` is no
key of the map. -/
def hop (networkMap : Dict String SDNRouter) (packet : Packet) (currentHop : Option String) :
    Except PyError (Option (Option String)) := do
  let some address := currentHop | .error (.keyError "None")
  let router ← getItem networkMap address
  let nextHop := router.forward packet
  return if nextHop = some "drop" then none else some nextHop

/-- The hops of the demo; a packet that is not forwarded is marked as dropped. -/
def getPacketRoute (packet : Packet) (networkMap : Dict String SDNRouter) (maxHops : ℕ := 8) :
    Except PyError (List (Option String)) :=
  trace (some "x (dropped)") (some packet.dstIp) (hop networkMap packet) (some packet.srcIp) maxHops

end Sdn

/-! ### Both programs -/

/-- **Whose report is right.**  For both `get_packet_route` functions, where every lookup on the way
succeeds: the function returns, and its report is truthful if and only if the packet does not first
reach its destination on the last of `max_hops - 1` moves. -/
theorem getPacketRoute_truthful (maxHops : ℕ) (hmax : 1 ≤ maxHops) :
    (∀ (networkMap : Dict String Router) (srcIp dstIp : String),
      Answers dstIp (hop networkMap dstIp) srcIp maxHops →
      ∃ hops, getPacketRoute srcIp dstIp networkMap maxHops = .ok hops ∧
        (Truthful "x (dropped)" dstIp (hop networkMap dstIp) srcIp hops ↔
          ¬ ArrivesLast dstIp (hop networkMap dstIp) srcIp maxHops)) ∧
    (∀ (networkMap : Dict String Sdn.SDNRouter) (packet : Sdn.Packet),
      Answers (some packet.dstIp) (Sdn.hop networkMap packet) (some packet.srcIp) maxHops →
      ∃ hops, Sdn.getPacketRoute packet networkMap maxHops = .ok hops ∧
        (Truthful (some "x (dropped)") (some packet.dstIp) (Sdn.hop networkMap packet)
            (some packet.srcIp) hops ↔
          ¬ ArrivesLast (some packet.dstIp) (Sdn.hop networkMap packet) (some packet.srcIp)
            maxHops)) :=
  ⟨fun _ _ _ ha => truthful_iff hmax ha, fun _ _ ha => truthful_iff hmax ha⟩

/-- Eight routers in a line. -/
def line : Dict String Router :=
  .ofList <| [("0", "1"), ("1", "2"), ("2", "3"), ("3", "4"), ("4", "5"), ("5", "6"), ("6", "7"),
    ("7", "6")].map fun e => (e.1, ⟨e.1, .ofList [("*", e.2)]⟩)

/-- The same line under rules, for packets to its end. -/
def sdnLine : Dict String Sdn.SDNRouter :=
  .ofList <| [("0", "1"), ("1", "2"), ("2", "3"), ("3", "4"), ("4", "5"), ("5", "6"),
    ("6", "7"), ("7", "6")].map fun e =>
      (e.1, ⟨e.1, [(fun packet => packet.dstIp = "7", ⟨.forward, some e.2⟩)]⟩)

/-- A packet for the end of the line. -/
def toEnd : Sdn.Packet := ⟨"0", "7", "34213", "8080"⟩

/-- The line. -/
def lineNodes : List String := ["0", "1", "2", "3", "4", "5", "6", "7"]

theorem answers_line (maxHops : ℕ) : Answers "7" (hop line "7") "0" maxHops :=
  answers_of_closed (S := lineNodes) (by decide) (by decide +kernel)

theorem answers_sdnLine (maxHops : ℕ) :
    Answers (some toEnd.dstIp) (Sdn.hop sdnLine toEnd) (some toEnd.srcIp) maxHops :=
  answers_of_closed (S := lineNodes.map some) (by decide) (by decide +kernel)

theorem getPacketRoute_truthful_line :
    (∃ hops, getPacketRoute "0" "7" line 9 = .ok hops ∧
      (Truthful "x (dropped)" "7" (hop line "7") "0" hops ↔
        ¬ ArrivesLast "7" (hop line "7") "0" 9)) ∧
    (∃ hops, Sdn.getPacketRoute toEnd sdnLine 9 = .ok hops ∧
      (Truthful (some "x (dropped)") (some toEnd.dstIp) (Sdn.hop sdnLine toEnd) (some toEnd.srcIp)
          hops ↔
        ¬ ArrivesLast (some toEnd.dstIp) (Sdn.hop sdnLine toEnd) (some toEnd.srcIp) 9)) :=
  ⟨(getPacketRoute_truthful 9 (by decide)).1 line "0" "7" (answers_line 9),
    (getPacketRoute_truthful 9 (by decide)).2 sdnLine toEnd (answers_sdnLine 9)⟩

/-- **A delivered packet reported dropped.**  With the default budget both programs append the
marker to a packet that has gone down the line and stands at its destination. -/
theorem getPacketRoute_last_hop :
    (Answers "7" (hop line "7") "0" 8 ∧
      getPacketRoute "0" "7" line = .ok (lineNodes ++ ["x (dropped)"]) ∧
      ¬ Truthful "x (dropped)" "7" (hop line "7") "0" (lineNodes ++ ["x (dropped)"])) ∧
    (Answers (some toEnd.dstIp) (Sdn.hop sdnLine toEnd) (some toEnd.srcIp) 8 ∧
      Sdn.getPacketRoute toEnd sdnLine = .ok ((lineNodes ++ ["x (dropped)"]).map some) ∧
      ¬ Truthful (some "x (dropped)") (some toEnd.dstIp) (Sdn.hop sdnLine toEnd)
        (some toEnd.srcIp) ((lineNodes ++ ["x (dropped)"]).map some)) := by
  have run : getPacketRoute "0" "7" line = .ok (lineNodes ++ ["x (dropped)"]) := by decide +kernel
  have runSdn :
      Sdn.getPacketRoute toEnd sdnLine = .ok ((lineNodes ++ ["x (dropped)"]).map some) := by
    decide +kernel
  have late : ArrivesLast "7" (hop line "7") "0" 8 :=
    ⟨lineNodes, .of_isChain (by decide +kernel) rfl, rfl⟩
  have lateSdn :
      ArrivesLast (some toEnd.dstIp) (Sdn.hop sdnLine toEnd) (some toEnd.srcIp) 8 :=
    ⟨lineNodes.map some, .of_isChain (by decide +kernel) rfl, rfl⟩
  exact ⟨⟨answers_line 8, run, late.not_truthful (by decide) (answers_line 8) run⟩,
    answers_sdnLine 8, runSdn, lateSdn.not_truthful (by decide) (answers_sdnLine 8) runSdn⟩

end Forward

end PacketSim
