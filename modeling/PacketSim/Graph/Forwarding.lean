import PacketSim.Graph.Routes
import PacketSim.Lib.Except

/-!
# Graph — Forwarding

`build_forwarding_tables` over a graph with positive delays.  It returns tables exactly where the
delays have floats and every two nodes are joined by a route with a finite sum (`built_iff`); the
entry of a row for a destination is the second node of a `get_route` call of its own
(`entry_of_built`).

Where every route of least rounded sum starts as a shortest route does (`StartsShortest`), the
tables are a choice of one next node at each node (`Lib.Descends`), and following them is a shortest
route again, however the ties were broken (`forwarding_shortest`).  Bounded delays make it so
(`Small.startsShortest`); on `wide`, `far` and `huge` it fails (`forwarding_rounds`).  Managers
with the same graph have the same tables (`buildForwardingTables_congr`).
-/

namespace PacketSim
open Lib Lib.Dijkstra PacketSim.SimpleGraph

namespace GraphManager

variable {m : GraphManager}

/-! ### Routes and tables depend on the graph only -/

section Congr
variable {m' : GraphManager} (h : m.graph = m'.graph)
include h

theorem getEdgeDelay_congr : m.getEdgeDelay = m'.getEdgeDelay := by
  funext a b
  rw [getEdgeDelay, getEdgeDelay, h]

theorem searchLoop_congr (destination : Int) (fuel : ℕ) :
    m.searchLoop destination fuel = m'.searchLoop destination fuel := by
  have hrelax : m.relax = m'.relax := by
    funext currentDistance node st neighbor
    rw [relax, relax, getEdgeDelay_congr h]
  induction fuel with
  | zero =>
      funext st
      unfold searchLoop
      rfl
  | succ fuel ih =>
      funext st
      unfold searchLoop
      simp only [ih, hrelax, h]

theorem getRoute_congr : m.getRoute = m'.getRoute := by
  funext source destination
  rw [getRoute, getRoute, searchFuel, searchFuel, h]
  simp only [searchLoop_congr h]

theorem buildForwardingTables_congr : m.buildForwardingTables = m'.buildForwardingTables := by
  have hrow : m.buildRow = m'.buildRow := by
    funext source
    rw [buildRow, buildRow, getRoute_congr h, h]
  rw [buildForwardingTables, buildForwardingTables, hrow, h]

end Congr

/-! ### The tables -/

/-- A row holds the second node of each route, where every route has one. -/
theorem buildRow_spec {s : Int} {hop : Int → Int}
    (h : ∀ d ∈ m.graph.nodes, s ≠ d → ∃ x r, m.getRoute s d = .ok (x :: hop d :: r)) :
    ∃ row, m.buildRow s = .ok row ∧
      ∀ d, row.get? d = if d ∈ m.graph.nodes ∧ s ≠ d then some (hop d) else none := by
  -- the body of the loop, by what it does at the source and elsewhere
  obtain ⟨body, hbuild, hskip, hadd⟩ : ∃ body : Dict Int Int → Int → Except PyError (Dict Int Int),
      m.buildRow s = m.graph.nodes.foldlM body .empty ∧ (∀ t, body t s = .ok t) ∧
        ∀ t d x y r, s ≠ d → m.getRoute s d = .ok (x :: y :: r) →
          body t d = .ok (t.insert d y) := by
    refine ⟨_, rfl, fun t => if_pos rfl, fun t d x y r hd hr => ?_⟩
    rw [if_neg hd, hr]
    rfl
  have hloop : ∀ (l : List Int) (t : Dict Int Int), (∀ d ∈ l, d ∈ m.graph.nodes) →
      ∃ row, l.foldlM body t = Except.ok row ∧
        ∀ d, row.get? d = if d ∈ l ∧ s ≠ d then some (hop d) else t.get? d := by
    intro l
    induction l with
    | nil => exact fun t _ => ⟨t, rfl, by simp⟩
    | cons n l ih =>
        intro t hl
        have hl' : ∀ d ∈ l, d ∈ m.graph.nodes := fun d hd => hl d (List.mem_cons_of_mem _ hd)
        by_cases hn : s = n
        · subst hn
          obtain ⟨row, hrow, hget⟩ := ih t hl'
          refine ⟨row, ?_, fun d => ?_⟩
          · rw [List.foldlM_cons, hskip]
            exact hrow
          · have hd : (d ∈ s :: l ∧ s ≠ d) ↔ (d ∈ l ∧ s ≠ d) := by grind
            rw [hget d, if_congr hd rfl rfl]
        · obtain ⟨x, r, hr⟩ := h n (hl n List.mem_cons_self) hn
          obtain ⟨row, hrow, hget⟩ := ih (t.insert n (hop n)) hl'
          refine ⟨row, ?_, fun d => ?_⟩
          · rw [List.foldlM_cons, hadd t n x _ r hn hr]
            exact hrow
          · rw [hget d, Dict.get?_insert]
            by_cases hdn : d = n
            · subst hdn
              simp [hn]
            · simp [hdn]
  obtain ⟨row, hrow, hget⟩ := hloop m.graph.nodes .empty fun _ => id
  exact ⟨row, hbuild.trans hrow, by simpa using hget⟩

/-- The tables hold the rows, in the order of the nodes, where every row can be built. -/
theorem buildForwardingTables_rows (hnd : m.graph.nodes.Nodup) {row : Int → Dict Int Int}
    (h : ∀ s ∈ m.graph.nodes, m.buildRow s = .ok (row s)) :
    ∃ tables, m.buildForwardingTables = .ok tables ∧ tables.keys = m.graph.nodes ∧
      ∀ s ∈ m.graph.nodes, tables.get? s = some (row s) := by
  have : ∀ (l : List Int) (t : Dict Int (Dict Int Int)), l.Nodup → (∀ s ∈ l, s ∉ t.keys) →
      (∀ s ∈ l, s ∈ m.graph.nodes) →
      ∃ tables, l.foldlM (fun tables source => do
          return tables.insert source (← m.buildRow source)) t = Except.ok tables ∧
        tables.keys = t.keys ++ l ∧
        ∀ s, tables.get? s = if s ∈ l then some (row s) else t.get? s := by
    intro l
    induction l with
    | nil => exact fun t _ _ _ => ⟨t, rfl, by simp, by simp⟩
    | cons n l ih =>
        intro t hl ht hm
        have hk : (t.insert n (row n)).keys = t.keys ++ [n] := by
          rw [Dict.keys_insert, if_neg (ht n (by simp))]
        obtain ⟨tables, hok, hkeys, hget⟩ := ih (t.insert n (row n)) (List.nodup_cons.mp hl).2
          (fun s hs => by
            rw [hk, List.mem_append, List.mem_singleton, not_or]
            exact ⟨ht s (List.mem_cons_of_mem _ hs),
              fun e => (List.nodup_cons.mp hl).1 (e ▸ hs)⟩)
          fun s hs => hm s (List.mem_cons_of_mem _ hs)
        refine ⟨tables, ?_, by simp [hkeys, hk], fun s => ?_⟩
        · rw [List.foldlM_cons, h n (hm n (by simp))]; exact hok
        · rw [hget s, Dict.get?_insert]
          by_cases hsn : s = n
          · subst hsn; simp
          · simp [hsn]
  obtain ⟨tables, hok, hkeys, hget⟩ := this m.graph.nodes .empty hnd (by simp) fun _ => id
  exact ⟨tables, hok, by simpa using hkeys, fun s hs => by rw [hget s, if_pos hs]⟩

/-- The entry of a node's row for a destination. -/
def tableEntry (tables : Dict Int (Dict Int Int)) (destination node : Int) : Option Int :=
  (tables.get? node).bind (·.get? destination)

/-- Tables that exist were read from routes. -/
theorem routes_of_built {tables : Dict Int (Dict Int Int)}
    (h : m.buildForwardingTables = .ok tables) : ∀ s ∈ m.graph.nodes, ∀ d ∈ m.graph.nodes, s ≠ d →
      ∃ x y r, m.getRoute s d = .ok (x :: y :: r) := by
  intro s hs d hd hne
  obtain ⟨_, _, h₁⟩ := foldlM_pass h hs
  obtain ⟨row, hrow, -⟩ := bind_eq_ok.mp h₁
  obtain ⟨_, _, h₂⟩ := foldlM_pass hrow hd
  rw [if_neg hne] at h₂
  obtain ⟨route, hroute, h₂⟩ := bind_eq_ok.mp h₂
  match route with
  | [] => cases h₂
  | [_] => cases h₂
  | x :: y :: r => exact ⟨x, y, r, hroute⟩

/-- Where every two nodes have a route, the tables exist. -/
theorem built_of_routes (hnd : m.graph.nodes.Nodup) {hop : Int → Int → Int}
    (h : ∀ s ∈ m.graph.nodes, ∀ d ∈ m.graph.nodes, s ≠ d →
      ∃ x r, m.getRoute s d = .ok (x :: hop s d :: r)) :
    ∃ tables, m.buildForwardingTables = .ok tables ∧ tables.keys = m.graph.nodes ∧
      ∀ s ∈ m.graph.nodes, ∀ d ∈ m.graph.nodes, s ≠ d →
        tableEntry tables d s = some (hop s d) := by
  have hrow : ∀ s ∈ m.graph.nodes, ∃ row, m.buildRow s = .ok row ∧
      ∀ d, row.get? d = if d ∈ m.graph.nodes ∧ s ≠ d then some (hop s d) else none :=
    fun s hs => buildRow_spec (h s hs)
  have : Nonempty (Dict Int Int) := ⟨.empty⟩
  choose! row hrow using hrow
  obtain ⟨tables, hok, hkeys, hget⟩ := buildForwardingTables_rows hnd fun s hs => (hrow s hs).1
  refine ⟨tables, hok, hkeys, fun s hs d hd hne => ?_⟩
  rw [tableEntry, hget s hs, Option.bind_some, (hrow s hs).2 d, if_pos ⟨hd, hne⟩]

/-- **The entries are the second nodes of the routes.** -/
theorem entry_of_built (hnd : m.graph.nodes.Nodup) {tables : Dict Int (Dict Int Int)}
    (h : m.buildForwardingTables = .ok tables) : tables.keys = m.graph.nodes ∧
      ∀ s ∈ m.graph.nodes, ∀ d ∈ m.graph.nodes, s ≠ d →
        ∃ x y r, m.getRoute s d = .ok (x :: y :: r) ∧ tableEntry tables d s = some y := by
  have hroutes := routes_of_built h
  choose! x hop r hr using hroutes
  have hstarts : ∀ s ∈ m.graph.nodes, ∀ d ∈ m.graph.nodes, s ≠ d →
      ∃ x r, m.getRoute s d = .ok (x :: hop s d :: r) :=
    fun s hs d hd hne => ⟨_, _, hr s hs d hd hne⟩
  obtain ⟨tables', hok, hkeys, hentry⟩ := built_of_routes hnd hstarts
  obtain rfl := Except.ok.inj (h.symm.trans hok)
  exact ⟨hkeys, fun s hs d hd hne => ⟨_, _, _, hr s hs d hd hne, hentry s hs d hd hne⟩⟩

/-! ### Where tables can be built -/

/-- The delays have floats, and every two nodes are joined by a route with a finite sum. -/
structure Addable (m : GraphManager) : Prop where
  converts : ∀ s ∈ m.graph.nodes, ∀ t ∈ m.graph.nodes, s ≠ t → m.Converts s
  finite : ∀ s ∈ m.graph.nodes, ∀ t ∈ m.graph.nodes, s ≠ t → ∃ p d, m.Sums s t p d ∧ d ≠ ⊤

/-- A route to another node starts with a link. -/
theorem Sums.starts {s t : Int} {p : List Int} {d : Double} (h : m.Sums s t p d) (hne : s ≠ t) :
    ∃ y r a c, p = s :: y :: r ∧ m.graph.delay s y = some a ∧
      Walk m.graph.delay y t (y :: r) c ∧ Walk m.graph.delay s t p (a + c) := by
  obtain ⟨c, hwalk⟩ := Sums.walk h
  cases hwalk with
  | single => exact absurd rfl hne
  | @cons _ y _ q a c ha t =>
      have hq : ∃ r, q = y :: r := by cases t <;> exact ⟨_, rfl⟩
      obtain ⟨r, rfl⟩ := hq
      exact ⟨y, r, a, c, rfl, ha, t, .cons ha t⟩

/-- Positive delays make positive sums. -/
theorem Sums.pos (hpos : m.graph.PositiveDelays) {s t : Int} {p : List Int} {d : Double}
    (h : m.Sums s t p d) (hne : s ≠ t) : .ofRat 0 < d := by
  cases h with
  | source => exact absurd rfl hne
  | @step u _ p d f h hf =>
      have hzero := (tame_addDelay hpos.nonneg).le_course h
      obtain ⟨c, y, hc, hy, rfl⟩ := addDelay_eq_some.mp hf
      have hy1 : (1 : ℚ) ≤ y := by
        rcases toFloat_cases c with h | h
        · obtain rfl := Except.ok.inj (h.symm.trans hy)
          have h1 := rounded_mono (show ((1 : Int) : ℚ) ≤ c by exact_mod_cast hpos _ _ _ hc)
          rwa [rounded_intCast (by norm_num), Int.cast_one] at h1
        · cases h.symm.trans hy
      calc Double.ofRat 0 < Double.ofRat 1 := by
            exact_mod_cast Double.ofRat_lt (k := 0) (n := 1) (by norm_num) (by norm_num)
              (by norm_num)
        _ ≤ Double.ofRat y := Double.ofRat_mono hy1
        _ = (Double.ofRat 0).plus y := by
            have := Double.ofRat_plus (n := 0) (by norm_num) y
            simpa using this.symm
        _ ≤ d.plus y := Double.plus_mono y hzero

/-- A route of a graph with a row for each node. -/
theorem Addable.route (hwf : m.graph.WF) (hpos : m.graph.PositiveDelays) (h : m.Addable)
    {s t : Int} (hs : s ∈ m.graph.nodes) (ht : t ∈ m.graph.nodes) (hne : s ≠ t) :
    ∃ y r d, m.getRoute s t = .ok (s :: y :: r) ∧ m.Chosen s t (s :: y :: r) d := by
  rcases getRoute_spec hwf hpos.nonneg hs ht with
    ⟨p, d, hok, -, hchosen, -⟩ | ⟨-, htop, -⟩ | ⟨-, u, q, d, hq, hut, -, -, hno⟩
  · obtain ⟨y, r, -, -, rfl, -⟩ := Sums.starts hchosen.sums hne
    exact ⟨y, r, d, hok, hchosen⟩
  · obtain ⟨p, d, hp, hd⟩ := h.finite s hs t ht hne
    exact absurd (htop p d hp) hd
  · obtain ⟨c, hwalk⟩ := Sums.walk hq
    exact absurd (h.converts u (hwf.walk_subset hwalk hs hwalk.right_mem) t ht hut) hno

/-- Routes between all nodes need floats for the delays, and finite sums. -/
theorem addable_of_routes (hwf : m.graph.WF) (hpos : m.graph.PositiveDelays)
    (h : ∀ s ∈ m.graph.nodes, ∀ t ∈ m.graph.nodes, s ≠ t → ∃ p, m.getRoute s t = .ok p) :
    m.Addable := by
  have hroute : ∀ s ∈ m.graph.nodes, ∀ t ∈ m.graph.nodes, s ≠ t →
      (∃ p d, m.Sums s t p d ∧ d ≠ ⊤) ∧ m.Converts s := by
    intro s hs t ht hne
    obtain ⟨p', hp'⟩ := h s hs t ht hne
    rcases getRoute_spec hwf hpos.nonneg hs ht with
      ⟨p, d, -, -, hchosen, hconv⟩ | ⟨herr, -⟩ | ⟨herr, -⟩
    · exact ⟨⟨p, d, hchosen.sums, hchosen.finite⟩,
        hconv s [s] _ .source (Sums.pos hpos hchosen.sums hne)⟩
    · cases hp'.symm.trans herr
    · cases hp'.symm.trans herr
  exact ⟨fun s hs t ht hne => (hroute s hs t ht hne).2, fun s hs t ht hne =>
    (hroute s hs t ht hne).1⟩

/-- **The tables exist exactly where the delays can be added.** -/
theorem built_iff (hwf : m.graph.WF) (hpos : m.graph.PositiveDelays) :
    (∃ tables, m.buildForwardingTables = .ok tables) ↔ m.Addable := by
  constructor
  · rintro ⟨tables, h⟩
    refine addable_of_routes hwf hpos fun s hs t ht hne => ?_
    obtain ⟨x, y, r, hr⟩ := routes_of_built h s hs t ht hne
    exact ⟨_, hr⟩
  · intro h
    have hroutes : ∀ s ∈ m.graph.nodes, ∀ t ∈ m.graph.nodes, s ≠ t →
        ∃ y r, m.getRoute s t = .ok (s :: y :: r) := fun s hs t ht hne => by
      obtain ⟨y, r, -, hok, -⟩ := h.route hwf hpos hs ht hne
      exact ⟨y, r, hok⟩
    choose! hop r hr using hroutes
    have hstarts : ∀ s ∈ m.graph.nodes, ∀ t ∈ m.graph.nodes, s ≠ t →
        ∃ x r, m.getRoute s t = .ok (x :: hop s t :: r) :=
      fun s hs t ht hne => ⟨_, _, hr s hs t ht hne⟩
    obtain ⟨tables, hok, -⟩ := built_of_routes hwf.nodup hstarts
    exact ⟨tables, hok⟩

/-! ### Where the tables are shortest -/

/-- Some shortest route from `s` to `d` starts with the link to `y`. -/
def FirstHop (m : GraphManager) (s d y : Int) : Prop :=
  ∃ a c, m.graph.delay s y = some a ∧ Shortest m.graph.delay y d c ∧
    Shortest m.graph.delay s d (a + c)

/-- The routes of least rounded sum start as shortest routes do. -/
def StartsShortest (m : GraphManager) : Prop :=
  ∀ s ∈ m.graph.nodes, ∀ d ∈ m.graph.nodes, s ≠ d → ∀ y r x, m.Chosen s d (s :: y :: r) x →
    m.FirstHop s d y

/-- An entry of the tables is a neighbour, at the start of a route of least rounded sum. -/
theorem chosen_of_built (hwf : m.graph.WF) (hpos : m.graph.PositiveDelays)
    {tables : Dict Int (Dict Int Int)} (h : m.buildForwardingTables = .ok tables) {s d : Int}
    (hs : s ∈ m.graph.nodes) (hd : d ∈ m.graph.nodes) (hne : s ≠ d) :
    ∃ y r x a, tableEntry tables d s = some y ∧ m.Chosen s d (s :: y :: r) x ∧
      m.graph.delay s y = some a ∧ y ∈ m.graph.nodes := by
  obtain ⟨x', y', r', hok, hentry⟩ := (entry_of_built hwf.nodup h).2 s hs d hd hne
  obtain ⟨y, r, x, hok', hchosen⟩ :=
    ((built_iff hwf hpos).mp ⟨tables, h⟩).route hwf hpos hs hd hne
  obtain ⟨rfl, rfl, rfl⟩ := by simpa using Except.ok.inj (hok.symm.trans hok')
  obtain ⟨_, _, a, c, hp, ha, -⟩ := Sums.starts hchosen.sums hne
  obtain ⟨rfl, rfl⟩ := by simpa using hp
  exact ⟨y', r', x, a, hentry, hchosen, ha, (hwf.delay_mem ha).2⟩

/-- The nodes visited by moving from `source` to the table entry of the current node until
`destination` is reached, if at most `moves` moves do. -/
def forwardingPath (tables : Dict Int (Dict Int Int)) (destination : Int) (moves : ℕ)
    (source : Int) : Option (List Int) :=
  follow (tableEntry tables destination) destination moves source

/-- The entries start shortest routes. -/
theorem descends_of_built (hwf : m.graph.WF) (hpos : m.graph.PositiveDelays)
    (hstarts : m.StartsShortest) {tables : Dict Int (Dict Int Int)}
    (h : m.buildForwardingTables = .ok tables) {d : Int} (hd : d ∈ m.graph.nodes) :
    Descends m.graph.delay m.graph.nodes.toFinset (tableEntry tables d) d := by
  intro v hv hne
  have hv := List.mem_toFinset.mp hv
  obtain ⟨y, r, x, a, hentry, hchosen, -, hy⟩ := chosen_of_built hwf hpos h hv hd hne
  exact ⟨y, List.mem_toFinset.mpr hy, hentry, hstarts v hv d hd hne y r x hchosen⟩

/-- What hop-by-hop forwarding is to do: the tables exist, and moving along them from `s` reaches
`d` within `|nodes| - 1` moves, over links, with no node twice, and with the least total delay of
any walk. -/
def Forwards (m : GraphManager) : Prop :=
  ∃ tables, m.buildForwardingTables = .ok tables ∧
    ∀ s ∈ m.graph.nodes, ∀ d ∈ m.graph.nodes, s ≠ d → ∃ p c,
      forwardingPath tables d (m.graph.nodes.length - 1) s = some p ∧
        Walk m.graph.delay s d p c ∧ p.Nodup ∧
        ∀ q c', Walk m.graph.delay s d q c' → c ≤ c'

/-- Where following the tables is a shortest route, so is the table entry's start of one. -/
theorem Forwards.firstHop (hwf : m.graph.WF) (hpos : m.graph.PositiveDelays) (h : m.Forwards)
    {s d : Int} (hs : s ∈ m.graph.nodes) (hd : d ∈ m.graph.nodes) (hne : s ≠ d) :
    ∃ y r x, m.Chosen s d (s :: y :: r) x ∧ m.FirstHop s d y := by
  obtain ⟨tables, hok, hpath⟩ := h
  obtain ⟨y, r, x, a, hentry, hchosen, ha, -⟩ := chosen_of_built hwf hpos hok hs hd hne
  obtain ⟨p, c, hp, hwalk, -, hmin⟩ := hpath s hs d hd hne
  refine ⟨y, r, x, hchosen, ?_⟩
  -- the path moves from `s` to the entry
  unfold forwardingPath follow at hp
  rw [if_neg hne] at hp
  cases hn : m.graph.nodes.length - 1 with
  | zero => simp [hn] at hp
  | succ n =>
      simp only [hn, hentry, Option.bind_some] at hp
      obtain ⟨q, hq, rfl⟩ := Option.map_eq_some_iff.mp hp
      cases hwalk with
      | single => exact absurd rfl hne
      | @cons _ z _ _ a' c' ha' t =>
          have hz : q.head? = some y := by
            unfold follow at hq
            split_ifs at hq
            · cases hq; rfl
            · cases n with
              | zero => cases hq
              | succ n =>
                  obtain ⟨_, -, hq⟩ := Option.bind_eq_some_iff.mp hq
                  obtain ⟨_, -, rfl⟩ := Option.map_eq_some_iff.mp hq
                  rfl
          obtain rfl := Option.some.inj (t.head?.symm.trans hz)
          have hall : Shortest m.graph.delay s d (a' + c') := ⟨⟨_, .cons ha' t⟩, hmin⟩
          exact ⟨a', c', ha', hall.tail ha' t, hall⟩

/-- **Hop-by-hop forwarding over any graph with positive delays.**  Where the delays can be added
and the routes of least rounded sum start as shortest routes do, moving along the tables is
loop-free and optimal.  Where it is, the delays can be added, and between any two nodes some route
of least sum starts as a shortest route does; among routes of one sum the order of the search
decides. -/
theorem forwarding_shortest (m : GraphManager) (ops : List GraphOp)
    (hm : m.graph = buildGraph ops) (hpos : m.graph.PositiveDelays) :
    (m.Addable ∧ m.StartsShortest → m.Forwards) ∧
      (m.Forwards → m.Addable ∧ ∀ s ∈ m.graph.nodes, ∀ d ∈ m.graph.nodes, s ≠ d →
        ∃ y r x, m.Chosen s d (s :: y :: r) x ∧ m.FirstHop s d y) := by
  have hwf : m.graph.WF := hm ▸ wf_buildGraph ops
  refine ⟨fun ⟨hadd, hstarts⟩ => ?_, fun h => ?_⟩
  · obtain ⟨tables, hok⟩ := (built_iff hwf hpos).mpr hadd
    refine ⟨tables, hok, fun s hs d hd hne => ?_⟩
    have hdesc := descends_of_built hwf hpos hstarts hok hd
    obtain ⟨q, x, hq, -⟩ := hadd.finite s hs d hd hne
    obtain ⟨c', hwalk'⟩ := Sums.walk hq
    obtain ⟨c, hc⟩ := exists_shortest hpos.nonneg hwalk'
    have hcard : m.graph.nodes.toFinset.card ≤ m.graph.nodes.length - 1 + 1 :=
      (List.toFinset_card_le _).trans (by omega)
    obtain ⟨p, hp, hwalk, hnd, -, -⟩ := hdesc.follow_shortest hpos _ _ s c
      (List.mem_toFinset.mpr hs) subset_rfl hc (fun x hx _ _ _ => hx) hcard
    exact ⟨p, c, hp, hwalk, hnd, hc.2⟩
  · obtain ⟨tables, hok, -⟩ := id h
    exact ⟨(built_iff hwf hpos).mp ⟨tables, hok⟩, fun s hs d hd hne =>
      h.firstHop hwf hpos hs hd hne⟩

/-! ### Bounded delays -/

/-- Delays of at most `b` each, over fewer than `2 ^ 53 / b` nodes. -/
structure Small (m : GraphManager) (b : ℕ) : Prop where
  le : ∀ u v c, m.graph.delay u v = some c → c ≤ b
  total : m.graph.nodes.length * b < 2 ^ 53

/-- The delays of a small graph have floats. -/
theorem Small.converts {b : ℕ} (h : m.Small b) (hwf : m.graph.WF) (hpos : m.graph.PositiveDelays)
    (u : Int) : m.Converts u := by
  intro x c hc
  have hlen : 0 < m.graph.nodes.length := List.length_pos_of_mem (hwf.delay_mem hc).1
  have hb : b < 2 ^ 53 := (Nat.le_mul_of_pos_left b hlen).trans_lt h.total
  have hle := h.le _ _ _ hc
  exact ⟨_, toFloat_of_small (hpos.nonneg _ _ _ hc) (by omega)⟩

/-- In a small graph shortest walks weigh less than `2 ^ 53`. -/
theorem Small.walk {b : ℕ} (h : m.Small b) (hwf : m.graph.WF) (hpos : m.graph.PositiveDelays)
    {s t : Int} (hs : s ∈ m.graph.nodes) {p : List Int} {c : Int}
    (hp : Walk m.graph.delay s t p c) : ∃ q c', Walk m.graph.delay s t q c' ∧ c' < 2 ^ 53 := by
  obtain ⟨d, hd⟩ := exists_shortest hpos.nonneg hp
  obtain ⟨q, hq⟩ := hd.1
  -- a shortest walk visits each node at most once
  have hnd : q.Nodup := hq.nodup_of_shortest hpos (shortest_self hpos.nonneg) (by simpa using hd)
  have hlen : q.length ≤ m.graph.nodes.length := (hnd.subperm (hwf.walk_subset hq hs)).length_le
  have htotal : (m.graph.nodes.length * b : Int) < 2 ^ 53 := by exact_mod_cast h.total
  refine ⟨q, d, hq, ?_⟩
  calc d ≤ (q.length - 1) * b := hq.le_length h.le
    _ ≤ m.graph.nodes.length * b := by gcongr; omega
    _ < 2 ^ 53 := htotal

/-- The sums of a small graph tell its routes apart. -/
theorem Small.discerns {b : ℕ} (h : m.Small b) (hwf : m.graph.WF) (hpos : m.graph.PositiveDelays)
    {s t : Int} (hs : s ∈ m.graph.nodes) : m.Discerns s t :=
  discerns_of_lt hpos.nonneg (h.converts hwf hpos) fun _ _ hp => h.walk hwf hpos hs hp

/-- The delays of a small connected graph can be added. -/
theorem Small.addable {b : ℕ} (h : m.Small b) (hwf : m.graph.WF) (hpos : m.graph.PositiveDelays)
    (hconn : m.graph.Connected) : m.Addable where
  converts s _ _ _ _ := h.converts hwf hpos s
  finite s hs t ht _ := by
    obtain ⟨p, c, hp⟩ := hconn s hs t ht
    exact (h.discerns hwf hpos hs).finite p c hp

/-- The least sums of a small graph belong to its shortest routes. -/
theorem Small.startsShortest {b : ℕ} (h : m.Small b) (hwf : m.graph.WF)
    (hpos : m.graph.PositiveDelays) : m.StartsShortest := by
  intro s hs d hd hne y r x hchosen
  obtain ⟨y', r', a, c, hp, ha, htail, hwalk⟩ := Sums.starts hchosen.sums hne
  obtain ⟨rfl, rfl⟩ := by simpa using hp
  have hall : Shortest m.graph.delay s d (a + c) :=
    ⟨⟨_, hwalk⟩, (h.discerns hwf hpos hs).least _ _ _ hwalk hchosen⟩
  exact ⟨a, c, ha, hall.tail ha htail, hall⟩

/-- A ring of four nodes, with two shortest routes between opposite ones. -/
def square : List GraphOp :=
  [.addNodesFrom [0, 1, 2, 3], .addEdge 0 1 10, .addEdge 1 2 10, .addEdge 2 3 10, .addEdge 3 0 10]

theorem forwarding_shortest_square : Forwards { init with graph := buildGraph square } := by
  have hops : ∀ op ∈ square, op.DelayIn fun c => 0 < c ∧ c ≤ 10 := by
    simp [square, GraphOp.DelayIn]
  have hwf := wf_buildGraph square
  have hpos : (buildGraph square).PositiveDelays := fun a b c hc =>
    (delay_buildGraph hops a b c hc).1
  have hsmall : Small { init with graph := buildGraph square } 10 :=
    ⟨fun a b c hc => (delay_buildGraph hops a b c hc).2, by decide⟩
  exact (forwarding_shortest { init with graph := buildGraph square } square rfl hpos).1
    ⟨hsmall.addable hwf hpos (connected_of_attached hwf rfl (by decide)),
      hsmall.startsShortest hwf hpos⟩

/-- A path along the tables that is longer than some route. -/
theorem not_forwards_of_path {tables : Dict Int (Dict Int Int)} {s d : Int} {p q : List Int}
    {c c' : Int} (h : m.buildForwardingTables = .ok tables)
    (hs : s ∈ m.graph.nodes) (hd : d ∈ m.graph.nodes) (hne : s ≠ d)
    (hp : forwardingPath tables d (m.graph.nodes.length - 1) s = some p)
    (hwalk : Walk m.graph.delay s d p c) (hq : Walk m.graph.delay s d q c') (hlt : c' < c) :
    ¬ m.Forwards := by
  rintro ⟨tables', h', hall⟩
  obtain rfl := Except.ok.inj (h.symm.trans h')
  obtain ⟨p', c₁, hp', hwalk', -, hmin⟩ := hall s hs d hd hne
  obtain rfl := Option.some.inj (hp.symm.trans hp')
  obtain rfl := hwalk.unique hwalk'
  exact absurd (hmin q c' hq) (not_le.mpr hlt)

/-- A graph made by `create_graph` is connected, with positive delays, where its calls show it. -/
theorem createGraph_connected {k : ℕ} {edges : List (Int × Int × Option Int)} {r : Int}
    {l : List Int} (hpos : ∀ op ∈ createOps k edges, op.Positive)
    (hn : (init.createGraph k edges).graph.nodes = r :: l)
    (ha : (init.createGraph k edges).graph.attached [r] l = true) :
    (init.createGraph k edges).graph.PositiveDelays ∧
      (init.createGraph k edges).graph.Connected := by
  refine ⟨?_, connected_of_attached (wf_createGraph init k edges) hn ha⟩
  rw [graph_createGraph]
  exact positive_buildGraph hpos

theorem wide_connected : wide.graph.PositiveDelays ∧ wide.graph.Connected :=
  createGraph_connected (r := 0) (l := [1, 2, 3, 4]) (by simp [createOps, GraphOp.Positive])
    (by decide +kernel) (by decide +kernel)

theorem far_connected : far.graph.PositiveDelays ∧ far.graph.Connected :=
  createGraph_connected (r := 0) (l := [1, 2]) (by decide +kernel) (by decide +kernel)
    (by decide +kernel)

theorem huge_connected : huge.graph.PositiveDelays ∧ huge.graph.Connected :=
  createGraph_connected (r := 0) (l := [1]) (by decide +kernel) (by decide +kernel)
    (by decide +kernel)

theorem far_unbuilt (tables : Dict Int (Dict Int Int)) :
    far.buildForwardingTables ≠ .ok tables := by
  have h : far.buildForwardingTables.toBool = false := by decide +kernel
  intro htables
  simp [htables, Except.toBool] at h

theorem huge_unbuilt (tables : Dict Int (Dict Int Int)) :
    huge.buildForwardingTables ≠ .ok tables := by
  have h : huge.buildForwardingTables.toBool = false := by decide +kernel
  intro htables
  simp [htables, Except.toBool] at h

/-- **Tables that are not shortest.**  `wide`, `far` and `huge` are connected graphs with positive
delays; on the first the tables lead from 0 to 4 along `[0, 1, 2, 4]`, which is not shortest, and
on the others they do not exist. -/
theorem forwarding_rounds :
    (wide.graph.PositiveDelays ∧ wide.graph.Connected ∧ ¬ wide.Forwards) ∧
      (far.graph.PositiveDelays ∧ far.graph.Connected ∧ ¬ far.Forwards) ∧
        huge.graph.PositiveDelays ∧ huge.graph.Connected ∧ ¬ huge.Forwards := by
  have hwide : ¬ wide.Forwards := by
    obtain ⟨tables, hok, hpath⟩ := exists_ok_and (x := wide.buildForwardingTables)
      (f := fun tables => forwardingPath tables 4 4 0 = some [0, 1, 2, 4]) (by decide +kernel)
    have hlong : Walk wide.graph.delay 0 4 [0, 1, 2, 4] (2 ^ 53 + (1 + (1 + 0))) :=
      .cons (by decide +kernel) (.cons (by decide +kernel) (.cons (by decide +kernel) (.single 4)))
    have hshort : Walk wide.graph.delay 0 4 [0, 3, 4] (2 ^ 53 + (1 + 0)) :=
      .cons (by decide +kernel) (.cons (by decide +kernel) (.single 4))
    exact not_forwards_of_path hok (s := 0) (d := 4) (by decide +kernel) (by decide +kernel)
      (by decide) (of_decide_eq_true hpath) hlong hshort (by norm_num)
  have hfar : ¬ far.Forwards := fun ⟨tables, h, _⟩ => far_unbuilt tables h
  have hhuge : ¬ huge.Forwards := fun ⟨tables, h, _⟩ => huge_unbuilt tables h
  exact ⟨⟨wide_connected.1, wide_connected.2, hwide⟩, ⟨far_connected.1, far_connected.2, hfar⟩,
    huge_connected.1, huge_connected.2, hhuge⟩

end GraphManager

end PacketSim
