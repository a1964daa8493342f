import PacketSim.Graph.WellFormed
import PacketSim.Lib.Except
import PacketSim.Lib.Firsts

/-!
# Graph — Listing

What a graph built by calls says of itself.  `Resets a b op` holds of the calls that set or drop the
link of `a` and `b`, and `LastAdded ops a b d` says that the last of them in `ops` is an `add_edge`
with delay `d`: the delay the graph holds for the unordered pair (`delay_buildGraph_iff`).

`edges` walks the adjacency once and emits a link at the first of its two entries
(`edgesWith_eq`): each link is listed once, under its sorted pair (`mem_edgesData`,
`nodup_edges`).
-/

namespace PacketSim
open Lib

namespace SimpleGraph

/-! ### The last call on a link -/

/-- The call sets or drops the link of `a` and `b`. -/
def GraphOp.Resets (a b : Int) : GraphOp → Prop
  | .clear => True
  | .addNodesFrom _ => False
  | .addEdge nodeA nodeB _ => s(nodeA, nodeB) = s(a, b)

/-- The last call of `ops` on the link of `a` and `b` is an `add_edge` with delay `d`. -/
def LastAdded (ops : List GraphOp) (a b d : Int) : Prop :=
  ∃ before nodeA nodeB after, ops = before ++ .addEdge nodeA nodeB d :: after ∧
    s(nodeA, nodeB) = s(a, b) ∧ ∀ op ∈ after, ¬ op.Resets a b

theorem not_lastAdded_nil (a b d : Int) : ¬ LastAdded [] a b d := by
  rintro ⟨before, nodeA, nodeB, after, e, -⟩
  simp at e

theorem lastAdded_append (ops : List GraphOp) (op : GraphOp) (a b d : Int) :
    LastAdded (ops ++ [op]) a b d ↔
      (∃ nodeA nodeB, op = .addEdge nodeA nodeB d ∧ s(nodeA, nodeB) = s(a, b)) ∨
        ¬ op.Resets a b ∧ LastAdded ops a b d := by
  constructor
  · rintro ⟨before, nodeA, nodeB, after, e, hs, hafter⟩
    rcases List.eq_nil_or_concat after with rfl | ⟨after, op', rfl⟩
    · obtain ⟨-, e⟩ := List.append_inj' e rfl
      exact Or.inl ⟨nodeA, nodeB, List.singleton_inj.mp e, hs⟩
    · have e : ops ++ [op] = (before ++ .addEdge nodeA nodeB d :: after) ++ [op'] := by
        rw [e, List.concat_eq_append, List.append_assoc, List.cons_append]
      obtain ⟨hops, hop⟩ := List.append_inj' e rfl
      obtain rfl := List.singleton_inj.mp hop
      refine Or.inr ⟨hafter op (by simp), before, nodeA, nodeB, after, hops, hs, ?_⟩
      intro op' hop'
      exact hafter op' (by simp [hop'])
  · rintro (⟨nodeA, nodeB, rfl, hs⟩ | ⟨hop, before, nodeA, nodeB, after, rfl, hs, hafter⟩)
    · exact ⟨ops, nodeA, nodeB, [], rfl, hs, by simp⟩
    · refine ⟨before, nodeA, nodeB, after ++ [op], by simp, hs, ?_⟩
      intro op' hop'
      rcases List.mem_append.mp hop' with h | h
      · exact hafter op' h
      · exact List.mem_singleton.mp h ▸ hop

/-- What one call does to the delay of a link. -/
theorem delay_apply_iff {g : SimpleGraph} (h : g.WF) (op : GraphOp) (a b d : Int) :
    (op.apply g).delay a b = some d ↔
      (∃ nodeA nodeB, op = .addEdge nodeA nodeB d ∧ s(nodeA, nodeB) = s(a, b)) ∨
        ¬ op.Resets a b ∧ g.delay a b = some d := by
  cases op with
  | clear => simp [GraphOp.apply, GraphOp.Resets, clear, delay, link, empty]
  | addNodesFrom nodes => simp [GraphOp.apply, GraphOp.Resets, delay, link_addNodesFrom]
  | addEdge x y c =>
      have hs : s(x, y) = s(a, b) ↔ (a = x ∧ b = y) ∨ (a = y ∧ b = x) := by
        rw [Sym2.eq_iff]; tauto
      simp only [GraphOp.apply, GraphOp.Resets, delay, link_addEdge h, GraphOp.addEdge.injEq, hs]
      by_cases hx : (a = x ∧ b = y) ∨ (a = y ∧ b = x)
      · rw [if_pos hx]
        constructor
        · intro e
          obtain rfl : c = d := Option.some.inj e
          exact Or.inl ⟨x, y, ⟨rfl, rfl, rfl⟩, hs.mpr hx⟩
        · rintro (⟨nodeA, nodeB, ⟨-, -, rfl⟩, -⟩ | ⟨hn, -⟩)
          · rfl
          · exact absurd hx hn
      · rw [if_neg hx]
        constructor
        · exact fun e => Or.inr ⟨hx, e⟩
        · rintro (⟨nodeA, nodeB, ⟨rfl, rfl, rfl⟩, hab⟩ | ⟨-, e⟩)
          · exact absurd (hs.mp hab) hx
          · exact e

theorem buildGraph_append (ops : List GraphOp) (op : GraphOp) :
    buildGraph (ops ++ [op]) = op.apply (buildGraph ops) := by
  rw [buildGraph, List.foldl_append]; rfl

/-- The graph holds the delay of the last call on the link. -/
theorem delay_buildGraph_iff (ops : List GraphOp) (a b d : Int) :
    (buildGraph ops).delay a b = some d ↔ LastAdded ops a b d := by
  induction ops using List.reverseRecOn with
  | nil =>
      have h : (buildGraph []).delay a b = none := rfl
      simp [h, not_lastAdded_nil]
  | append_singleton ops op ih =>
      rw [buildGraph_append, delay_apply_iff (wf_buildGraph ops), lastAdded_append, ih]

/-! ### Neighbours -/

/-- `b` is among the neighbours of `a`. -/
def Adjacent (g : SimpleGraph) (a b : Int) : Prop := ∃ ns, g.neighbors a = .ok ns ∧ b ∈ ns

theorem edgeData_eq_ok {g : SimpleGraph} {a b : Int} {e : EdgeData} :
    g.edgeData a b = .ok e ↔ g.link a b = some e := by
  rw [edgeData, link, Option.bind_eq_some_iff]
  constructor
  · intro h
    cases hrow : getItem g.adjacency a with
    | error err => rw [hrow] at h; cases h
    | ok row =>
        rw [hrow] at h
        exact ⟨row, getItem_eq_ok.mp hrow, getItem_eq_ok.mp h⟩
  · rintro ⟨row, hrow, h⟩
    rw [getItem_eq_ok.mpr hrow]
    exact getItem_eq_ok.mpr h

theorem adjacent_iff {g : SimpleGraph} {a b : Int} : g.Adjacent a b ↔ ∃ e, g.link a b = some e := by
  constructor
  · rintro ⟨ns, hns, hb⟩
    obtain ⟨row, hrow, rfl⟩ := map_eq_ok.mp hns
    obtain ⟨e, he⟩ := Dict.mem_keys.mp hb
    exact ⟨e, Option.bind_eq_some_iff.mpr ⟨row, getItem_eq_ok.mp hrow, he⟩⟩
  · rintro ⟨e, he⟩
    obtain ⟨row, hrow, he⟩ := Option.bind_eq_some_iff.mp he
    exact ⟨row.keys, map_eq_ok.mpr ⟨row, getItem_eq_ok.mpr hrow, rfl⟩,
      Dict.mem_keys_of_get? he⟩

/-! ### The edge list -/

/-- The entries of the adjacency, row by row. -/
def adjacencyEntries (g : SimpleGraph) : List (Int × Int × EdgeData) :=
  g.adjacency.entries.flatMap fun p => p.2.entries.map fun q => (p.1, q)

/-- The key under which the entry of `b` in the row of `a` is emitted. -/
def entryPair (t : Int × Int × EdgeData) : Int × Int := sortedPair t.1 t.2.1

theorem mem_adjacencyEntries {g : SimpleGraph} {a b : Int} {e : EdgeData} :
    (a, b, e) ∈ g.adjacencyEntries ↔ g.link a b = some e := by
  rw [adjacencyEntries, List.mem_flatMap, link, Option.bind_eq_some_iff]
  constructor
  · rintro ⟨⟨a', row⟩, hrow, h⟩
    obtain ⟨⟨b', e'⟩, hb, h⟩ := List.mem_map.mp h
    cases h
    exact ⟨row, Dict.get?_eq_some.mpr hrow, Dict.get?_eq_some.mpr hb⟩
  · rintro ⟨row, hrow, h⟩
    exact ⟨(a, row), Dict.get?_eq_some.mp hrow,
      List.mem_map.mpr ⟨(b, e), Dict.get?_eq_some.mp h, rfl⟩⟩

/-- The two loops of `edges` are one walk over the entries, each pair emitted at its first. -/
theorem edgesWith_eq {α : Type} (emit : Int × Int → EdgeData → α) (g : SimpleGraph) :
    g.edgesWith emit =
      (firsts entryPair [] g.adjacencyEntries).map fun t => emit (entryPair t) t.2.2 := by
  let turn := emitNew entryPair fun t => emit (entryPair t) t.2.2
  have hloops : g.edgesWith emit = (g.adjacency.entries.foldl
      (fun acc p => p.2.entries.foldl (fun acc q => turn acc (p.1, q)) acc) ([], [])).2 := by
    refine congrArg Prod.snd (List.foldl_ext _ _ _ ?_)
    rintro acc ⟨nodeA, neighbors⟩ -
    refine List.foldl_ext _ _ _ ?_
    rintro ⟨emitted, result⟩ ⟨nodeB, payload⟩ -
    by_cases h : sortedPair nodeA nodeB ∈ emitted <;> simp [turn, emitNew, entryPair, h]
  have h := foldl_emitNew entryPair (fun t => emit (entryPair t) t.2.2) g.adjacencyEntries [] []
  rw [adjacencyEntries, List.foldl_flatMap] at h
  simp only [List.foldl_map, List.nil_append] at h
  rw [hloops]
  exact congrArg Prod.snd h

/-- `edges()` is `edges(data=True)` without the payloads. -/
theorem edges_eq_map (g : SimpleGraph) :
    g.edges = g.edgesData.map fun t => (t.1, t.2.1) := by
  rw [edges, edgesData, edgesWith_eq, edgesWith_eq, List.map_map]
  rfl

theorem nodup_edges (g : SimpleGraph) : g.edges.Nodup := by
  rw [edges, edgesWith_eq]
  exact nodup_keys_firsts entryPair [] g.adjacencyEntries

theorem sortedPair_eq {a b x y : Int} :
    sortedPair a b = (x, y) ↔ x ≤ y ∧ (a = x ∧ b = y ∨ a = y ∧ b = x) := by
  unfold sortedPair
  split
  · rw [Prod.mk.injEq]; omega
  · rw [Prod.mk.injEq]; omega

/-- The listed edges are the links, smaller id first. -/
theorem mem_edgesData {g : SimpleGraph} (h : g.WF) {x y : Int} {e : EdgeData} :
    (x, y, e) ∈ g.edgesData ↔ x ≤ y ∧ g.link x y = some e := by
  rw [edgesData, edgesWith_eq, List.mem_map]
  constructor
  · rintro ⟨⟨a, b, e'⟩, hmem, heq⟩
    have hlink := mem_adjacencyEntries.mp (firsts_subset _ _ _ hmem)
    obtain ⟨hpair, rfl⟩ : sortedPair a b = (x, y) ∧ e' = e := by
      simpa [entryPair, Prod.ext_iff, and_assoc] using heq
    obtain ⟨hle, ⟨rfl, rfl⟩ | ⟨rfl, rfl⟩⟩ := sortedPair_eq.mp hpair
    · exact ⟨hle, hlink⟩
    · exact ⟨hle, h.symm _ _ ▸ hlink⟩
  · rintro ⟨hle, hlink⟩
    -- The entry that emitted the pair may be the one of the other direction; the payload is one.
    have hkey : (x, y) ∈ (firsts entryPair [] g.adjacencyEntries).map entryPair := by
      refine mem_keys_firsts.mpr ⟨List.not_mem_nil, List.mem_map.mpr ⟨(x, y, e), ?_, ?_⟩⟩
      · exact mem_adjacencyEntries.mpr hlink
      · exact sortedPair_eq.mpr ⟨hle, Or.inl ⟨rfl, rfl⟩⟩
    obtain ⟨⟨a, b, e'⟩, hmem, hpair⟩ := List.mem_map.mp hkey
    have hlink' := mem_adjacencyEntries.mp (firsts_subset _ _ _ hmem)
    obtain rfl : e' = e := by
      obtain ⟨-, ⟨rfl, rfl⟩ | ⟨rfl, rfl⟩⟩ := sortedPair_eq.mp hpair
      · exact Option.some.inj (hlink'.symm.trans hlink)
      · exact Option.some.inj (hlink'.symm.trans ((h.symm _ _).trans hlink))
    exact ⟨(a, b, e'), hmem, by rw [hpair]⟩

/-- A graph built by any calls is a well-formed undirected graph: its node list is the list of the
adjacency's keys, without repetition; neighbours are nodes; a link is there from both ends or from
neither, with the delay of the last `add_edge` on the pair since the last `clear`; and
`edges(data=True)` lists every linked pair once, smaller id first, with its delay. -/
theorem undirected_buildGraph (ops : List GraphOp) :
    let g := buildGraph ops
    (g.nodes.Nodup ∧ g.adjacency.keys = g.nodes) ∧
      (∀ a b, g.Adjacent a b → b ∈ g.nodes) ∧
      (∀ a b, g.Adjacent a b ↔ g.Adjacent b a) ∧
      (∀ a b, g.Adjacent a b ↔ ∃ d, LastAdded ops a b d) ∧
      (∀ a b d, g.edgeData a b = .ok ⟨d⟩ ↔ LastAdded ops a b d) ∧
      (∀ a b d, LastAdded ops a b d ↔ LastAdded ops b a d) ∧
      (∀ x y d, (x, y, ⟨d⟩) ∈ g.edgesData ↔ x ≤ y ∧ LastAdded ops x y d) ∧
      (g.edgesData.map fun t => (t.1, t.2.1)).Nodup := by
  intro g
  have hwf : g.WF := wf_buildGraph ops
  have hlink : ∀ a b d, g.link a b = some ⟨d⟩ ↔ LastAdded ops a b d := by
    intro a b d
    rw [← delay_buildGraph_iff, delay_eq_some]
    constructor
    · exact fun e => ⟨_, e, rfl⟩
    · rintro ⟨e, he, rfl⟩
      exact he
  have hadj : ∀ a b, g.Adjacent a b ↔ ∃ d, LastAdded ops a b d := by
    intro a b
    rw [adjacent_iff]
    exact ⟨fun ⟨e, he⟩ => ⟨e.delayMs, (hlink a b _).mp he⟩,
      fun ⟨d, hd⟩ => ⟨_, (hlink a b d).mpr hd⟩⟩
  refine ⟨⟨hwf.nodup, hwf.keys⟩, ?_, ?_, hadj, ?_, ?_, ?_, ?_⟩
  · intro a b hab
    obtain ⟨e, he⟩ := adjacent_iff.mp hab
    exact hwf.right_mem he
  · intro a b
    rw [adjacent_iff, adjacent_iff, hwf.symm]
  · intro a b d
    rw [edgeData_eq_ok, hlink]
  · intro a b d
    rw [← hlink, ← hlink, hwf.symm]
  · intro x y d
    rw [mem_edgesData hwf, hlink]
  · rw [← edges_eq_map]
    exact nodup_edges g

end SimpleGraph

end PacketSim
