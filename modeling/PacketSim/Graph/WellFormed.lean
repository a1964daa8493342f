import PacketSim.Graph.Definitions
import PacketSim.Lib.Walks

/-!
# Graph — Well-formed graphs

What the operations of `SimpleGraph` keep: the node list is the list of adjacency keys, and a link
reads the same from both ends (`WF`).  `link a b` is the payload of the link between `a` and `b`,
`delay a b` its delay; `link_addEdge` says what `add_edge` does to every link.

`GraphOp` is the alphabet of the mutating calls and `buildGraph` runs a list of them on an empty
graph; every graph so built is well formed (`wf_buildGraph`), among them every graph the manager
holds (`wf_createGraph`, `wf_loadSpec`).

A graph is connected when walks join any two of its nodes (`Connected`); it is enough that each
node, in the order of insertion, is linked to an earlier one (`connected_of_attached`).
-/

namespace PacketSim
open Lib

namespace SimpleGraph

/-- The payload of the link from `a` to `b`, if there is one. -/
def link (g : SimpleGraph) (a b : Int) : Option EdgeData :=
  (g.adjacency.get? a).bind (·.get? b)

/-- The delay of the link from `a` to `b`, if there is one. -/
def delay (g : SimpleGraph) (a b : Int) : Option Int := (g.link a b).map EdgeData.delayMs

/-- Every node has a row and no other has, and links run both ways with one payload. -/
structure WF (g : SimpleGraph) : Prop where
  keys : g.adjacency.keys = g.nodes
  symm : ∀ a b, g.link a b = g.link b a

theorem WF.nodup {g : SimpleGraph} (h : g.WF) : g.nodes.Nodup := h.keys ▸ g.adjacency.keys_nodup

theorem WF.left_mem {g : SimpleGraph} (h : g.WF) {a b : Int} {e : EdgeData}
    (he : g.link a b = some e) : a ∈ g.nodes := by
  obtain ⟨row, hrow, -⟩ := Option.bind_eq_some_iff.mp he
  exact h.keys ▸ Dict.mem_keys_of_get? hrow

theorem WF.right_mem {g : SimpleGraph} (h : g.WF) {a b : Int} {e : EdgeData}
    (he : g.link a b = some e) : b ∈ g.nodes :=
  h.left_mem (h.symm a b ▸ he)

theorem WF.delay_symm {g : SimpleGraph} (h : g.WF) (a b : Int) : g.delay a b = g.delay b a := by
  rw [delay, delay, h.symm]

theorem delay_eq_some {g : SimpleGraph} {a b c : Int} :
    g.delay a b = some c ↔ ∃ e, g.link a b = some e ∧ e.delayMs = c :=
  Option.map_eq_some_iff

theorem WF.delay_mem {g : SimpleGraph} (h : g.WF) {a b c : Int} (hc : g.delay a b = some c) :
    a ∈ g.nodes ∧ b ∈ g.nodes := by
  obtain ⟨e, he, -⟩ := delay_eq_some.mp hc
  exact ⟨h.left_mem he, h.right_mem he⟩

/-- A walk from a node stays on the nodes. -/
theorem WF.walk_subset {g : SimpleGraph} (h : g.WF) {a b c : Int} {p : List Int}
    (t : Walk g.delay a b p c) : a ∈ g.nodes → p ⊆ g.nodes := by
  induction t with
  | single u => exact fun hu => by simpa using hu
  | cons e _ ih =>
      exact fun hu => List.cons_subset.mpr ⟨hu, ih (h.delay_mem e).2⟩

/-! ### What the operations do -/

theorem wf_empty : empty.WF := ⟨rfl, fun _ _ => rfl⟩

theorem link_addNode (g : SimpleGraph) (n a b : Int) : (g.addNode n).link a b = g.link a b := by
  unfold addNode
  split
  · rfl
  · rename_i hn
    rw [← Dict.get?_eq_none] at hn
    rw [link, link, Dict.get?_insert]
    by_cases e : a = n
    · subst e; simp [hn]
    · rw [if_neg e]

theorem mem_nodes_addNode {g : SimpleGraph} (h : g.WF) {n a : Int} :
    a ∈ (g.addNode n).nodes ↔ a = n ∨ a ∈ g.nodes := by
  unfold addNode
  split
  · rename_i hn
    rw [h.keys] at hn
    exact ⟨Or.inr, fun o => o.elim (fun e => e ▸ hn) id⟩
  · simp [or_comm]

theorem WF.addNode {g : SimpleGraph} (h : g.WF) (n : Int) : (g.addNode n).WF where
  keys := by
    unfold SimpleGraph.addNode
    split
    · exact h.keys
    · rename_i hn
      rw [Dict.keys_insert, if_neg hn, h.keys]
  symm a b := by rw [link_addNode, link_addNode, h.symm]

theorem link_addNodesFrom (g : SimpleGraph) (l : List Int) (a b : Int) :
    (g.addNodesFrom l).link a b = g.link a b := by
  induction l generalizing g with
  | nil => rfl
  | cons n l ih => exact (ih _).trans (link_addNode g n a b)

theorem WF.addNodesFrom {g : SimpleGraph} (h : g.WF) (l : List Int) : (g.addNodesFrom l).WF := by
  induction l generalizing g with
  | nil => exact h
  | cons n l ih => exact ih (h.addNode n)

theorem mem_nodes_addNodesFrom {g : SimpleGraph} (h : g.WF) {l : List Int} {a : Int} :
    a ∈ (g.addNodesFrom l).nodes ↔ a ∈ l ∨ a ∈ g.nodes := by
  induction l generalizing g with
  | nil => simp [SimpleGraph.addNodesFrom]
  | cons n l ih =>
      show a ∈ ((g.addNode n).addNodesFrom l).nodes ↔ _
      rw [ih (h.addNode n), mem_nodes_addNode h, List.mem_cons]
      tauto

/-- `add_edge` sets one link, read from either end, and leaves every other link. -/
theorem link_addEdge {g : SimpleGraph} (h : g.WF) (a b d x y : Int) :
    (g.addEdge a b d).link x y =
      if (x = a ∧ y = b) ∨ (x = b ∧ y = a) then some ⟨d⟩ else g.link x y := by
  have hg := h.addNodesFrom [a, b]
  have hk : ∀ n, n = a ∨ n = b → ∃ row, (g.addNodesFrom [a, b]).adjacency.get? n = some row :=
    fun n hn => Dict.mem_keys.mp
      (hg.keys ▸ (mem_nodes_addNodesFrom h).mpr (Or.inl (by simpa using hn)))
  obtain ⟨rowA, hA⟩ := hk a (Or.inl rfl)
  obtain ⟨rowB, hB⟩ := hk b (Or.inr rfl)
  rw [← link_addNodesFrom g [a, b] x y]
  simp only [link, addEdge, Dict.get?_modify]
  by_cases hxa : x = a <;> by_cases hxb : x = b
  · subst hxa; subst hxb
    by_cases hy : y = x <;> simp [hA, Dict.get?_insert, hy]
  · subst hxa
    by_cases hy : y = b <;> simp [hA, Dict.get?_insert, hy, hxb]
  · subst hxb
    by_cases hy : y = a <;> simp [hB, Dict.get?_insert, hy, hxa]
  · simp [hxa, hxb]

theorem nodes_addEdge (g : SimpleGraph) (a b d : Int) :
    (g.addEdge a b d).nodes = (g.addNodesFrom [a, b]).nodes := rfl

theorem WF.addEdge {g : SimpleGraph} (h : g.WF) (a b d : Int) : (g.addEdge a b d).WF where
  keys := by
    rw [nodes_addEdge, ← (h.addNodesFrom [a, b]).keys]
    simp [SimpleGraph.addEdge]
  symm x y := by
    rw [link_addEdge h, link_addEdge h, h.symm x y]
    exact if_congr (by tauto) rfl rfl

/-! ### Graphs built by calls -/

/-- The mutating calls of `SimpleGraph`. -/
inductive GraphOp where
  | clear
  | addNodesFrom (nodes : List Int)
  | addEdge (nodeA nodeB delayMs : Int)

/-- The graph after one operation. -/
def GraphOp.apply (g : SimpleGraph) : GraphOp → SimpleGraph
  | .clear => g.clear
  | .addNodesFrom nodes => g.addNodesFrom nodes
  | .addEdge nodeA nodeB delayMs => g.addEdge nodeA nodeB delayMs

/-- The graph a sequence of calls leaves, from `SimpleGraph()`. -/
def buildGraph (ops : List GraphOp) : SimpleGraph := ops.foldl GraphOp.apply empty

theorem WF.apply {g : SimpleGraph} (h : g.WF) (op : GraphOp) : (op.apply g).WF := by
  cases op with
  | clear => exact wf_empty
  | addNodesFrom nodes => exact h.addNodesFrom nodes
  | addEdge a b d => exact h.addEdge a b d

theorem wf_foldl_apply {g : SimpleGraph} (h : g.WF) (ops : List GraphOp) :
    (ops.foldl GraphOp.apply g).WF := by
  induction ops generalizing g with
  | nil => exact h
  | cons op ops ih => exact ih (h.apply op)

theorem wf_buildGraph (ops : List GraphOp) : (buildGraph ops).WF := wf_foldl_apply wf_empty ops

/-- Every call that adds a link gives it a positive delay. -/
def GraphOp.Positive : GraphOp → Prop
  | .clear | .addNodesFrom _ => True
  | .addEdge _ _ delayMs => 0 < delayMs

instance : DecidablePred GraphOp.Positive
  | .clear | .addNodesFrom _ => .isTrue trivial
  | .addEdge _ _ delayMs => inferInstanceAs (Decidable (0 < delayMs))

/-- Every link of the graph has a positive delay. -/
def PositiveDelays (g : SimpleGraph) : Prop := ∀ a b c, g.delay a b = some c → 0 < c

theorem PositiveDelays.nonneg {g : SimpleGraph} (h : g.PositiveDelays) (a b c : Int)
    (hc : g.delay a b = some c) : 0 ≤ c :=
  (h a b c hc).le

/-- Every call that adds a link gives it a delay of `P`. -/
def GraphOp.DelayIn (P : Int → Prop) : GraphOp → Prop
  | .clear | .addNodesFrom _ => True
  | .addEdge _ _ delayMs => P delayMs

theorem GraphOp.delayIn_positive {op : GraphOp} : op.DelayIn (0 < ·) ↔ op.Positive := by
  cases op <;> rfl

/-- What one call does to a property of the delays. -/
theorem delay_apply {P : Int → Prop} {g : SimpleGraph} (hwf : g.WF)
    (h : ∀ a b c, g.delay a b = some c → P c) {op : GraphOp} (hop : op.DelayIn P) (a b c : Int)
    (hc : (op.apply g).delay a b = some c) : P c := by
  cases op with
  | clear => simp [GraphOp.apply, clear, delay, link, empty] at hc
  | addNodesFrom nodes => exact h a b c (by rwa [delay, GraphOp.apply, link_addNodesFrom] at hc)
  | addEdge x y d =>
      rw [delay, GraphOp.apply, link_addEdge hwf] at hc
      split at hc
      · obtain rfl : d = c := by simpa using hc
        exact hop
      · exact h a b c hc

/-- The delays of a graph built by calls come from the calls. -/
theorem delay_buildGraph {P : Int → Prop} {ops : List GraphOp} (hops : ∀ op ∈ ops, op.DelayIn P) :
    ∀ a b c, (buildGraph ops).delay a b = some c → P c := by
  have : ∀ (ops : List GraphOp) (g : SimpleGraph), g.WF → (∀ a b c, g.delay a b = some c → P c) →
      (∀ op ∈ ops, op.DelayIn P) →
      ∀ a b c, (ops.foldl GraphOp.apply g).delay a b = some c → P c := by
    intro ops
    induction ops with
    | nil => exact fun _ _ h _ => h
    | cons op ops ih =>
        intro g hwf h hops
        exact ih _ (hwf.apply op) (delay_apply hwf h (hops op (by simp)))
          fun o ho => hops o (List.mem_cons_of_mem _ ho)
  exact this ops empty wf_empty (fun a b c hc => by simp [delay, link, empty] at hc) hops

theorem positive_buildGraph {ops : List GraphOp} (hops : ∀ op ∈ ops, op.Positive) :
    (buildGraph ops).PositiveDelays :=
  delay_buildGraph fun op hop => GraphOp.delayIn_positive.mpr (hops op hop)

/-- Every call that adds a link gives it a delay of zero or more. -/
def GraphOp.NonNegative (op : GraphOp) : Prop := op.DelayIn (0 ≤ ·)

/-! ### Connected graphs -/

/-- Walks join any two nodes. -/
def Connected (g : SimpleGraph) : Prop :=
  ∀ a ∈ g.nodes, ∀ b ∈ g.nodes, ∃ p c, Walk g.delay a b p c

/-- Each node of the list is linked to one of `seen` or of those before it. -/
def attached (g : SimpleGraph) : List Int → List Int → Bool
  | _, [] => true
  | seen, n :: l => (seen.any fun a => (g.delay a n).isSome) && g.attached (n :: seen) l

theorem walks_of_attached {g : SimpleGraph} {r : Int} :
    ∀ {l seen : List Int}, g.attached seen l = true → (∀ a ∈ seen, ∃ p c, Walk g.delay r a p c) →
      ∀ a ∈ l, ∃ p c, Walk g.delay r a p c
  | [], _, _, _, a, ha => by simp at ha
  | n :: l, seen, h, hseen, a, ha => by
      simp only [attached, Bool.and_eq_true, List.any_eq_true] at h
      obtain ⟨⟨b, hb, hbn⟩, hl⟩ := h
      obtain ⟨d, hd⟩ := Option.isSome_iff_exists.mp hbn
      obtain ⟨p, c, hp⟩ := hseen b hb
      have hn : ∃ p c, Walk g.delay r n p c := ⟨_, _, hp.concat hd⟩
      rcases List.mem_cons.mp ha with rfl | ha
      · exact hn
      · refine walks_of_attached hl (fun x hx => ?_) a ha
        rcases List.mem_cons.mp hx with rfl | hx
        · exact hn
        · exact hseen x hx

/-- A graph whose nodes, in order of insertion, are each linked to an earlier one is connected. -/
theorem connected_of_attached {g : SimpleGraph} (h : g.WF) {r : Int} {l : List Int}
    (hn : g.nodes = r :: l) (ha : g.attached [r] l = true) : g.Connected := by
  have hr : ∀ a ∈ g.nodes, ∃ p c, Walk g.delay r a p c := by
    intro a hm
    rw [hn] at hm
    rcases List.mem_cons.mp hm with rfl | hm
    · exact ⟨_, _, .single a⟩
    · refine walks_of_attached ha (fun x hx => ?_) a hm
      obtain rfl := List.mem_singleton.mp hx
      exact ⟨_, _, .single x⟩
  intro a ha b hb
  obtain ⟨p, c, hp⟩ := hr a ha
  obtain ⟨q, d, hq⟩ := hr b hb
  exact ⟨_, _, (hp.reverse h.delay_symm).append hq⟩

end SimpleGraph

/-! ### The manager's graphs -/

namespace GraphManager
open PacketSim.SimpleGraph

/-- The calls `load_topology` makes for a preset. -/
def specOps (spec : TopologySpec) : List GraphOp :=
  .addNodesFrom spec.positions.keys :: spec.edges.map fun e => .addEdge e.1 e.2.1 e.2.2

theorem graph_loadSpec (m : GraphManager) (spec : TopologySpec) :
    (m.loadSpec spec).graph = buildGraph (specOps spec) := by
  simp only [loadSpec, buildGraph, specOps, List.foldl_cons, List.foldl_map]
  rfl

/-- The calls `create_graph` makes. -/
def createOps (numNodes : ℕ) (edges : List (Int × Int × Option Int)) : List GraphOp :=
  .addNodesFrom ((List.range numNodes).map Int.ofNat) ::
    edges.map fun e => .addEdge e.1 e.2.1 (e.2.2.getD 200)

theorem graph_createGraph (m : GraphManager) (numNodes : ℕ)
    (edges : List (Int × Int × Option Int)) :
    (m.createGraph numNodes edges).graph = buildGraph (createOps numNodes edges) := by
  simp only [createGraph, buildGraph, createOps, List.foldl_cons, List.foldl_map]
  rfl

theorem wf_loadSpec (m : GraphManager) (spec : TopologySpec) : (m.loadSpec spec).graph.WF :=
  graph_loadSpec m spec ▸ wf_buildGraph _

theorem wf_createGraph (m : GraphManager) (numNodes : ℕ) (edges : List (Int × Int × Option Int)) :
    (m.createGraph numNodes edges).graph.WF :=
  graph_createGraph m numNodes edges ▸ wf_buildGraph _

theorem mem_nodes_createGraph (m : GraphManager) {numNodes k : ℕ} (hk : k < numNodes)
    (edges : List (Int × Int × Option Int)) :
    (k : Int) ∈ (m.createGraph numNodes edges).graph.nodes := by
  have hkeep : ∀ (edges : List (Int × Int × Option Int)) (g : SimpleGraph), g.WF →
      (k : Int) ∈ g.nodes → (k : Int) ∈ (edges.foldl addLink g).nodes := by
    intro edges
    induction edges with
    | nil => exact fun _ _ h => h
    | cons e edges ih =>
        intro g hwf h
        refine ih _ (hwf.addEdge e.1 e.2.1 (e.2.2.getD 200)) ?_
        show (k : Int) ∈ (g.addEdge e.1 e.2.1 (e.2.2.getD 200)).nodes
        rw [nodes_addEdge, mem_nodes_addNodesFrom hwf]
        exact .inr h
  refine hkeep edges _ (wf_empty.addNodesFrom _) ?_
  rw [show m.graph.clear = empty from rfl, mem_nodes_addNodesFrom wf_empty]
  exact .inl (List.mem_map.mpr ⟨k, List.mem_range.mpr hk, rfl⟩)

/-- The default endpoints of a custom graph with two nodes or more are distinct nodes of it. -/
theorem endpoints_createGraph (m : GraphManager) {numNodes : ℕ} (h : 2 ≤ numNodes)
    (edges : List (Int × Int × Option Int)) :
    (m.createGraph numNodes edges).defaultSource ∈ (m.createGraph numNodes edges).graph.nodes ∧
      (m.createGraph numNodes edges).defaultDestination ∈
        (m.createGraph numNodes edges).graph.nodes ∧
      (m.createGraph numNodes edges).defaultSource ≠
        (m.createGraph numNodes edges).defaultDestination := by
  have h₀ := mem_nodes_createGraph m (by omega : 0 < numNodes) edges
  have h₁ := mem_nodes_createGraph m (by omega : 1 < numNodes) edges
  cases hmax : (m.createGraph numNodes edges).graph.nodes.max? with
  | none =>
      rw [List.max?_eq_none_iff] at hmax
      rw [hmax] at h₀
      cases h₀
  | some M =>
      have hM : (m.createGraph numNodes edges).defaultDestination = M := by
        show Option.getD (List.max? _) 0 = M
        exact congrArg (Option.getD · 0) hmax
      obtain ⟨hmem, hle⟩ := List.max?_eq_some_iff.mp hmax
      refine ⟨h₀, hM ▸ hmem, ?_⟩
      rw [hM]
      have := hle _ h₁
      show (0 : Int) ≠ M
      omega

end GraphManager

end PacketSim
