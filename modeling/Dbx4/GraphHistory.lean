import Dbx4.GraphFrame
import Dbx4.GraphTraversal

/-!
The graph that a run of calls draws.

A drawing keeps all edges in one list, in the order of the calls. The engine files them under
the nodes they leave. A node is known once it is added, or once costs are propagated from it:
the look-up makes a node of cost zero, and edges may be drawn to it from then on.
-/

namespace Dbx4.GraphHistory

open Std Function Relation Dbx4.Word32 Dbx4.Maps Dbx4.Loops Dbx4.Runs Dbx4.GraphModel
  Dbx4.GraphFrame Dbx4.GraphTraversal

variable {D : Type}

/-! ### Drawings -/

structure Drawing (D : Type) where
  nodes : UInt64 → Option (GraphNode D) := fun _ => none
  edges : List (GraphEdge D) := []
  traversals : ℕ := 0

namespace Drawing

def Knows (d : Drawing D) (nodeId : UInt64) : Prop := (d.nodes nodeId).isSome

instance (d : Drawing D) (nodeId : UInt64) : Decidable (d.Knows nodeId) :=
  inferInstanceAs (Decidable (_ = true))

/-- An edge is drawn from `node` to `node'`. -/
def Joins (d : Drawing D) (node node' : UInt64) : Prop :=
  ∃ edge ∈ d.edges, edge.fromNode = node ∧ edge.toNode = node'

/-- The node that a look-up makes. -/
def blank [Zero D] : GraphNode D := { nodeId := 0, nodeType := [], cost := 0, profit := 0 }

def step [Zero D] (d : Drawing D) : Call D → Drawing D
  | .addNode nodeId type cost profit =>
    { d with nodes := update d.nodes nodeId (some ⟨nodeId, type, cost, profit⟩) }
  | .addEdge source target type weight =>
    if d.Knows source ∧ d.Knows target then
      { d with edges := d.edges ++ [⟨source, target, type, weight⟩] }
    else d
  | .bfsTraversal _ => { d with traversals := d.traversals + 1 }
  | .dfsTraversal _ => { d with traversals := d.traversals + 1 }
  | .calculateCostPropagation startNode =>
    { d with nodes := update d.nodes startNode (some ((d.nodes startNode).getD blank)) }

end Drawing

/-- The engine shows the drawing, and all edges are drawn between known nodes. -/
structure Shows (g : GraphEngine D) (d : Drawing D) : Prop where
  nodes : ∀ nodeId, g.nodes[nodeId]? = d.nodes nodeId
  edges : ∀ node, g.edgesFrom node = d.edges.filter fun edge => edge.fromNode = node
  traversals : g.getTraversalCount = .ofNat d.traversals
  joined : ∀ edge ∈ d.edges, d.Knows edge.fromNode ∧ d.Knows edge.toNode

section Engine

variable {g : GraphEngine D} {d : Drawing D}

lemma Shows.mem_nodes_iff (h : Shows g d) (nodeId : UInt64) :
    nodeId ∈ g.nodes ↔ d.Knows nodeId := by
  rw [ExtTreeMap.mem_iff_isSome_getElem?, h.nodes]
  rfl

lemma Shows.edge_iff (h : Shows g d) (node node' : UInt64) :
    Edge g node node' ↔ d.Joins node node' := by
  unfold Edge Drawing.Joins
  simp [h.edges, and_assoc]

lemma Shows.mem_of_edge (h : Shows g d) {node : UInt64} {edge : GraphEdge D}
    (hedge : edge ∈ g.edgesFrom node) : edge.toNode ∈ g.nodes := by
  rw [h.edges, List.mem_filter] at hedge
  exact (h.mem_nodes_iff _).mpr (h.joined edge hedge.1).2

/-- Nodes that are known stay known when one more is. -/
lemma knows_update {d : Drawing D} {k : UInt64} {node : GraphNode D} {nodeId : UInt64}
    (h : d.Knows nodeId) :
    Drawing.Knows { d with nodes := update d.nodes k (some node) } nodeId := by
  unfold Drawing.Knows at h ⊢
  by_cases hk : nodeId = k
  · subst hk
    simp
  · simpa [update_of_ne hk] using h

lemma Shows.insert (h : Shows g d) (k : UInt64) (node : GraphNode D) :
    Shows { g with nodes := g.nodes.insert k node }
      { d with nodes := update d.nodes k (some node) } := by
  refine ⟨fun nodeId => ?_, h.edges, h.traversals, fun edge hedge => ?_⟩
  · dsimp only
    by_cases hk : k = nodeId
    · subst hk
      rw [ExtTreeMap.getElem?_insert_self, update_self]
    · rw [getElem?_insert_of_ne _ hk, update_of_ne (Ne.symm hk), h.nodes]
  · obtain ⟨hsource, htarget⟩ := h.joined edge hedge
    exact ⟨knows_update hsource, knows_update htarget⟩

lemma shows_empty : Shows ({} : GraphEngine D) {} := by
  refine ⟨fun nodeId => ExtTreeMap.getElem?_empty, fun node => ?_, rfl, List.forall_mem_nil _⟩
  rw [GraphEngine.edgesFrom, ExtTreeMap.getElem?_empty]
  rfl

variable [Zero D]

lemma Shows.addEdge (h : Shows g d) (source target : UInt64) (type : Bytes) (weight : D) :
    Shows (g.addEdge source target type weight).2 (d.step (.addEdge source target type weight)) := by
  have hedges := edgesFrom_addEdge g source target type weight
  simp only [h.mem_nodes_iff] at hedges
  by_cases hknown : d.Knows source ∧ d.Knows target
  · have hengine : ¬(source ∉ g.nodes ∨ target ∉ g.nodes) := by
      simp [h.mem_nodes_iff, hknown]
    rw [Drawing.step, if_pos hknown]
    refine ⟨fun nodeId => ?_, fun node => ?_, ?_, fun edge hedge => ?_⟩
    · rw [GraphEngine.addEdge, if_neg hengine]
      exact h.nodes nodeId
    · rw [hedges, h.edges, List.filter_append]
      by_cases hnode : source = node
      · rw [if_pos ⟨hknown, hnode⟩]
        simp [hnode]
      · rw [if_neg fun hboth => hnode hboth.2]
        simp [hnode]
    · rw [GraphEngine.addEdge, if_neg hengine]
      exact h.traversals
    · rcases List.mem_append.mp hedge with hedge | hedge
      · exact h.joined edge hedge
      · rw [List.mem_singleton.mp hedge]
        exact hknown
  · rw [Drawing.step, if_neg hknown, GraphEngine.addEdge, if_pos]
    · exact h
    · rw [h.mem_nodes_iff, h.mem_nodes_iff]
      tauto

variable [Add D] [Mul D]

/-- Costs are propagated along edges, and the ends of edges are known: only the start may be
made. -/
lemma Shows.calculateCostPropagation (h : Shows g d) (startNode : UInt64) :
    Shows (GraphModel.step g (.calculateCostPropagation startNode))
      (d.step (.calculateCostPropagation startNode)) := by
  obtain ⟨t, ht, total, hstep⟩ := step_calculateCostPropagation g startNode
  have hknown : ∀ s ∈ t, s.2.toNode ∈ (GraphEngine.costAt g.nodes startNode).2 := fun s hs =>
    (mem_costAt _ _ _).mpr (.inr (h.mem_of_edge (ht s hs)))
  rw [hstep, foldl_charge_of_mem hknown, Drawing.step]
  rcases hstart : g.nodes[startNode]? with _ | node
  · have hcost : (GraphEngine.costAt g.nodes startNode).2 =
        g.nodes.insert startNode Drawing.blank := by
      rw [GraphEngine.costAt, hstart]
      rfl
    rw [hcost, ← h.nodes, hstart]
    exact h.insert startNode Drawing.blank
  · rw [costAt_of_mem (mem_of_getElem? hstart), ← h.nodes, hstart, Option.getD_some, ← hstart,
      h.nodes, update_eq_self]
    exact h

/-- **One call** does to the engine what it does to the drawing. -/
lemma Shows.step (h : Shows g d) (call : Call D) : Shows (GraphModel.step g call) (d.step call) := by
  have hcount : g.getTraversalCount + 1 = .ofNat (d.traversals + 1) := by
    rw [h.traversals, UInt64.ofNat_add]
    rfl
  cases call with
  | addNode nodeId type cost profit => exact h.insert nodeId _
  | addEdge source target type weight => exact h.addEdge source target type weight
  | bfsTraversal startNode =>
    rw [step_bfsTraversal]
    exact ⟨h.nodes, h.edges, hcount, h.joined⟩
  | dfsTraversal startNode =>
    rw [step_dfsTraversal]
    exact ⟨h.nodes, h.edges, hcount, h.joined⟩
  | calculateCostPropagation startNode => exact h.calculateCostPropagation startNode

/-! ### Runs -/

/-- **The engine is its history**: behind any calls it shows what they have drawn, accepts an
edge exactly between known nodes, and finds from a node what the drawing joins to it. -/
theorem shows_run (calls : List (Call D)) :
    Shows (run GraphModel.step {} calls) (run Drawing.step {} calls) ∧
      (∀ source target type weight,
        ((run GraphModel.step {} calls).addEdge source target type weight).1 = true ↔
          (run Drawing.step {} calls).Knows source ∧ (run Drawing.step {} calls).Knows target) ∧
      ∀ startNode, ∃ t g', Returns
          (fun fuel => (run GraphModel.step {} calls).bfsTraversal fuel startNode) (paths t, g') ∧
        ∀ node, node ∈ pathEnds t ↔ node ≠ startNode ∧
          ReflTransGen (run Drawing.step {} calls).Joins startNode node := by
  have hshows : Shows (run GraphModel.step {} calls) (run Drawing.step {} calls) :=
    run_sim (fun _ _ call h => h.step call) shows_empty calls
  refine ⟨hshows, fun source target type weight => ?_, fun startNode => ?_⟩
  · rw [← hshows.mem_nodes_iff, ← hshows.mem_nodes_iff, GraphEngine.addEdge]
    split_ifs with hunknown
    · simpa [or_iff_not_imp_left] using hunknown
    · simpa using hunknown
  · obtain ⟨t, htree, hreturns⟩ := exists_breadthFirstTree (filed_run calls) startNode
    refine ⟨t, _, hreturns, fun node => ?_⟩
    have hedge : Edge (run GraphModel.step {} calls) = (run Drawing.step {} calls).Joins := by
      ext node node'
      exact hshows.edge_iff node node'
    rw [htree.spans, hedge]

end Engine

end Dbx4.GraphHistory
