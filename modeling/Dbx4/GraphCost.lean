import Mathlib.Algebra.BigOperators.Group.List.Basic
import Mathlib.Algebra.Field.Rat
import Mathlib.Data.List.Induction
import Dbx4.GraphFrame
import Dbx4.Routes

/-!
How the order of the edges decides the propagation of costs.

Every node that is reached is charged once, through the edge by which the walk meets it first.
The total is the same in all orders when all the edges by which a node can be met charge the
same for it.
-/

namespace Dbx4.GraphCost

open Relation Dbx4.Loops Dbx4.Maps Dbx4.SearchTree Dbx4.DepthFirst Dbx4.Routes Dbx4.GraphModel
open Dbx4.GraphFrame

def addNodes (nodes : List (GraphNode ℚ)) : GraphEngine ℚ :=
  nodes.foldl (fun g node => (g.addNode node.nodeId node.nodeType node.cost node.profit).2) {}

/-- The nodes, and then the edges, added one after another. -/
def build (nodes : List (GraphNode ℚ)) (edges : List (GraphEdge ℚ)) : GraphEngine ℚ :=
  edges.foldl (fun g edge => (g.addEdge edge.fromNode edge.toNode edge.edgeType edge.weight).2)
    (addNodes nodes)

/-- The propagation of costs comes back with the total. -/
def Totals (g : GraphEngine ℚ) (startNode : UInt64) (total : ℚ) : Prop :=
  ∃ g', Returns (fun fuel => g.calculateCostPropagation fuel startNode) (total, g')

/-- The total is the same whatever the order in which the edges are added. -/
def OrderFree (nodes : List (GraphNode ℚ)) (edges : List (GraphEdge ℚ)) (startNode : UInt64) :
    Prop :=
  ∃ total, ∀ edges', edges'.Perm edges → Totals (build nodes edges') startNode total

/-- The edge is one of those that are added, and both its ends are nodes. -/
def Accepted (nodes : List (GraphNode ℚ)) (edges : List (GraphEdge ℚ)) (edge : GraphEdge ℚ) :
    Prop :=
  edge ∈ edges ∧ edge.fromNode ∈ nodes.map GraphNode.nodeId ∧
    edge.toNode ∈ nodes.map GraphNode.nodeId

lemma mem_addNodes (nodes : List (GraphNode ℚ)) (nodeId : UInt64) :
    nodeId ∈ (addNodes nodes).nodes ↔ nodeId ∈ nodes.map GraphNode.nodeId := by
  induction nodes using List.reverseRecOn with
  | nil => simp [addNodes]
  | append_singleton nodes node ih =>
    rw [addNodes, List.foldl_append, List.map_append, List.mem_append, ← ih]
    refine (mem_insert_iff _ _ _ _).trans ?_
    rw [addNodes]
    simp [or_comm, eq_comm]

lemma adjacencyList_addNodes (nodes : List (GraphNode ℚ)) :
    (addNodes nodes).adjacencyList = ∅ := by
  induction nodes using List.reverseRecOn with
  | nil => rfl
  | append_singleton nodes node ih =>
    rw [addNodes, List.foldl_append]
    exact ih

lemma nodes_build (nodes : List (GraphNode ℚ)) (edges : List (GraphEdge ℚ)) :
    (build nodes edges).nodes = (addNodes nodes).nodes := by
  induction edges using List.reverseRecOn with
  | nil => rfl
  | append_singleton edges edge ih =>
    rw [build, List.foldl_append, List.foldl_cons, List.foldl_nil, GraphEngine.addEdge]
    split_ifs
    · exact ih
    · exact ih

/-- The edges of a node stand in the order in which they were added. -/
lemma edgesFrom_build (nodes : List (GraphNode ℚ)) (edges : List (GraphEdge ℚ)) (node : UInt64) :
    (build nodes edges).edgesFrom node =
      edges.filter fun edge => (edge.fromNode ∈ nodes.map GraphNode.nodeId ∧
        edge.toNode ∈ nodes.map GraphNode.nodeId) ∧ edge.fromNode = node := by
  induction edges using List.reverseRecOn with
  | nil => simp [build, GraphEngine.edgesFrom, adjacencyList_addNodes]
  | append_singleton edges edge ih =>
    have hnodes := nodes_build nodes edges
    rw [build] at hnodes ih
    rw [build, List.foldl_append, List.foldl_cons, List.foldl_nil, edgesFrom_addEdge, hnodes, ih,
      List.filter_append]
    simp only [mem_addNodes]
    split_ifs with hedge
    · rw [List.filter_cons_of_pos (by simpa using hedge), List.filter_nil]
    · rw [List.filter_cons_of_neg (by simpa using hedge), List.filter_nil, List.append_nil]

lemma mem_edgesFrom_build {nodes : List (GraphNode ℚ)} {edges : List (GraphEdge ℚ)}
    {node : UInt64} {edge : GraphEdge ℚ} :
    edge ∈ (build nodes edges).edgesFrom node ↔
      Accepted nodes edges edge ∧ edge.fromNode = node := by
  rw [edgesFrom_build, List.mem_filter, decide_eq_true_iff, Accepted]
  tauto

/-! ### Totals -/

/-- The steps of a walk through the graph. -/
def Walked (nodes : List (GraphNode ℚ)) (edges : List (GraphEdge ℚ)) (startNode : UInt64)
    (t : List (UInt64 × GraphEdge ℚ)) : Prop :=
  ∃ visited, Takes (build nodes edges).edgesFrom GraphEdge.toNode startNode
    ((build nodes edges).edgesFrom startNode) {startNode} t visited

namespace Walked

variable {nodes : List (GraphNode ℚ)} {edges edges' : List (GraphEdge ℚ)} {startNode : UInt64}
  {t : List (UInt64 × GraphEdge ℚ)}

lemma grown (h : Walked nodes edges startNode t) :
    Grown (build nodes edges).edgesFrom GraphEdge.toNode {startNode} t := by
  obtain ⟨visited, htakes⟩ := h
  exact htakes.grown_start

lemma accepted (h : Walked nodes edges startNode t) {s : UInt64 × GraphEdge ℚ} (hs : s ∈ t) :
    Accepted nodes edges s.2 ∧ s.2.fromNode = s.1 :=
  mem_edgesFrom_build.mp (h.grown.mem_out hs)

lemma mem_ends_iff (h : Walked nodes edges startNode t) (node : UInt64) :
    node ∈ ends GraphEdge.toNode t ↔ node ≠ startNode ∧
      ReflTransGen (fun x y => ∃ e, Accepted nodes edges e ∧ e.fromNode = x ∧ e.toNode = y)
        startNode node := by
  obtain ⟨visited, htakes⟩ := h
  rw [htakes.mem_ends_iff]
  have hleads : Leads (build nodes edges).edgesFrom GraphEdge.toNode =
      fun x y => ∃ e, Accepted nodes edges e ∧ e.fromNode = x ∧ e.toNode = y := by
    funext x y
    simp only [Leads, mem_edgesFrom_build, and_assoc]
  rw [hleads]

end Walked

lemma Accepted.perm {nodes : List (GraphNode ℚ)} {edges edges' : List (GraphEdge ℚ)}
    (h : edges'.Perm edges) : Accepted nodes edges' = Accepted nodes edges := by
  funext e
  simp only [Accepted, h.mem_iff]

lemma Totals.unique {g : GraphEngine ℚ} {startNode : UInt64} {total total' : ℚ}
    (h : Totals g startNode total) (h' : Totals g startNode total') : total = total' := by
  obtain ⟨g₁, h⟩ := h
  obtain ⟨g₂, h'⟩ := h'
  exact congrArg Prod.fst (h.unique h')

end Dbx4.GraphCost
