import Dbx4.GraphModel

/-!
What the traversals of a graph return.

Both traversals grow a tree that spans what is reachable from the start. The breadth-first one
grows it in the order of distance.
-/

namespace Dbx4.GraphTraversal

open Relation Dbx4.HopDistance Dbx4.Loops Dbx4.Runs Dbx4.SearchTree Dbx4.GraphModel

variable {D : Type}

/-- An edge of the graph leads from `node` to `node'`. -/
def Edge (g : GraphEngine D) (node node' : UInt64) : Prop :=
  ∃ edge ∈ g.edgesFrom node, edge.toNode = node'

/-- The ends of one-edge paths, each given by its source and its edge. -/
def pathEnds (t : List (UInt64 × GraphEdge D)) : List UInt64 := t.map fun s => s.2.toNode

def paths (t : List (UInt64 × GraphEdge D)) : List (TraversalPath D) :=
  t.map fun s => GraphEngine.path s.1 s.2

/-- The paths along `t` form a tree that spans what is reachable from the start: each edge is
one of the graph and leaves the start or the end of an earlier path, and each node that is
reachable ends one path. -/
structure SpanningTree (g : GraphEngine D) (startNode : UInt64)
    (t : List (UInt64 × GraphEdge D)) : Prop where
  edges : ∀ s ∈ t, s.2 ∈ g.edgesFrom s.1 ∧ s.2.fromNode = s.1
  sources : ∀ pre s post, t = pre ++ s :: post → s.1 = startNode ∨ s.1 ∈ pathEnds pre
  once : (pathEnds t).Nodup
  spans : ∀ node, node ∈ pathEnds t ↔
    node ≠ startNode ∧ ReflTransGen (Edge g) startNode node

/-- The ends come in the order of their distance, each one hop beyond its source. -/
structure BreadthFirstTree (g : GraphEngine D) (startNode : UInt64)
    (t : List (UInt64 × GraphEdge D)) : Prop extends SpanningTree g startNode t where
  sorted : (pathEnds t).Pairwise fun node node' =>
    dist (Edge g) startNode node ≤ dist (Edge g) startNode node'
  hop : ∀ s ∈ t, dist (Edge g) startNode s.2.toNode = dist (Edge g) startNode s.1 + 1

/-! ### Graphs built by calls -/

/-- Edges are listed under the node they leave. -/
def Filed (g : GraphEngine D) : Prop := ∀ node, ∀ edge ∈ g.edgesFrom node, edge.fromNode = node

lemma Filed.step [Zero D] [Add D] [Mul D] {g : GraphEngine D} (h : Filed g) (call : Call D) :
    Filed (GraphModel.step g call) := by
  cases call with
  | addNode nodeId type cost profit => exact h
  | addEdge source target type weight =>
    intro node edge hedge
    rw [GraphModel.step, edgesFrom_addEdge] at hedge
    split_ifs at hedge with hnode
    · rcases List.mem_append.mp hedge with hedge | hedge
      · exact h node edge hedge
      · rw [List.mem_singleton.mp hedge]
        exact hnode.2
    · exact h node edge hedge
  | bfsTraversal startNode =>
    rw [step_bfsTraversal]
    exact h
  | dfsTraversal startNode =>
    rw [step_dfsTraversal]
    exact h
  | calculateCostPropagation startNode =>
    obtain ⟨t, -, total, hstep⟩ := step_calculateCostPropagation g startNode
    rw [hstep]
    exact h

lemma filed_empty : Filed ({} : GraphEngine D) := by
  intro node edge hedge
  obtain ⟨edges, hedges, -⟩ := getElem?_of_mem_edgesFrom hedge
  simp at hedges

lemma filed_run [Zero D] [Add D] [Mul D] (calls : List (Call D)) :
    Filed (run GraphModel.step {} calls) :=
  run_inv (fun _ call h => h.step call) filed_empty calls

/-! ### Trees -/

lemma spanningTree_of_grown {g : GraphEngine D} (h : Filed g) {startNode : UInt64}
    {t : List (UInt64 × GraphEdge D)}
    (hgrown : Grown g.edgesFrom GraphEdge.toNode {startNode} t)
    (hspans : ∀ node, node ∈ ends GraphEdge.toNode t ↔
      node ≠ startNode ∧ ReflTransGen (Leads g.edgesFrom GraphEdge.toNode) startNode node) :
    SpanningTree g startNode t where
  edges _ hs := ⟨hgrown.mem_out hs, h _ _ (hgrown.mem_out hs)⟩
  sources _ _ _ ht := hgrown.source_mem ht
  once := hgrown.nodup
  spans := hspans

lemma exists_breadthFirstTree {g : GraphEngine D} (h : Filed g) (startNode : UInt64) :
    ∃ t, BreadthFirstTree g startNode t ∧
      Returns (fun fuel => g.bfsTraversal fuel startNode)
        (paths t, { g with totalTraversals := g.totalTraversals + 1 }) := by
  obtain ⟨found, t, hsearched, hdone⟩ := bfsTraversal_spec g startNode
  refine ⟨t, ⟨?_, ?_, hsearched.levels⟩, _, hdone⟩
  · exact spanningTree_of_grown h hsearched.grown hsearched.mem_ends_iff
  · exact (List.pairwise_cons.mp hsearched.sorted).2

lemma exists_spanningTree {g : GraphEngine D} (h : Filed g) (startNode : UInt64) :
    ∃ t, SpanningTree g startNode t ∧
      Returns (fun fuel => g.dfsTraversal fuel startNode)
        (paths t, { g with totalTraversals := g.totalTraversals + 1 }) := by
  obtain ⟨t, visited, htakes, hdone⟩ := dfsTraversal_spec g startNode
  exact ⟨t, spanningTree_of_grown h htakes.grown_start htakes.mem_ends_iff, _, hdone⟩

section Runs

variable [Zero D] [Add D] [Mul D]

/-- **A breadth-first traversal** of a graph built by any calls returns the paths of a
breadth-first tree. -/
theorem bfsTraversal_returns (calls : List (Call D)) (startNode : UInt64) :
    ∃ t g', Returns (fun fuel => (run step {} calls).bfsTraversal fuel startNode) (paths t, g') ∧
      BreadthFirstTree (run step {} calls) startNode t := by
  obtain ⟨t, htree, hreturns⟩ := exists_breadthFirstTree (filed_run calls) startNode
  exact ⟨t, _, hreturns, htree⟩

/-- **A depth-first traversal** of a graph built by any calls returns the paths of a spanning
tree, with the same ends as the breadth-first traversal. -/
theorem dfsTraversal_returns (calls : List (Call D)) (startNode : UInt64) :
    ∃ t g', Returns (fun fuel => (run step {} calls).dfsTraversal fuel startNode) (paths t, g') ∧
      SpanningTree (run step {} calls) startNode t ∧
      ∃ t' g'', Returns (fun fuel => (run step {} calls).bfsTraversal fuel startNode)
          (paths t', g'') ∧
        ∀ node, node ∈ pathEnds t ↔ node ∈ pathEnds t' := by
  obtain ⟨t, htree, hreturns⟩ := exists_spanningTree (filed_run calls) startNode
  obtain ⟨t', htree', hreturns'⟩ := exists_breadthFirstTree (filed_run calls) startNode
  refine ⟨t, _, hreturns, htree, t', _, hreturns', fun node => ?_⟩
  rw [htree.spans, htree'.spans]

end Runs

end Dbx4.GraphTraversal
