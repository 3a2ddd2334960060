import Std.Data.ExtTreeMap
import Dbx4.BreadthFirst
import Dbx4.DepthFirst
import Dbx4.Maps
import Dbx4.Runs
import Dbx4.Word32

/-!
The graph engine of `advanced_features.cpp`.

Costs and weights are numbers of any type. The two recursions differ in what they note on the
way, and are the same walk.
-/

namespace Dbx4.GraphModel

open Std Dbx4.Loops Dbx4.Maps Dbx4.Runs Dbx4.Word32

variable {D : Type}

structure GraphNode (D : Type) where
  nodeId : UInt64
  nodeType : Bytes
  cost : D
  profit : D

structure GraphEdge (D : Type) where
  fromNode : UInt64
  toNode : UInt64
  edgeType : Bytes
  weight : D

structure TraversalPath (D : Type) where
  nodes : List UInt64
  edges : List (GraphEdge D)

structure GraphEngine (D : Type) where
  nodes : ExtTreeMap UInt64 (GraphNode D) := ∅
  adjacencyList : ExtTreeMap UInt64 (List (GraphEdge D)) := ∅
  totalTraversals : UInt64 := 0

namespace GraphEngine

def addNode (g : GraphEngine D) (nodeId : UInt64) (type : Bytes) (cost profit : D) :
    Bool × GraphEngine D :=
  let node : GraphNode D := { nodeId := nodeId, nodeType := type, cost := cost, profit := profit }
  (true, { g with nodes := g.nodes.insert nodeId node })

/-- The edges listed for a vertex; none where it is not in the list. -/
def edgesFrom (g : GraphEngine D) (node : UInt64) : List (GraphEdge D) :=
  match g.adjacencyList[node]? with
  | some edges => edges
  | none => []

def addEdge (g : GraphEngine D) (source target : UInt64) (type : Bytes) (weight : D) :
    Bool × GraphEngine D :=
  if source ∉ g.nodes ∨ target ∉ g.nodes then (false, g)
  else
    let edge : GraphEdge D :=
      { fromNode := source, toNode := target, edgeType := type, weight := weight }
    (true, { g with
      adjacencyList := g.adjacencyList.insert source (g.edgesFrom source ++ [edge]) })

/-! ### Traversals -/

def path (node : UInt64) (edge : GraphEdge D) : TraversalPath D :=
  { nodes := [node, edge.toNode], edges := [edge] }

def addPath (paths : List (TraversalPath D)) (s : UInt64 × GraphEdge D) : List (TraversalPath D) :=
  paths ++ [path s.1 s.2]

def bfsTraversal (g : GraphEngine D) (fuel : ℕ) (startNode : UInt64) :
    Outcome Empty (List (TraversalPath D) × GraphEngine D) :=
  let g := { g with totalTraversals := g.totalTraversals + 1 }
  (loop (BreadthFirst.turn g.edgesFrom GraphEdge.toNode addPath) fuel
    { queue := [startNode], visited := {startNode}, noted := [] }).bind fun s =>
      .done (s.noted, g)

/-- What is visited, and the paths so far. -/
def dfsRecursive (g : GraphEngine D) :
    ℕ → UInt64 → Finset UInt64 × List (TraversalPath D) →
      Outcome Empty (Finset UInt64 × List (TraversalPath D)) :=
  DepthFirst.walk g.edgesFrom GraphEdge.toNode addPath

def dfsTraversal (g : GraphEngine D) (fuel : ℕ) (startNode : UInt64) :
    Outcome Empty (List (TraversalPath D) × GraphEngine D) :=
  let g := { g with totalTraversals := g.totalTraversals + 1 }
  (g.dfsRecursive fuel startNode (∅, [])).bind fun (_, paths) => .done (paths, g)

/-! ### Costs -/

section Costs

variable [Zero D] [Add D] [Mul D]

/-- `nodes_[nodeId].cost`: a node that is not there yet is put there with zeros. -/
def costAt (nodes : ExtTreeMap UInt64 (GraphNode D)) (nodeId : UInt64) :
    D × ExtTreeMap UInt64 (GraphNode D) :=
  match nodes[nodeId]? with
  | some node => (node.cost, nodes)
  | none => (0, nodes.insert nodeId { nodeId := 0, nodeType := [], cost := 0, profit := 0 })

/-- The nodes and the total, with the cost at the end of one more edge. -/
def charge (s : ExtTreeMap UInt64 (GraphNode D) × D) (step : UInt64 × GraphEdge D) :
    ExtTreeMap UInt64 (GraphNode D) × D :=
  let (cost, nodes) := costAt s.1 step.2.toNode
  (nodes, s.2 + cost * step.2.weight)

/-- What is visited, the nodes and the total so far. -/
def propagateCostRecursive (g : GraphEngine D) :
    ℕ → UInt64 → Finset UInt64 × (ExtTreeMap UInt64 (GraphNode D) × D) →
      Outcome Empty (Finset UInt64 × (ExtTreeMap UInt64 (GraphNode D) × D)) :=
  DepthFirst.walk g.edgesFrom GraphEdge.toNode charge

def calculateCostPropagation (g : GraphEngine D) (fuel : ℕ) (startNode : UInt64) :
    Outcome Empty (D × GraphEngine D) :=
  let (totalCost, nodes) := costAt g.nodes startNode
  (g.propagateCostRecursive fuel startNode (∅, (nodes, totalCost))).bind
    fun (_, (nodes, totalCost)) => .done (totalCost, { g with nodes := nodes })

end Costs

def getTraversalCount (g : GraphEngine D) : UInt64 := g.totalTraversals

end GraphEngine

/-! ### Edges -/

/-- The vertices that edges lead to. -/
def targets (g : GraphEngine D) : Finset UInt64 :=
  (g.adjacencyList.toList.flatMap fun entry => entry.2.map GraphEdge.toNode).toFinset

lemma getElem?_of_mem_edgesFrom {g : GraphEngine D} {node : UInt64} {edge : GraphEdge D}
    (h : edge ∈ g.edgesFrom node) :
    ∃ edges, g.adjacencyList[node]? = some edges ∧ edge ∈ edges := by
  unfold GraphEngine.edgesFrom at h
  rcases hedges : g.adjacencyList[node]? with _ | edges
  · rw [hedges] at h
    cases h
  · rw [hedges] at h
    exact ⟨edges, rfl, h⟩

lemma mem_targets (g : GraphEngine D) (node : UInt64) (edge : GraphEdge D)
    (h : edge ∈ g.edgesFrom node) : edge.toNode ∈ targets g := by
  obtain ⟨edges, hedges, hmem⟩ := getElem?_of_mem_edgesFrom h
  refine List.mem_toFinset.mpr (List.mem_flatMap.mpr ⟨(node, edges), ?_, ?_⟩)
  · exact ExtTreeMap.mem_toList_iff_getElem?_eq_some.mpr hedges
  · exact List.mem_map.mpr ⟨edge, hmem, rfl⟩

lemma edgesFrom_addEdge (g : GraphEngine D) (source target : UInt64) (type : Bytes) (weight : D)
    (node : UInt64) : (g.addEdge source target type weight).2.edgesFrom node =
      if (source ∈ g.nodes ∧ target ∈ g.nodes) ∧ source = node then
        g.edgesFrom node ++ [⟨source, target, type, weight⟩]
      else g.edgesFrom node := by
  unfold GraphEngine.addEdge
  by_cases hknown : source ∈ g.nodes ∧ target ∈ g.nodes
  · rw [if_neg (by tauto)]
    by_cases hnode : source = node
    · subst hnode
      rw [if_pos ⟨hknown, rfl⟩]
      simp [GraphEngine.edgesFrom]
    · rw [if_neg (by tauto)]
      simp only [GraphEngine.edgesFrom]
      rw [getElem?_insert_of_ne _ hnode]
  · rw [if_pos (by tauto), if_neg (by tauto)]

/-! ### Traversals come back -/

lemma foldl_addPath (paths : List (TraversalPath D)) (t : List (UInt64 × GraphEdge D)) :
    t.foldl GraphEngine.addPath paths = paths ++ t.map fun s => GraphEngine.path s.1 s.2 := by
  induction t generalizing paths with
  | nil => simp
  | cons s t ih => simp [ih, GraphEngine.addPath]

/-- **A breadth-first traversal** comes back with the paths along a tree. -/
lemma bfsTraversal_spec (g : GraphEngine D) (startNode : UInt64) : ∃ found t,
    BreadthFirst.Searched g.edgesFrom GraphEdge.toNode startNode found [] t ∧
      ∀ fuel, (targets g).card + 1 < fuel → g.bfsTraversal fuel startNode =
        .done (t.map fun s => GraphEngine.path s.1 s.2,
          { g with totalTraversals := g.totalTraversals + 1 }) := by
  obtain ⟨found, t, s, hsearched, hnoted, hloop⟩ :=
    BreadthFirst.loop_spec (mem_targets g) GraphEngine.addPath [] startNode
  refine ⟨found, t, hsearched, fun fuel hfuel => ?_⟩
  rw [foldl_addPath, List.nil_append] at hnoted
  rw [← hnoted]
  exact bind_of_eq_done (hloop fuel hfuel) _

/-- **A depth-first traversal** comes back with the paths along a tree. -/
lemma dfsTraversal_spec (g : GraphEngine D) (startNode : UInt64) : ∃ t visited,
    DepthFirst.Takes g.edgesFrom GraphEdge.toNode startNode (g.edgesFrom startNode) {startNode} t
        visited ∧
      ∀ fuel, (targets g).card < fuel → g.dfsTraversal fuel startNode =
        .done (t.map fun s => GraphEngine.path s.1 s.2,
          { g with totalTraversals := g.totalTraversals + 1 }) := by
  obtain ⟨t, visited, htakes, hwalk⟩ :=
    DepthFirst.walk_spec g.edgesFrom GraphEdge.toNode (mem_targets g) GraphEngine.addPath startNode
  refine ⟨t, visited, htakes, fun fuel hfuel => ?_⟩
  have hdone := hwalk fuel hfuel []
  rw [foldl_addPath, List.nil_append] at hdone
  exact bind_of_eq_done hdone _

/-- **The propagation of costs** comes back with what is charged along such a tree. -/
lemma calculateCostPropagation_spec [Zero D] [Add D] [Mul D] (g : GraphEngine D)
    (startNode : UInt64) : ∃ t visited,
    DepthFirst.Takes g.edgesFrom GraphEdge.toNode startNode (g.edgesFrom startNode) {startNode} t
        visited ∧
      ∀ fuel, (targets g).card < fuel → g.calculateCostPropagation fuel startNode =
        let first := GraphEngine.costAt g.nodes startNode
        let last := t.foldl GraphEngine.charge (first.2, first.1)
        .done (last.2, { g with nodes := last.1 }) := by
  obtain ⟨t, visited, htakes, hwalk⟩ :=
    DepthFirst.walk_spec g.edgesFrom GraphEdge.toNode (mem_targets g) GraphEngine.charge startNode
  refine ⟨t, visited, htakes, fun fuel hfuel => ?_⟩
  have hdone := hwalk fuel hfuel
    ((GraphEngine.costAt g.nodes startNode).2, (GraphEngine.costAt g.nodes startNode).1)
  exact bind_of_eq_done hdone _

/-! ### Runs -/

inductive Call (D : Type)
  | addNode (nodeId : UInt64) (type : Bytes) (cost profit : D)
  | addEdge (source target : UInt64) (type : Bytes) (weight : D)
  | bfsTraversal (startNode : UInt64)
  | dfsTraversal (startNode : UInt64)
  | calculateCostPropagation (startNode : UInt64)

/-- The engine that a traversal leaves behind when it has come back. -/
def left {A : Type} (g : GraphEngine D) (o : Outcome Empty (A × GraphEngine D)) : GraphEngine D :=
  match o with
  | .done (_, g') => g'
  | .fault e => nomatch e
  | .pending => g

/-- Turns that are enough for every traversal. -/
def enough (g : GraphEngine D) : ℕ := (targets g).card + 2

def step [Zero D] [Add D] [Mul D] (g : GraphEngine D) : Call D → GraphEngine D
  | .addNode nodeId type cost profit => (g.addNode nodeId type cost profit).2
  | .addEdge source target type weight => (g.addEdge source target type weight).2
  | .bfsTraversal startNode => left g (g.bfsTraversal (enough g) startNode)
  | .dfsTraversal startNode => left g (g.dfsTraversal (enough g) startNode)
  | .calculateCostPropagation startNode =>
    left g (g.calculateCostPropagation (enough g) startNode)

lemma step_bfsTraversal [Zero D] [Add D] [Mul D] (g : GraphEngine D) (startNode : UInt64) :
    step g (.bfsTraversal startNode) = { g with totalTraversals := g.totalTraversals + 1 } := by
  obtain ⟨_, _, -, hdone⟩ := bfsTraversal_spec g startNode
  rw [step, hdone (enough g) (Nat.lt_succ_self _), left]

lemma step_dfsTraversal [Zero D] [Add D] [Mul D] (g : GraphEngine D) (startNode : UInt64) :
    step g (.dfsTraversal startNode) = { g with totalTraversals := g.totalTraversals + 1 } := by
  obtain ⟨_, _, -, hdone⟩ := dfsTraversal_spec g startNode
  rw [step, hdone (enough g) (by unfold enough; omega), left]

/-- What a propagation of costs does to the nodes: it looks up the start and the ends of a
tree. -/
lemma step_calculateCostPropagation [Zero D] [Add D] [Mul D] (g : GraphEngine D)
    (startNode : UInt64) : ∃ t : List (UInt64 × GraphEdge D),
      (∀ s ∈ t, s.2 ∈ g.edgesFrom s.1) ∧
        ∃ total, step g (.calculateCostPropagation startNode) =
          { g with nodes := (t.foldl GraphEngine.charge
            ((GraphEngine.costAt g.nodes startNode).2, total)).1 } := by
  obtain ⟨t, _, htakes, hdone⟩ := calculateCostPropagation_spec g startNode
  refine ⟨t, fun s hs => htakes.grown_start.mem_out hs,
    (GraphEngine.costAt g.nodes startNode).1, ?_⟩
  rw [step, hdone (enough g) (by unfold enough; omega), left]

end Dbx4.GraphModel
