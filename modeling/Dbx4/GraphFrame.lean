import Mathlib.Algebra.Ring.Int.Defs
import Mathlib.Data.List.Induction
import Dbx4.GraphModel

/-!
What queries leave of a graph.

The propagation of costs looks nodes up through `operator[]`, and so adds a start that nobody
has added. The ends of edges are known, and looking them up changes nothing.
-/

namespace Dbx4.GraphFrame

open Std Dbx4.Maps Dbx4.Runs Dbx4.GraphModel

variable {D : Type}

/-- The ids that the calls have added. -/
def added (calls : List (Call D)) : List UInt64 :=
  calls.filterMap fun call =>
    match call with
    | .addNode nodeId _ _ _ => some nodeId
    | _ => none

/-- The nodes are those of the ids that were added, and every edge joins two of them. -/
structure Joined (g : GraphEngine D) (ids : List UInt64) : Prop where
  nodes : ∀ nodeId, nodeId ∈ g.nodes ↔ nodeId ∈ ids
  edges : ∀ (node : UInt64) (edges : List (GraphEdge D)), g.adjacencyList[node]? = some edges →
    ∀ edge ∈ edges, edge.fromNode ∈ ids ∧ edge.toNode ∈ ids

def isQuery : Call D → Bool
  | .addNode _ _ _ _ | .addEdge _ _ _ _ => false
  | .bfsTraversal _ | .dfsTraversal _ | .calculateCostPropagation _ => true

/-- The call is not for the costs of a node that was not added. -/
def Known (calls : List (Call D)) : Call D → Prop
  | .calculateCostPropagation startNode => startNode ∈ added calls
  | _ => True

/-! ### Looking costs up -/

lemma mem_costAt [Zero D] (nodes : ExtTreeMap UInt64 (GraphNode D)) (nodeId nodeId' : UInt64) :
    nodeId' ∈ (GraphEngine.costAt nodes nodeId).2 ↔ nodeId = nodeId' ∨ nodeId' ∈ nodes := by
  unfold GraphEngine.costAt
  rcases hnode : nodes[nodeId]? with _ | node
  · exact mem_insert_iff _ _ _ _
  · refine ⟨Or.inr, ?_⟩
    rintro (rfl | hmem)
    · exact mem_of_getElem? hnode
    · exact hmem

lemma costAt_of_mem [Zero D] {nodes : ExtTreeMap UInt64 (GraphNode D)} {nodeId : UInt64}
    (h : nodeId ∈ nodes) : (GraphEngine.costAt nodes nodeId).2 = nodes := by
  unfold GraphEngine.costAt
  rcases hnode : nodes[nodeId]? with _ | node
  · exact absurd h (not_mem_of_getElem? hnode)
  · rfl

/-- Charging known nodes changes none. -/
lemma foldl_charge_of_mem [Zero D] [Add D] [Mul D] {t : List (UInt64 × GraphEdge D)}
    {s : ExtTreeMap UInt64 (GraphNode D) × D} (h : ∀ e ∈ t, e.2.toNode ∈ s.1) :
    (t.foldl GraphEngine.charge s).1 = s.1 := by
  induction t generalizing s with
  | nil => rfl
  | cons e t ih =>
    obtain ⟨he, ht⟩ := List.forall_mem_cons.mp h
    have hsame : (GraphEngine.charge s e).1 = s.1 := costAt_of_mem he
    rw [List.foldl_cons, ih (hsame ▸ ht), hsame]

lemma mem_foldl_charge [Zero D] [Add D] [Mul D] {t : List (UInt64 × GraphEdge D)}
    {s : ExtTreeMap UInt64 (GraphNode D) × D} {nodeId : UInt64} (h : nodeId ∈ s.1) :
    nodeId ∈ (t.foldl GraphEngine.charge s).1 := by
  induction t generalizing s with
  | nil => exact h
  | cons e t ih => exact ih ((mem_costAt s.1 e.2.toNode nodeId).mpr (Or.inr h))

/-! ### Edges between added nodes -/

lemma Joined.mem_of_edge {g : GraphEngine D} {ids : List UInt64} (h : Joined g ids)
    {node : UInt64} {edge : GraphEdge D} (hedge : edge ∈ g.edgesFrom node) :
    edge.toNode ∈ g.nodes := by
  obtain ⟨edges, hedges, hmem⟩ := getElem?_of_mem_edgesFrom hedge
  exact (h.nodes _).mpr (h.edges node edges hedges edge hmem).2

lemma Joined.addNode {g : GraphEngine D} {ids : List UInt64} (h : Joined g ids)
    (nodeId : UInt64) (type : Word32.Bytes) (cost profit : D) :
    Joined (g.addNode nodeId type cost profit).2 (ids ++ [nodeId]) where
  nodes nodeId' := by
    rw [GraphEngine.addNode, mem_insert_iff, h.nodes, List.mem_append, List.mem_singleton]
    tauto
  edges node edges hedges edge hedge := by
    obtain ⟨hsource, htarget⟩ := h.edges node edges hedges edge hedge
    exact ⟨List.mem_append_left _ hsource, List.mem_append_left _ htarget⟩

lemma Joined.addEdge {g : GraphEngine D} {ids : List UInt64} (h : Joined g ids)
    (source target : UInt64) (type : Word32.Bytes) (weight : D) :
    Joined (g.addEdge source target type weight).2 ids := by
  by_cases hknown : source ∈ g.nodes ∧ target ∈ g.nodes
  · rw [GraphEngine.addEdge, if_neg (by tauto)]
    refine ⟨h.nodes, fun node edges hedges edge hedge => ?_⟩
    by_cases hnode : source = node
    · subst hnode
      rw [ExtTreeMap.getElem?_insert_self] at hedges
      obtain rfl := Option.some.inj hedges
      rcases List.mem_append.mp hedge with hedge | hedge
      · obtain ⟨edges, hedges, hmem⟩ := getElem?_of_mem_edgesFrom hedge
        exact h.edges source edges hedges edge hmem
      · rw [List.mem_singleton.mp hedge]
        exact ⟨(h.nodes source).mp hknown.1, (h.nodes target).mp hknown.2⟩
    · rw [getElem?_insert_of_ne _ hnode] at hedges
      exact h.edges node edges hedges edge hedge
  · rw [GraphEngine.addEdge, if_pos (by tauto)]
    exact h

/-! ### One call -/

section Engine

variable [Zero D] [Add D] [Mul D]

def after (calls : List (Call D)) : GraphEngine D := run step {} calls

/-- The graph is as it was meant to be behind the call, and a query has not changed it. -/
def Kept (calls : List (Call D)) (call : Call D) : Prop :=
  Joined (after (calls ++ [call])) (added (calls ++ [call])) ∧
    (isQuery call = true →
      (after (calls ++ [call])).nodes = (after calls).nodes ∧
        (after (calls ++ [call])).adjacencyList = (after calls).adjacencyList)

lemma after_concat (calls : List (Call D)) (call : Call D) :
    after (calls ++ [call]) = step (after calls) call := by
  rw [after, run_append]
  rfl

/-- **One call** keeps the graph when its start is known, if it is for costs. -/
lemma kept_iff {calls : List (Call D)} (h : Joined (after calls) (added calls)) (call : Call D) :
    Kept calls call ↔ Known calls call := by
  rw [Kept, after_concat]
  cases call with
  | addNode nodeId type cost profit =>
    refine iff_of_true ⟨?_, nofun⟩ trivial
    rw [added, List.filterMap_append]
    exact h.addNode nodeId type cost profit
  | addEdge source target type weight =>
    refine iff_of_true ⟨?_, nofun⟩ trivial
    rw [added, List.filterMap_append, List.filterMap_cons, List.filterMap_nil, List.append_nil]
    exact h.addEdge source target type weight
  | bfsTraversal startNode =>
    rw [step_bfsTraversal, added, List.filterMap_append, List.filterMap_cons, List.filterMap_nil,
      List.append_nil]
    exact iff_of_true ⟨⟨h.nodes, h.edges⟩, fun _ => ⟨rfl, rfl⟩⟩ trivial
  | dfsTraversal startNode =>
    rw [step_dfsTraversal, added, List.filterMap_append, List.filterMap_cons, List.filterMap_nil,
      List.append_nil]
    exact iff_of_true ⟨⟨h.nodes, h.edges⟩, fun _ => ⟨rfl, rfl⟩⟩ trivial
  | calculateCostPropagation startNode =>
    obtain ⟨t, ht, total, hstep⟩ := step_calculateCostPropagation (after calls) startNode
    rw [hstep, added, List.filterMap_append, List.filterMap_cons, List.filterMap_nil,
      List.append_nil]
    constructor
    · rintro ⟨hjoined, -⟩
      refine (hjoined.nodes startNode).mp (mem_foldl_charge ?_)
      exact (mem_costAt _ _ _).mpr (Or.inl rfl)
    · intro hknown
      have hsame := costAt_of_mem ((h.nodes startNode).mpr hknown)
      have hnodes : (t.foldl GraphEngine.charge
          ((GraphEngine.costAt (after calls).nodes startNode).2, total)).1 =
            (after calls).nodes := by
        rw [hsame]
        exact foldl_charge_of_mem fun s hs => h.mem_of_edge (ht s hs)
      rw [hnodes]
      exact ⟨⟨h.nodes, h.edges⟩, fun _ => ⟨rfl, rfl⟩⟩

/-! ### Runs -/

lemma joined_empty : Joined (after ([] : List (Call D))) (added ([] : List (Call D))) :=
  ⟨fun nodeId => by simp [after, added], fun node edges hedges => by simp [after] at hedges⟩

/-- **When the graph is kept** all along a run: when costs are only propagated from nodes that
were added before. -/
theorem forall_kept_iff (calls : List (Call D)) :
    (∀ pre call post, calls = pre ++ call :: post → Kept pre call) ↔
      ∀ pre call post, calls = pre ++ call :: post → Known pre call := by
  have h : Along (fun calls call => calls ++ [call]) Kept [] calls ↔
      Along (fun calls call => calls ++ [call]) Known [] calls :=
    along_congr (P := fun calls => Joined (after calls) (added calls))
      (fun _ _ _ hkept => hkept.1) (fun _ call hjoined => kept_iff hjoined call) joined_empty calls
  rwa [along_concat_iff, along_concat_iff] at h

end Engine

/-- The costs of a node that nobody has added. -/
theorem not_forall_kept : ¬ ∀ calls : List (Call ℤ), ∀ pre call post,
    calls = pre ++ call :: post → Kept pre call := by
  intro h
  have hkept := h [.calculateCostPropagation 1] [] (.calculateCostPropagation 1) [] rfl
  have hknown := (kept_iff joined_empty _).mp hkept
  exact absurd hknown List.not_mem_nil

end Dbx4.GraphFrame
