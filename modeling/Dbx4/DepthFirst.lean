import Mathlib.Data.Finset.Card
import Mathlib.Data.Finset.Filter
import Mathlib.Data.Finset.Union
import Dbx4.Loops
import Dbx4.SearchTree

/-!
Depth-first search.

The walk shares the vertices it has visited between all its branches, so a vertex that one
branch skips is explored by another. What the walk notes is a fold over the tree it grows.
-/

namespace Dbx4.DepthFirst

open Relation Dbx4.Loops Dbx4.SearchTree

universe u v w

variable {α : Type u} {ε : Type v} {β : Type w} [DecidableEq α]

/-- The loop over the edges of `x`: an edge to a vertex not visited yet is noted, and the walk
goes on from there. -/
def walkEdges (dst : ε → α) (note : β → α × ε → β)
    (walk : α → Finset α × β → Outcome Empty (Finset α × β)) (x : α) :
    List ε → Finset α × β → Outcome Empty (Finset α × β)
  | [], s => .done s
  | e :: es, (visited, b) =>
    if dst e ∈ visited then walkEdges dst note walk x es (visited, b)
    else (walk (dst e) (visited, note b (x, e))).bind (walkEdges dst note walk x es)

/-- The walk from a vertex, at most `fuel` calls deep. -/
def walk (out : α → List ε) (dst : ε → α) (note : β → α × ε → β) :
    ℕ → α → Finset α × β → Outcome Empty (Finset α × β)
  | 0, _, _ => .pending
  | fuel + 1, x, (visited, b) =>
    walkEdges dst note (walk out dst note fuel) x (out x) (insert x visited, b)

variable (out : α → List ε) (dst : ε → α)

/-- The loop over the edges `es` of `x` takes the edges `t`, from the vertices `V` visited to
the vertices `V'`. -/
inductive Takes : α → List ε → Finset α → List (α × ε) → Finset α → Prop
  | nil {x : α} {V : Finset α} : Takes x [] V [] V
  | skip {x : α} {e : ε} {es : List ε} {V V' : Finset α} {t : List (α × ε)} (he : dst e ∈ V)
      (hes : Takes x es V t V') : Takes x (e :: es) V t V'
  | visit {x : α} {e : ε} {es : List ε} {V V₁ V' : Finset α} {t t' : List (α × ε)}
      (he : dst e ∉ V) (hbelow : Takes (dst e) (out (dst e)) (insert (dst e) V) t V₁)
      (hes : Takes x es V₁ t' V') : Takes x (e :: es) V ((x, e) :: (t ++ t')) V'

namespace Takes

variable {out dst} {x : α} {es : List ε} {V V' : Finset α} {t : List (α × ε)}

/-- Visited behind the loop are the vertices visited before it, and the ends of what it
takes. -/
lemma mem_iff (h : Takes out dst x es V t V') (y : α) : y ∈ V' ↔ y ∈ V ∨ y ∈ ends dst t := by
  induction h with
  | nil => simp
  | skip _ _ ih => exact ih
  | visit _ _ _ ihbelow ihes =>
    rw [ihes, ihbelow, Finset.mem_insert, ends_cons, List.mem_cons, ends_append, List.mem_append,
      or_assoc, or_assoc, or_left_comm]

lemma subset (h : Takes out dst x es V t V') : V ⊆ V' := fun y hy => (h.mem_iff y).mpr (Or.inl hy)

lemma grown (h : Takes out dst x es V t V') (hx : x ∈ V) (hes : ∀ e ∈ es, e ∈ out x) :
    Grown out dst {y | y ∈ V} t := by
  induction h with
  | nil => exact Grown.nil
  | skip _ _ ih => exact ih hx fun e he => hes e (List.mem_cons_of_mem _ he)
  | @visit x e es V V₁ V' t t' he hbelow hrest ihbelow ihes =>
    have hset : insert (dst e) {y | y ∈ V} = {y | y ∈ insert (dst e) V} := by
      ext y
      simp
    have hset' : {y | y ∈ V₁} = {y | y ∈ insert (dst e) V} ∪ {y | y ∈ ends dst t} := by
      ext y
      simp [hbelow.mem_iff]
    refine Grown.cons hx (hes e List.mem_cons_self) he ?_
    rw [hset]
    refine (ihbelow (Finset.mem_insert_self _ _) fun _ h => h).append ?_
    rw [← hset']
    refine ihes (hbelow.subset (Finset.mem_insert_of_mem hx)) fun e he => ?_
    exact hes e (List.mem_cons_of_mem _ he)

lemma grown_start {start : α} (h : Takes out dst start (out start) {start} t V') :
    Grown out dst {start} t := by
  have hset : {y | y ∈ ({start} : Finset α)} = {start} := by
    ext y
    simp
  exact hset ▸ h.grown (Finset.mem_singleton_self _) fun _ he => he

/-- A vertex that is skipped is visited; every other is explored before the loop goes on. -/
lemma closed (h : Takes out dst x es V t V') :
    (∀ e ∈ es, dst e ∈ V') ∧ ∀ y ∈ ends dst t, ∀ e ∈ out y, dst e ∈ V' := by
  induction h with
  | nil => simp
  | skip he hrest ih => exact ⟨List.forall_mem_cons.mpr ⟨hrest.subset he, ih.1⟩, ih.2⟩
  | visit he hbelow hrest ihbelow ihes =>
    have hend := hrest.subset (hbelow.subset (Finset.mem_insert_self _ _))
    refine ⟨List.forall_mem_cons.mpr ⟨hend, ihes.1⟩, fun y hy e he => ?_⟩
    rw [ends_cons, List.mem_cons, ends_append, List.mem_append] at hy
    rcases hy with rfl | hy | hy
    · exact hrest.subset (ihbelow.1 e he)
    · exact hrest.subset (ihbelow.2 y hy e he)
    · exact ihes.2 y hy e he

end Takes

/-- The vertices of `U` that are not visited. -/
def unvisited (U V : Finset α) : Finset α := U.filter (· ∉ V)

lemma card_unvisited_insert {U V : Finset α} {x : α} (hU : x ∈ U) (hV : x ∉ V) :
    (unvisited U (insert x V)).card < (unvisited U V).card := by
  refine Finset.card_lt_card ((Finset.ssubset_iff_of_subset fun y hy => ?_).mpr ⟨x, ?_, ?_⟩)
  · obtain ⟨hyU, hy⟩ := Finset.mem_filter.mp hy
    exact Finset.mem_filter.mpr ⟨hyU, fun h => hy (Finset.mem_insert_of_mem h)⟩
  · exact Finset.mem_filter.mpr ⟨hU, hV⟩
  · exact fun h => (Finset.mem_filter.mp h).2 (Finset.mem_insert_self _ _)

lemma card_unvisited_le {U V V' : Finset α} (h : V ⊆ V') :
    (unvisited U V').card ≤ (unvisited U V).card := by
  refine Finset.card_le_card fun y hy => ?_
  obtain ⟨hyU, hy⟩ := Finset.mem_filter.mp hy
  exact Finset.mem_filter.mpr ⟨hyU, fun hyV => hy (h hyV)⟩

/-- The loop comes back when the walk may go as deep as there are vertices left to visit. -/
lemma exists_takes {U : Finset α} (hU : ∀ x, ∀ e ∈ out x, dst e ∈ U) (note : β → α × ε → β)
    (n : ℕ) (x : α) (es : List ε) (hes : ∀ e ∈ es, dst e ∈ U) (V : Finset α)
    (hV : (unvisited U V).card ≤ n) :
    ∃ t V', Takes out dst x es V t V' ∧ ∀ fuel, n ≤ fuel → ∀ b,
      walkEdges dst note (walk out dst note fuel) x es (V, b) = .done (V', t.foldl note b) := by
  induction n using Nat.strong_induction_on generalizing x es V with
  | h n ih =>
    induction es generalizing V with
    | nil => exact ⟨[], V, Takes.nil, fun _ _ _ => rfl⟩
    | cons e es ihes =>
      obtain ⟨heU, hesU⟩ := List.forall_mem_cons.mp hes
      by_cases he : dst e ∈ V
      · obtain ⟨t, V', htakes, hdone⟩ := ihes hesU V hV
        refine ⟨t, V', htakes.skip he, fun fuel hfuel b => ?_⟩
        rw [walkEdges, if_pos he, hdone fuel hfuel]
      · have hlt := (card_unvisited_insert heU he).trans_le hV
        obtain ⟨t, V₁, hbelow, hdone⟩ := ih _ hlt (dst e) (out (dst e)) (hU _) _ le_rfl
        have hsub : V ⊆ V₁ := (Finset.subset_insert _ _).trans hbelow.subset
        obtain ⟨t', V', hrest, hdone'⟩ := ihes hesU V₁ ((card_unvisited_le hsub).trans hV)
        refine ⟨(x, e) :: (t ++ t'), V', Takes.visit he hbelow hrest, fun fuel hfuel b => ?_⟩
        obtain ⟨k, rfl⟩ : ∃ k, fuel = k + 1 := ⟨fuel - 1, by omega⟩
        rw [walkEdges, if_neg he, walk, hdone k (by omega), done_bind, hdone' _ hfuel,
          List.foldl_cons, List.foldl_append]

/-- **The walk** from `start` comes back, with what is noted along a tree that spans the
vertices reachable from `start`. -/
theorem walk_spec {U : Finset α} (hU : ∀ x, ∀ e ∈ out x, dst e ∈ U) (note : β → α × ε → β)
    (start : α) : ∃ t V', Takes out dst start (out start) {start} t V' ∧
      ∀ fuel, U.card < fuel → ∀ b,
        walk out dst note fuel start (∅, b) = .done (V', t.foldl note b) := by
  obtain ⟨t, V', htakes, hdone⟩ :=
    exists_takes out dst hU note U.card start (out start) (hU start) {start}
      (Finset.card_filter_le _ _)
  refine ⟨t, V', htakes, fun fuel hfuel b => ?_⟩
  obtain ⟨k, rfl⟩ : ∃ k, fuel = k + 1 := ⟨fuel - 1, by omega⟩
  rw [walk, insert_empty_eq, hdone k (by omega)]

variable {out dst}

/-- The edges taken from `start` span what is reachable. -/
lemma Takes.mem_ends_iff {start : α} {t : List (α × ε)} {V' : Finset α}
    (h : Takes out dst start (out start) {start} t V') (x : α) :
    x ∈ ends dst t ↔ x ≠ start ∧ ReflTransGen (Leads out dst) start x := by
  have hmem (y : α) : y ∈ V' ↔ y ∈ start :: ends dst t := by
    rw [h.mem_iff, Finset.mem_singleton, List.mem_cons]
  refine h.grown_start.mem_ends_iff (fun y hy e he => ?_) x
  rw [← hmem]
  rcases List.mem_cons.mp hy with rfl | hy
  · exact h.closed.1 e he
  · exact h.closed.2 y hy e he

end Dbx4.DepthFirst
