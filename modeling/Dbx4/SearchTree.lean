import Mathlib.Data.Set.Insert
import Mathlib.Data.List.Nodup
import Mathlib.Logic.Relation

/-!
Trees that a search grows in a graph.

A graph is given by the edges out of each vertex and the vertex at the end of each edge. A
search takes edges one after another, each from a vertex it knows to one it does not know yet.
-/

namespace Dbx4.SearchTree

open Relation

universe u v

variable {α : Type u} {ε : Type v} (out : α → List ε) (dst : ε → α)

def Leads (x y : α) : Prop := ∃ e ∈ out x, dst e = y

/-- The ends of edges, each with the vertex that it was taken from. -/
def ends (t : List (α × ε)) : List α := t.map fun s => dst s.2

@[simp] lemma ends_nil : ends dst ([] : List (α × ε)) = [] := rfl
@[simp] lemma ends_cons (s : α × ε) (t : List (α × ε)) :
    ends dst (s :: t) = dst s.2 :: ends dst t := rfl
@[simp] lemma ends_append (t t' : List (α × ε)) :
    ends dst (t ++ t') = ends dst t ++ ends dst t' := List.map_append

/-- The edges `t` can be taken in this order when the vertices `V` are known before. -/
inductive Grown : Set α → List (α × ε) → Prop
  | nil {V : Set α} : Grown V []
  | cons {V : Set α} {x : α} {e : ε} {t : List (α × ε)} (hx : x ∈ V) (he : e ∈ out x)
      (hnew : dst e ∉ V) (ht : Grown (insert (dst e) V) t) : Grown V ((x, e) :: t)

namespace Grown

variable {out dst} {V : Set α} {t t' : List (α × ε)}

lemma append (h : Grown out dst V t) (h' : Grown out dst (V ∪ {x | x ∈ ends dst t}) t') :
    Grown out dst V (t ++ t') := by
  induction h with
  | nil => simpa using h'
  | @cons V x e t hx he hnew ht ih =>
    refine Grown.cons hx he hnew (ih ?_)
    have hset : insert (dst e) V ∪ {y | y ∈ ends dst t} = V ∪ {y | y ∈ ends dst ((x, e) :: t)} := by
      ext y
      simp only [Set.mem_union, Set.mem_insert_iff, ends_cons, List.mem_cons, Set.mem_ofPred_eq]
      tauto
    rwa [hset]

lemma of_append (h : Grown out dst V (t ++ t')) : Grown out dst V t := by
  induction t generalizing V with
  | nil => exact Grown.nil
  | cons s t ih =>
    cases h with
    | cons hx he hnew ht => exact Grown.cons hx he hnew (ih ht)

lemma mem_out (h : Grown out dst V t) {s : α × ε} (hs : s ∈ t) : s.2 ∈ out s.1 := by
  induction h with
  | nil => cases hs
  | cons hx he hnew ht ih =>
    rcases List.mem_cons.mp hs with rfl | hs
    · exact he
    · exact ih hs

lemma fresh (h : Grown out dst V t) {x : α} (hx : x ∈ ends dst t) : x ∉ V := by
  induction h with
  | nil => cases hx
  | cons _ he hnew ht ih =>
    rcases List.mem_cons.mp hx with rfl | hx
    · exact hnew
    · exact fun hV => ih hx (Set.mem_insert_of_mem _ hV)

lemma nodup (h : Grown out dst V t) : (ends dst t).Nodup := by
  induction h with
  | nil => exact List.nodup_nil
  | cons hx he hnew ht ih =>
    exact List.nodup_cons.mpr ⟨fun hmem => ht.fresh hmem (Set.mem_insert _ _), ih⟩

/-- Every edge is taken from a vertex known by then. -/
lemma source_mem (h : Grown out dst V t) {pre post : List (α × ε)} {s : α × ε}
    (ht : t = pre ++ s :: post) : s.1 ∈ V ∨ s.1 ∈ ends dst pre := by
  induction h generalizing pre with
  | nil => simp at ht
  | cons hx he hnew hgrown ih =>
    rcases pre with _ | ⟨s', pre⟩
    · obtain ⟨rfl, rfl⟩ := List.cons.inj ht
      exact Or.inl hx
    · obtain ⟨rfl, hrest⟩ := List.cons.inj ht
      rcases ih hrest with hmem | hmem
      · rcases Set.mem_insert_iff.mp hmem with heq | hmem
        · exact Or.inr (heq ▸ List.mem_cons_self)
        · exact Or.inl hmem
      · exact Or.inr (List.mem_cons_of_mem _ hmem)

/-- What the edges taken by then lead to is reached by way of their ends alone. -/
lemma reached (h : Grown out dst V t) {x : α} (hx : x ∈ ends dst t) :
    ∃ y ∈ V, ReflTransGen (fun a b => Leads out dst a b ∧ b ∈ ends dst t) y x := by
  induction h with
  | nil => cases hx
  | @cons V y e t hy he hnew ht ih =>
    have hmono : ∀ {a b : α}, (Leads out dst a b ∧ b ∈ ends dst t) →
        Leads out dst a b ∧ b ∈ ends dst ((y, e) :: t) := fun h =>
      ⟨h.1, List.mem_cons_of_mem _ h.2⟩
    have hfirst : ReflTransGen (fun a b => Leads out dst a b ∧ b ∈ ends dst ((y, e) :: t)) y
        (dst e) := ReflTransGen.single ⟨⟨e, he, rfl⟩, List.mem_cons_self⟩
    rcases List.mem_cons.mp hx with rfl | hx
    · exact ⟨y, hy, hfirst⟩
    · obtain ⟨z, hz, hreach⟩ := ih hx
      have hreach' := ReflTransGen.mono (fun _ _ => hmono) _ _ hreach
      rcases Set.mem_insert_iff.mp hz with rfl | hz
      · exact ⟨y, hy, hfirst.trans hreach'⟩
      · exact ⟨z, hz, hreach'⟩

/-- **A closed tree spans** what is reachable from its root. -/
theorem mem_ends_iff {start : α} (h : Grown out dst {start} t)
    (hclosed : ∀ x ∈ start :: ends dst t, ∀ e ∈ out x, dst e ∈ start :: ends dst t) (x : α) :
    x ∈ ends dst t ↔ x ≠ start ∧ ReflTransGen (Leads out dst) start x := by
  constructor
  · intro hx
    obtain ⟨y, rfl, hreach⟩ := h.reached hx
    exact ⟨h.fresh hx, ReflTransGen.mono (fun _ _ h => h.1) _ _ hreach⟩
  · rintro ⟨hne, hreach⟩
    have hmem : x ∈ start :: ends dst t := by
      clear hne
      induction hreach with
      | refl => exact List.mem_cons_self
      | tail _ hleads ih =>
        obtain ⟨e, he, rfl⟩ := hleads
        exact hclosed _ ih e he
    exact (List.mem_cons.mp hmem).resolve_left hne

end Grown

end Dbx4.SearchTree
