import Mathlib.Data.Set.Insert
import Mathlib.Logic.Relation

/-!
Paths of a graph that meet themselves.

A search for a cycle that remembers only the path it is on answers whether some path meets a
vertex of that path, or itself.
-/

namespace Dbx4.PathMeets

open Relation

universe u

variable {α : Type u} (E : α → α → Prop)

/-- Some path from `v` meets a vertex of `P`, or itself. -/
inductive Meets : Set α → α → Prop
  | here {P : Set α} {v : α} (hv : v ∈ P) : Meets P v
  | next {P : Set α} {v c : α} (hedge : E v c) (hmeets : Meets (insert v P) c) : Meets P v

variable {E}

lemma Meets.mono {P Q : Set α} {v : α} (h : Meets E P v) (hPQ : P ⊆ Q) : Meets E Q v := by
  induction h generalizing Q with
  | here hv => exact Meets.here (hPQ hv)
  | next hedge _ ih => exact Meets.next hedge (ih (Set.insert_subset_insert hPQ))

lemma meets_iff_of_notMem {P : Set α} {v : α} (hv : v ∉ P) :
    Meets E P v ↔ ∃ c, E v c ∧ Meets E (insert v P) c := by
  constructor
  · rintro (hmem | ⟨hedge, hmeets⟩)
    · exact absurd hmem hv
    · exact ⟨_, hedge, hmeets⟩
  · rintro ⟨c, hedge, hmeets⟩
    exact Meets.next hedge hmeets

/-- A path that ends in `P` meets it. -/
lemma Meets.of_reflTransGen {P : Set α} {v p : α} (h : ReflTransGen E v p) (hp : p ∈ P) :
    Meets E P v := by
  induction h using ReflTransGen.head_induction_on with
  | refl => exact Meets.here hp
  | head hedge _ ih => exact Meets.next hedge (ih.mono (Set.subset_insert _ P))

/-- A path that meets the vertices it has come by has closed a cycle. -/
lemma Meets.exists_cycle {P : Set α} {v : α} (h : Meets E P v) (hP : ∀ p ∈ P, TransGen E p v) :
    ∃ w, ReflTransGen E v w ∧ TransGen E w w := by
  induction h with
  | here hv => exact ⟨_, ReflTransGen.refl, hP _ hv⟩
  | @next P v c hedge _ ih =>
    have hpath : ∀ p ∈ insert v P, TransGen E p c := by
      intro p hp
      rcases Set.mem_insert_iff.mp hp with rfl | hp
      · exact TransGen.single hedge
      · exact (hP p hp).tail hedge
    obtain ⟨w, hw, hcycle⟩ := ih hpath
    exact ⟨w, hw.head hedge, hcycle⟩

/-- **Cycles**: some path from `v` meets itself when `v` leads to a cycle. -/
theorem meets_empty_iff {v : α} :
    Meets E ∅ v ↔ ∃ w, ReflTransGen E v w ∧ TransGen E w w := by
  refine ⟨fun h => h.exists_cycle fun p hp => absurd hp (Set.notMem_empty p), ?_⟩
  rintro ⟨w, hw, hcycle⟩
  induction hw using ReflTransGen.head_induction_on with
  | refl =>
    obtain ⟨c, hedge, hback⟩ := TransGen.head'_iff.mp hcycle
    exact Meets.next hedge (Meets.of_reflTransGen hback (Set.mem_insert w ∅))
  | head hedge _ ih => exact Meets.next hedge (ih.mono (Set.empty_subset _))

end Dbx4.PathMeets
