import Mathlib.Order.Defs.Unbundled
import Mathlib.Tactic.Common

/-!
Three-way comparisons that a sort may use.

Where swapping the arguments of a comparison swaps its answer, "less" is a strict weak order
exactly when the comparison is transitive, and that is when every third element stands on one
side of a pair that is in order.
-/

namespace Dbx4.WeakOrder

open Std (OrientedCmp TransCmp)

universe u v

variable {α : Type u} {cmp : α → α → Ordering}

lemma isLE_of_not_lt [OrientedCmp cmp] {a b : α} (h : ¬ cmp a b = .lt) : (cmp b a).isLE := by
  rw [← OrientedCmp.isGE_iff_isLE]
  rcases hab : cmp a b with _ | _ | _
  · exact absurd hab h
  · rfl
  · rfl

/-- **Transitive comparisons**: what stands between two elements is more than the one or less
than the other. -/
theorem transCmp_iff [OrientedCmp cmp] :
    TransCmp cmp ↔ ∀ a b c, cmp a c = .lt → cmp a b = .lt ∨ cmp b c = .lt := by
  refine ⟨fun h a b c hac => ?_, fun h => ⟨fun {a b c} hab hbc => ?_⟩⟩
  · by_contra hnot
    obtain ⟨hab, hbc⟩ := not_or.mp hnot
    have hca : (cmp c a).isLE := TransCmp.isLE_trans (isLE_of_not_lt hbc) (isLE_of_not_lt hab)
    rw [OrientedCmp.gt_of_lt hac] at hca
    cases hca
  · by_contra hac
    have hca : cmp c a = .lt := by
      rcases hcmp : cmp a c with _ | _ | _ <;> rw [hcmp] at hac
      · exact absurd rfl hac
      · exact absurd rfl hac
      · exact OrientedCmp.lt_of_gt hcmp
    rcases h c b a hca with hcb | hba
    · rw [OrientedCmp.gt_of_lt hcb] at hbc
      cases hbc
    · rw [OrientedCmp.gt_of_lt hba] at hab
      cases hab

/-- **Strict weak orders** are those of transitive comparisons. -/
theorem isStrictWeakOrder_iff [OrientedCmp cmp] :
    IsStrictWeakOrder α (fun a b => cmp a b = .lt) ↔ TransCmp cmp := by
  have hasymm {a b : α} (hab : cmp a b = .lt) : ¬ cmp b a = .lt := by
    rw [OrientedCmp.gt_of_lt hab]
    simp
  refine ⟨fun h => transCmp_iff.mpr fun a b c hac => ?_, fun h => ?_⟩
  · by_contra hnot
    obtain ⟨hab, hbc⟩ := not_or.mp hnot
    have hba : ¬ cmp b a = .lt := fun hba => hbc (h.trans b a c hba hac)
    have hcb : ¬ cmp c b = .lt := fun hcb => hab (h.trans a c b hac hcb)
    exact (h.incomp_trans a b c ⟨hab, hba⟩ ⟨hbc, hcb⟩).1 hac
  · have hsplit := transCmp_iff.mp h
    refine { irrefl := fun a haa => hasymm haa haa
             trans := fun a b c hab hbc => TransCmp.lt_trans hab hbc
             incomp_trans := fun a b c hab hbc => ⟨fun hac => ?_, fun hca => ?_⟩ }
    · exact (hsplit a b c hac).elim hab.1 hbc.1
    · exact (hsplit c b a hca).elim hbc.2 hab.2

/-- What stands between two elements in order is behind the one or before the other. -/
lemma lt_or_lt {r : α → α → Prop} [h : IsStrictWeakOrder α r] {a c : α} (hac : r a c) (b : α) :
    r a b ∨ r b c := by
  by_contra hnot
  obtain ⟨hab, hbc⟩ := not_or.mp hnot
  have hba : ¬ r b a := fun hba => hbc (h.trans b a c hba hac)
  have hcb : ¬ r c b := fun hcb => hab (h.trans a c b hac hcb)
  exact (h.incomp_trans a b c ⟨hab, hba⟩ ⟨hbc, hcb⟩).1 hac

/-! ### Several keys -/

/-- The first key on which two elements differ decides. -/
def lexAll (cmps : List (α → α → Ordering)) (a b : α) : Ordering :=
  match cmps with
  | [] => .eq
  | cmp :: cmps => (cmp a b).then (lexAll cmps a b)

@[simp] lemma lexAll_nil (a b : α) : lexAll [] a b = .eq := rfl

@[simp] lemma lexAll_cons (cmps : List (α → α → Ordering)) (a b : α) :
    lexAll (cmp :: cmps) a b = (cmp a b).then (lexAll cmps a b) := rfl

/-- Comparing the images is comparing by the comparisons of images. -/
lemma lexAll_on {β : Type v} (f : β → α) (cmps : List (α → α → Ordering)) (a b : β) :
    lexAll (cmps.map fun cmp a b => cmp (f a) (f b)) a b = lexAll cmps (f a) (f b) := by
  induction cmps with
  | nil => rfl
  | cons cmp cmps ih => rw [List.map_cons, lexAll_cons, lexAll_cons, ih]

theorem transCmp_lexAll {cmps : List (α → α → Ordering)} (h : ∀ cmp ∈ cmps, TransCmp cmp) :
    TransCmp (lexAll cmps) := by
  induction cmps with
  | nil => exact { eq_swap := rfl, isLE_trans := fun _ _ => rfl }
  | cons cmp cmps ih =>
    obtain ⟨hcmp, hcmps⟩ := List.forall_mem_cons.mp h
    have hrest := ih hcmps
    have hlex : lexAll (cmp :: cmps) = compareLex cmp (lexAll cmps) := rfl
    rw [hlex]
    infer_instance

end Dbx4.WeakOrder
