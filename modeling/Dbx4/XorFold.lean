import Mathlib.Data.List.Basic
import Mathlib.Tactic.Common

/-!
Checksums that are linear over exclusive or.

A checksum folds a step over the bytes it covers. When the step takes the exclusive or of two
states and inputs to that of the results, so does the fold: two messages differ in their
checksums by the checksum of their difference.
-/

namespace Dbx4.XorFold

universe u v

variable {α : Type u} {β : Type v} [XorOp α] [XorOp β]

def Linear (f : α → β → α) : Prop :=
  ∀ s s' b b', f (s ^^^ s') (b ^^^ b') = f s b ^^^ f s' b'

variable {f : α → β → α}

/-- **The difference of two messages** is folded to the difference of their checksums. -/
theorem foldl_zipWith_xor (hf : Linear f) {bs bs' : List β} (h : bs.length = bs'.length)
    (s s' : α) :
    (bs.zipWith (· ^^^ ·) bs').foldl f (s ^^^ s') = bs.foldl f s ^^^ bs'.foldl f s' := by
  induction bs generalizing bs' s s' with
  | nil =>
    obtain rfl : bs' = [] := List.length_eq_zero_iff.mp h.symm
    rfl
  | cons b bs ih =>
    obtain ⟨b', bs', rfl⟩ := List.exists_cons_of_length_eq_add_one h.symm
    rw [List.zipWith_cons_cons, List.foldl_cons, hf]
    exact ih (Nat.succ.inj h) _ _

/-- Behind a difference, equal bytes count as zeros. -/
theorem foldl_xor_foldl (hf : Linear f) {z : β} (hz : ∀ b : β, b ^^^ b = z) (bs : List β)
    (s s' : α) :
    bs.foldl f s ^^^ bs.foldl f s' = (List.replicate bs.length z).foldl f (s ^^^ s') := by
  rw [← foldl_zipWith_xor hf rfl]
  congr 1
  apply List.ext_getElem (by simp)
  intro i _ _
  simp [hz]

end Dbx4.XorFold
