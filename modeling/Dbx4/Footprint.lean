import Mathlib.Data.Set.Function
import Mathlib.Data.Set.Lattice
import Mathlib.Order.CompletePartialOrder

/-!
What a function reads of a record, and what it writes.

A record is seen through its fields. A function has a footprint when it leaves all fields alone
but those it writes, and where two records agree on what it reads, agrees on what it makes of
them. Functions that do not write what others read or write come in any order.
-/

namespace Dbx4.Footprint

open Set

variable {α β κ γ : Type*} {get : α → κ → β}

/-- The test looks at no other fields. -/
def Looks (get : α → κ → β) (p : α → γ) (reads : Set κ) : Prop :=
  ∀ a a', EqOn (get a) (get a') reads → p a = p a'

structure Touches (get : α → κ → β) (f : α → α) (reads writes : Set κ) : Prop where
  frame : ∀ a, EqOn (get (f a)) (get a) writesᶜ
  agree : ∀ cols, reads ⊆ cols → ∀ a a', EqOn (get a) (get a') cols →
    EqOn (get (f a)) (get (f a')) cols

variable {f g : α → α} {p : α → γ} {reads writes reads' writes' : Set κ}

/-- A test does not see what a function writes elsewhere. -/
lemma Looks.of_disjoint (hp : Looks get p reads') (hf : Touches get f reads writes)
    (h : Disjoint writes reads') : p (f a) = p a :=
  hp _ _ ((hf.frame a).mono h.subset_compl_left)

/-- The fields of one function, behind another that writes other fields. -/
lemma Touches.eqOn_comp (hf : Touches get f reads writes) (hg : Touches get g reads' writes')
    (h : Disjoint writes' reads) : EqOn (get (f (g a))) (get (f a)) writes'ᶜ :=
  hf.agree _ h.subset_compl_left _ _ (hg.frame a)

/-- **Functions apart commute**: neither writes what the other reads or writes. -/
theorem Touches.comm (hf : Touches get f reads writes) (hg : Touches get g reads' writes')
    (hreads : Disjoint writes' reads) (hreads' : Disjoint writes reads')
    (hwrites : Disjoint writes writes') : get (f (g a)) = get (g (f a)) := by
  funext k
  by_cases hk : k ∈ writes'
  · have hnot : k ∈ writesᶜ := fun hw => hwrites.le_bot ⟨hw, hk⟩
    calc get (f (g a)) k = get (g a) k := hf.frame (g a) hnot
      _ = get (g (f a)) k := (hg.eqOn_comp hf hreads' hnot).symm
  · calc get (f (g a)) k = get (f a) k := hf.eqOn_comp hg hreads hk
      _ = get (g (f a)) k := (hg.frame (f a) hk).symm

end Dbx4.Footprint
