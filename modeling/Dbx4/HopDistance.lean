import Mathlib.Logic.Relation
import Mathlib.Order.Lattice.Nat

/-!
Shortest distances in a graph, counted in hops.
-/

namespace Dbx4.HopDistance

open Relation

universe u

variable {α : Type u} (E : α → α → Prop)

/-- A path of `n` edges leads from `v` to `w`. -/
inductive Hops (v : α) : ℕ → α → Prop
  | refl : Hops v 0 v
  | tail {n : ℕ} {u w : α} (h : Hops v n u) (hedge : E u w) : Hops v (n + 1) w

/-- The length of a shortest path; 0 where there is none. -/
noncomputable def dist (v w : α) : ℕ := sInf {n | Hops E v n w}

variable {E} {v u w : α}

lemma exists_hops_iff : (∃ n, Hops E v n w) ↔ ReflTransGen E v w := by
  constructor
  · rintro ⟨n, h⟩
    induction h with
    | refl => exact ReflTransGen.refl
    | tail _ hedge ih => exact ih.tail hedge
  · intro h
    induction h with
    | refl => exact ⟨0, Hops.refl⟩
    | tail _ hedge ih =>
      obtain ⟨n, hn⟩ := ih
      exact ⟨n + 1, hn.tail hedge⟩

lemma dist_le {n : ℕ} (h : Hops E v n w) : dist E v w ≤ n := Nat.sInf_le h

lemma hops_dist (h : ReflTransGen E v w) : Hops E v (dist E v w) w := by
  have hne : {n | Hops E v n w}.Nonempty := exists_hops_iff.mpr h
  exact Nat.sInf_mem hne

lemma eq_of_dist_eq_zero (h : ReflTransGen E v w) (hzero : dist E v w = 0) : w = v := by
  have hhops := hops_dist h
  rw [hzero] at hhops
  cases hhops
  rfl

/-- An edge leads one hop further at most. -/
lemma dist_le_succ (h : ReflTransGen E v u) (hedge : E u w) : dist E v w ≤ dist E v u + 1 :=
  dist_le ((hops_dist h).tail hedge)

/-- Before the end of a shortest path there is one at the distance before. -/
lemma exists_pred {n : ℕ} (h : ReflTransGen E v w) (hn : dist E v w = n + 1) :
    ∃ u, ReflTransGen E v u ∧ E u w ∧ dist E v u = n := by
  have hhops := hops_dist h
  rw [hn] at hhops
  obtain _ | ⟨hu, hedge⟩ := hhops
  rename_i u
  have hreach : ReflTransGen E v u := exists_hops_iff.mp ⟨n, hu⟩
  refine ⟨u, hreach, hedge, Nat.le_antisymm (dist_le hu) ?_⟩
  have := dist_le_succ hreach hedge
  omega

end Dbx4.HopDistance
