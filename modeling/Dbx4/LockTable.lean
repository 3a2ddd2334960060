import Mathlib.Logic.Function.Basic
import Mathlib.Tactic.Common

/-!
Tables of exclusive locks.

A key is free or has one holder. A free key goes to whoever asks; only its holder gives it
back.
-/

namespace Dbx4.LockTable

universe u v

variable {κ : Type u} {τ : Type v} [DecidableEq κ] [DecidableEq τ]

/-- Who holds each key. -/
abbrev Table (κ : Type u) (τ : Type v) := κ → Option τ

inductive Op (κ : Type u) (τ : Type v)
  | acquire (k : κ) (t : τ)
  | release (k : κ) (t : τ)

def Op.apply (h : Table κ τ) : Op κ τ → Table κ τ
  | .acquire k t => if h k = none then Function.update h k (some t) else h
  | .release k t => if h k = some t then Function.update h k none else h

lemma acquire_of_free {h : Table κ τ} {k : κ} (hk : h k = none) (t : τ) :
    (Op.acquire k t).apply h = Function.update h k (some t) := if_pos hk

lemma acquire_of_held {h : Table κ τ} {k : κ} (hk : h k ≠ none) (t : τ) :
    (Op.acquire k t).apply h = h := if_neg hk

lemma release_of_holder {h : Table κ τ} {k : κ} {t : τ} (hk : h k = some t) :
    (Op.release k t).apply h = Function.update h k none := if_pos hk

lemma release_of_other {h : Table κ τ} {k : κ} {t : τ} (hk : h k ≠ some t) :
    (Op.release k t).apply h = h := if_neg hk

lemma acquire_apply_self (h : Table κ τ) (k : κ) (t : τ) :
    (Op.acquire k t).apply h k = if h k = none then some t else h k := by
  unfold Op.apply
  dsimp only
  split_ifs
  · rw [Function.update_self]
  · rfl

lemma release_apply_self (h : Table κ τ) (k : κ) (t : τ) :
    (Op.release k t).apply h k = if h k = some t then none else h k := by
  unfold Op.apply
  dsimp only
  split_ifs
  · rw [Function.update_self]
  · rfl

/-- Other keys stay as they are. -/
lemma acquire_apply_of_ne (h : Table κ τ) {k k' : κ} (hk : k' ≠ k) (t : τ) :
    (Op.acquire k t).apply h k' = h k' := by
  unfold Op.apply
  dsimp only
  split_ifs
  · rw [Function.update_of_ne hk]
  · rfl

lemma release_apply_of_ne (h : Table κ τ) {k k' : κ} (hk : k' ≠ k) (t : τ) :
    (Op.release k t).apply h k' = h k' := by
  unfold Op.apply
  dsimp only
  split_ifs
  · rw [Function.update_of_ne hk]
  · rfl

/-- **A holder stays** until it releases the key itself. -/
theorem held_apply {h : Table κ τ} {k : κ} {t : τ} (hk : h k = some t) {op : Op κ τ}
    (hop : op ≠ .release k t) : op.apply h k = some t := by
  cases op with
  | acquire k' t' =>
    by_cases hk' : h k' = none
    · rw [acquire_of_free hk']
      have hne : k ≠ k' := by
        rintro rfl
        rw [hk] at hk'
        cases hk'
      rwa [Function.update_of_ne hne]
    · rwa [acquire_of_held hk']
  | release k' t' =>
    by_cases hk' : h k' = some t'
    · rw [release_of_holder hk']
      have hne : k ≠ k' := by
        rintro rfl
        obtain rfl : t = t' := Option.some_inj.mp (hk.symm.trans hk')
        exact hop rfl
      rwa [Function.update_of_ne hne]
    · rwa [release_of_other hk']

end Dbx4.LockTable
