import Mathlib.Algebra.Group.Nat.Defs
import Mathlib.Data.List.Basic
import Mathlib.Tactic.Common

/-!
Numbers that an `int` counts up to, one at a time.

The counter wraps, so it shows the number as long as that stays below `2 ^ 31`; a counter of 64
bits comes round as well.
-/

namespace Dbx4.Counters

universe u

lemma add_one_add_ofNat (c : Int32) (n : ℕ) : c + 1 + Int32.ofNat n = c + Int32.ofNat (n + 1) := by
  rw [Int32.ofNat_add, Int32.add_assoc, Int32.add_comm 1]
  rfl

/-- A loop that counts the elements with a property. -/
lemma foldl_count {α : Type u} (p : α → Bool) (l : List α) (c : Int32) :
    l.foldl (fun c a => if p a then c + 1 else c) c = c + Int32.ofNat (l.countP p) := by
  induction l generalizing c with
  | nil => simp
  | cons a l ih =>
    rw [List.foldl_cons, ih, List.countP_cons]
    by_cases h : p a
    · rw [if_pos h, if_pos h, add_one_add_ofNat]
    · rw [if_neg h, if_neg h, Nat.add_zero]

/-- What a counter shows that is counted up `n + m` times. -/
lemma toInt_ofNat_add_iff (n m : ℕ) :
    (Int32.ofNat (n + m)).toInt = n ↔ 2 ^ 32 ∣ m ∧ n < 2 ^ 31 := by
  rw [Int32.toInt_ofNat', show Int32.size = 2 ^ 32 from rfl, Int.bmod_def]
  split_ifs <;> omega

lemma toInt_ofNat_iff (n : ℕ) : (Int32.ofNat n).toInt = n ↔ n < 2 ^ 31 :=
  (toInt_ofNat_add_iff n 0).trans (and_iff_right (Nat.dvd_zero _))

lemma pos_ofNat_iff (n : ℕ) : 0 < Int32.ofNat n ↔ 0 < n % 2 ^ 32 ∧ n % 2 ^ 32 < 2 ^ 31 := by
  rw [Int32.lt_iff_toInt_lt, Int32.toInt_zero, Int32.toInt_ofNat',
    show Int32.size = 2 ^ 32 from rfl, Int.bmod_def]
  split_ifs <;> omega

/-- The comparison of a counter with a `size_t`. -/
lemma size_eq_iff {n : ℕ} (hn : n < 2 ^ 63) :
    UInt64.ofNat n = (Int32.ofNat n).toInt64.toUInt64 ↔ n < 2 ^ 31 := by
  have hsigned : UInt64.ofNat n = (Int32.ofNat n).toInt64.toUInt64 ↔
      Int64.ofNat n = (Int32.ofNat n).toInt64 :=
    ⟨fun h => congrArg UInt64.toInt64 h, fun h => congrArg Int64.toUInt64 h⟩
  rw [hsigned, ← Int64.toInt_inj, Int64.toInt_ofNat_of_lt hn, Int32.toInt_toInt64, eq_comm,
    toInt_ofNat_iff]

lemma toNat_add_one {c : UInt64} (h : c.toNat + 1 < 2 ^ 64) : (c + 1).toNat = c.toNat + 1 := by
  rw [UInt64.toNat_add]
  exact Nat.mod_eq_of_lt h

lemma add_one_ne (c : UInt64) : c + 1 ≠ c := by
  intro h
  have htoNat := congrArg UInt64.toNat h
  rw [UInt64.toNat_add, UInt64.toNat_one] at htoNat
  omega

end Dbx4.Counters
