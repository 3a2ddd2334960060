import Mathlib.Algebra.Group.Nat.Defs
import Dbx4.SqlEval

/-!
The page of rows that `LIMIT` and `OFFSET` cut out.

The loop of `execute_select` computes the end of the page and the number of rows as an `int`,
and starts at the offset as it stands: a negative offset is an index, and an end over
`INT_MAX` comes out negative.
-/

namespace Dbx4.SqlPage

open Dbx4.SqlEval

/-- The number of rows, as an `int`. -/
def size (n : ℕ) : ℤ := (Int32.ofNat n).toInt

/-- The end of the page, as an `int`. -/
def endOf (limit offset : Int32) (n : ℕ) : ℤ :=
  if limit.toInt = 0 then offset.toInt
  else if 0 < limit.toInt then (offset + limit).toInt else size n

/-- The number of turns of the loop. -/
def turns (limit offset : Int32) (n : ℕ) : ℕ :=
  (min (endOf limit offset n) (size n) - offset.toInt).toNat

variable {D : Type}

/-- The rows from the offset on: at most `limit` of them, or all. -/
def wanted (limit offset : Int32) (rows : List (Row D)) : List (Row D) :=
  let rest := rows.drop offset.toInt.toNat
  if 0 ≤ limit.toInt then rest.take limit.toInt.toNat else rest

/-- Nothing is read outside the rows, and from an offset that is not negative the page is the
wanted one. -/
def PageRight (limit offset : Int32) (rows : List (Row D)) : Prop :=
  ∃ xs, page limit offset rows = some xs ∧ (0 ≤ offset.toInt → xs = wanted limit offset rows)

/-- How many rows are wanted, when there are `rest` from the offset on. -/
def wantedLength (limit : ℤ) (rest : ℕ) : ℕ := if 0 ≤ limit then min limit.toNat rest else rest

/-- The limits and offsets whose page comes out right. -/
def Covered (limit offset : ℤ) (n : ℕ) : Prop :=
  limit = 0 ∨
    if offset < 0 then size n ≤ offset
    else if limit < 0 then n < 2 ^ 31
    else n ≤ offset ∨ (offset + limit < 2 ^ 31 ∧ (offset + limit ≤ size n ∨ n < 2 ^ 31))

/-! ### Arithmetic of the loop -/

/-- The number of rows as it stands, or one that is less by at least `2 ^ 32`. -/
lemma size_cases (n : ℕ) :
    n < 2 ^ 31 ∧ size n = n ∨ 2 ^ 31 ≤ n ∧ size n + 2 ^ 32 ≤ n ∧ size n < 2 ^ 31 := by
  have hsize : Int32.size = 2 ^ 32 := rfl
  unfold size
  rw [Int32.toInt_ofNat', Int.bmod_def, hsize]
  push_cast
  split_ifs <;> omega

lemma endOf_of_pos {limit : Int32} (h : 0 < limit.toInt) (offset : Int32) (n : ℕ) :
    endOf limit offset n =
      if offset.toInt + limit.toInt < 2 ^ 31 then offset.toInt + limit.toInt
      else offset.toInt + limit.toInt - 2 ^ 32 := by
  have ho := offset.le_toInt
  have ho' := offset.toInt_lt
  have hl := limit.toInt_lt
  unfold endOf
  rw [if_neg h.ne', if_pos h, Int32.toInt_add, Int.bmod_def]
  push_cast
  split_ifs <;> omega

lemma page_eq (limit offset : Int32) (rows : List (Row D)) :
    page limit offset rows = (List.range (turns limit offset rows.length)).mapM
      fun j => rowAt rows (offset.toInt + (j : ℕ)) := by
  have hend : (if limit = 0 then offset else if 0 < limit then offset + limit
      else Int32.ofNat rows.length).toInt = endOf limit offset rows.length := by
    have hzero : limit = 0 ↔ limit.toInt = 0 := Int32.toInt_inj.symm
    have hpos : 0 < limit ↔ 0 < limit.toInt := Int32.lt_iff_toInt_lt
    simp only [hzero, hpos, endOf, size]
    split_ifs <;> rfl
  have hcast : (do let j ← List.range (turns limit offset rows.length); pure (j : ℤ)) =
      (List.range (turns limit offset rows.length)).map Nat.cast := List.map_eq_flatMap.symm
  unfold page
  dsimp only
  rw [hend]
  refine (congrArg (List.mapM fun j => rowAt rows (offset.toInt + j)) hcast).trans ?_
  rw [List.mapM_map]
  rfl

/-- The rows that `k` turns read from an index on. -/
lemma mapM_rowAt (rows : List (Row D)) (start : ℤ) (k : ℕ) :
    ((List.range k).mapM fun j => rowAt rows (start + (j : ℕ))) =
      if k = 0 ∨ (0 ≤ start ∧ start + k ≤ rows.length) then
        some ((rows.drop start.toNat).take k)
      else none := by
  induction k with
  | zero => simp
  | succ k ih =>
    rw [List.range_succ, List.mapM_append, ih]
    by_cases hin : 0 ≤ start ∧ start + (k + 1 : ℕ) ≤ rows.length
    · have hrow : rowAt rows (start + k) = (rows.drop start.toNat)[k]? := by
        rw [rowAt, if_neg (by omega), List.getElem?_drop]
        congr 1
        omega
      have hk : k < (rows.drop start.toNat).length := by
        rw [List.length_drop]
        omega
      rw [if_pos (Or.inr ⟨hin.1, by omega⟩), if_pos (Or.inr hin), List.take_add_one]
      simp [hrow, List.getElem?_eq_getElem hk]
    · rw [if_neg (show ¬ (k + 1 = 0 ∨ _) by omega)]
      split_ifs with hk
      · have hrow : rowAt rows (start + k) = none := by
          unfold rowAt
          split_ifs with hneg
          · rfl
          · rw [List.getElem?_eq_none_iff]
            omega
        simp [hrow]
      · rfl

lemma take_eq_wanted_iff (limit offset : Int32) (rows : List (Row D)) (k : ℕ) :
    (rows.drop offset.toInt.toNat).take k = wanted limit offset rows ↔
      min k (rows.length - offset.toInt.toNat) =
        wantedLength limit.toInt (rows.length - offset.toInt.toNat) := by
  unfold wanted wantedLength
  dsimp only
  split_ifs
  · rw [List.take_eq_take_iff, List.length_drop]
  · rw [← List.length_drop, List.take_eq_self_iff, min_eq_right_iff]

/-- The page is right when the loop stays inside the rows and takes as many turns as there are
rows wanted. -/
lemma pageRight_iff_turns (limit offset : Int32) (rows : List (Row D)) :
    PageRight limit offset rows ↔
      (turns limit offset rows.length = 0 ∨
        (0 ≤ offset.toInt ∧
          offset.toInt + turns limit offset rows.length ≤ rows.length)) ∧
      (0 ≤ offset.toInt →
        min (turns limit offset rows.length) (rows.length - offset.toInt.toNat) =
          wantedLength limit.toInt (rows.length - offset.toInt.toNat)) := by
  unfold PageRight
  rw [page_eq, mapM_rowAt]
  split_ifs with hin
  · simp only [Option.some.injEq, exists_eq_left', take_eq_wanted_iff, hin, true_and]
  · simp only [false_and, exists_false, hin]

/-- **When the page is the wanted one**: with an end that fits into an `int`, over an offset
that is not negative. -/
theorem pageRight_iff_covered (limit offset : Int32) (rows : List (Row D)) :
    PageRight limit offset rows ↔ Covered limit.toInt offset.toInt rows.length := by
  have hl := limit.toInt_lt
  have ho := offset.toInt_lt
  rw [pageRight_iff_turns]
  unfold Covered turns
  generalize rows.length = n
  have hsize := size_cases n
  rcases lt_trichotomy limit.toInt 0 with hlimit | hlimit | hlimit
  · have hend : endOf limit offset n = size n := by
      unfold endOf
      rw [if_neg hlimit.ne, if_neg (by omega)]
    have hwanted (k : ℕ) : wantedLength limit.toInt k = k := if_neg (by omega)
    rw [hend, min_self, hwanted]
    split_ifs <;> omega
  · have hend : endOf limit offset n = offset.toInt := by
      unfold endOf
      rw [if_pos hlimit]
    have hwanted (k : ℕ) : wantedLength limit.toInt k = 0 := by
      unfold wantedLength
      rw [hlimit]
      simp
    rw [hend, hwanted]
    omega
  · have hend := endOf_of_pos hlimit offset n
    have hwanted (k : ℕ) : wantedLength limit.toInt k = min limit.toInt.toNat k :=
      if_pos hlimit.le
    rw [hend, hwanted]
    split_ifs <;> omega

/-- A negative offset is read as an index; an offset of one row under the greatest limit gives
no row. -/
theorem not_pageRight : ¬ PageRight 1 (-1) [(∅ : Row ℚ)] ∧
    ¬ PageRight Int32.maxValue 1 [(∅ : Row ℚ), ∅] := by
  constructor
  · rintro ⟨xs, hpage, -⟩
    cases hpage
  · rintro ⟨xs, hpage, hwanted⟩
    have hnone : page Int32.maxValue 1 [(∅ : Row ℚ), ∅] = some [] := rfl
    rw [hnone] at hpage
    cases hpage
    have hlength := congrArg List.length (hwanted (by decide))
    revert hlength
    decide

end Dbx4.SqlPage
