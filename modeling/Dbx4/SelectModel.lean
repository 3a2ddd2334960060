import Std.Data.ExtTreeMap
import Mathlib.Data.List.DropRight
import Mathlib.Data.List.Sort
import Dbx4.SqlLexer
import Dbx4.Substrings

/-!
`SQLExecutor` of `sql_executor_enhanced.cpp`: a `SELECT` on rows whose values are texts.

A `WHERE` clause is evaluated on its text, which is cut at the first connective that is found.
-/

namespace Dbx4.SelectModel

open Std Dbx4.Word32 Dbx4.SqlLexer Dbx4.Substrings

/-- `Row::columns`. -/
abbrev Row := ExtTreeMap Bytes Bytes

/-- The two loops that trim a text. -/
def trim (text : Bytes) : Bytes := (text.dropWhile isspace).rdropWhile isspace

/-- What has been parsed of a projection: the columns, and the current one. -/
def parseTurn (s : List Bytes × Bytes) (c : UInt8) : List Bytes × Bytes :=
  let (cols, current) := s
  if c = ','.toUInt8 then
    if current = [] then (cols, []) else (cols ++ [trim current], [])
  else (cols, current ++ [c])

/-- No columns mean all of them. -/
def parseColumns (proj : Bytes) : List Bytes :=
  if proj = ascii "*" then []
  else
    let (cols, current) := proj.foldl parseTurn ([], [])
    if current = [] then cols else cols ++ [trim current]

/-! ### WHERE -/

/-- A clause without connectives, `column=value`. -/
def evaluateEquality (clause : Bytes) (row : Row) : Except Bytes Bool :=
  match find (ascii "=") clause with
  | none => .error (ascii "Unsupported WHERE syntax: " ++ clause)
  | some eqPos =>
    let col := trim (clause.take eqPos)
    let val := trim (clause.drop (eqPos + 1))
    match row[col]? with
    | none => .ok false
    | some value => .ok (value = val)

def evaluateWhere (clause : Bytes) (row : Row) : Except Bytes Bool :=
  if clause = [] then .ok true
  else
    match hand : find (ascii " AND ") clause with
    | some andPos => do
      if ← evaluateWhere (clause.take andPos) row then
        evaluateWhere (clause.drop (andPos + 5)) row
      else return false
    | none =>
      match hor : find (ascii " OR ") clause with
      | some orPos => do
        if ← evaluateWhere (clause.take orPos) row then return true
        else evaluateWhere (clause.drop (orPos + 4)) row
      | none =>
        if _hnot : find (ascii "NOT ") clause = some 0 then do
          let result ← evaluateWhere (clause.drop 4) row
          return !result
        else evaluateEquality clause row
termination_by clause.length
decreasing_by
  · exact (length_lt_of_find hand (by decide)).1
  · exact (length_lt_of_find hand (by decide)).2
  · exact (length_lt_of_find hor (by decide)).1
  · exact (length_lt_of_find hor (by decide)).2
  · exact (length_lt_of_find _hnot (by decide)).2

section Evaluate

variable {clause : Bytes} {row : Row} {i : ℕ}

lemma evaluateWhere_nil : evaluateWhere [] row = .ok true := by
  rw [evaluateWhere, if_pos rfl]

lemma ne_nil_of_find {pat : Bytes} (hpat : pat ≠ []) (h : find pat clause = some i) :
    clause ≠ [] := by
  rintro rfl
  rw [find, if_neg hpat] at h
  cases h

/-- Cut at the first `AND`. -/
lemma evaluateWhere_and (hand : find (ascii " AND ") clause = some i) :
    evaluateWhere clause row = (do
      if ← evaluateWhere (clause.take i) row then evaluateWhere (clause.drop (i + 5)) row
      else return false) := by
  rw [evaluateWhere, if_neg (ne_nil_of_find (by decide) hand)]
  split
  · rename_i j hj
    obtain rfl := Option.some.inj (hand.symm.trans hj)
    rfl
  · rename_i hnone
    cases hand.symm.trans hnone

/-- Cut at the first `OR`, where no `AND` is left. -/
lemma evaluateWhere_or (hand : find (ascii " AND ") clause = none)
    (hor : find (ascii " OR ") clause = some i) :
    evaluateWhere clause row = (do
      if ← evaluateWhere (clause.take i) row then return true
      else evaluateWhere (clause.drop (i + 4)) row) := by
  rw [evaluateWhere, if_neg (ne_nil_of_find (by decide) hor)]
  split
  · rename_i j hj
    cases hand.symm.trans hj
  · split
    · rename_i j hj
      obtain rfl := Option.some.inj (hor.symm.trans hj)
      rfl
    · rename_i hnone
      cases hor.symm.trans hnone

lemma evaluateWhere_of_none (hne : clause ≠ []) (hand : find (ascii " AND ") clause = none)
    (hor : find (ascii " OR ") clause = none) :
    evaluateWhere clause row =
      if ascii "NOT " <+: clause then do
        let result ← evaluateWhere (clause.drop 4) row
        return !result
      else evaluateEquality clause row := by
  rw [evaluateWhere, if_neg hne]
  split
  · rename_i j hj
    cases hand.symm.trans hj
  · split
    · rename_i j hj
      cases hor.symm.trans hj
    · simp only [find_eq_some_zero_iff, dite_eq_ite]

end Evaluate

/-- An equality of a column and a value that need no trimming. -/
lemma evaluateEquality_eq {col val : Bytes} (hequals : '='.toUInt8 ∉ col)
    (hcol : trim col = col) (hval : trim val = val) (row : Row) :
    evaluateEquality (col ++ '='.toUInt8 :: val) row = .ok (row[col]? = some val) := by
  have hfind : find (ascii "=") (col ++ '='.toUInt8 :: val) = some col.length :=
    find_singleton hequals val
  have hdrop : (col ++ '='.toUInt8 :: val).drop (col.length + 1) = val := by
    rw [← List.drop_drop, List.drop_left]
    rfl
  rw [evaluateEquality, hfind]
  dsimp only
  rw [List.take_left, hdrop, hcol, hval]
  rcases row[col]? with _ | value
  · rfl
  · simp

/-! ### ORDER BY -/

/-- The comparison of the sort: whether `a` goes before `b`. -/
def before (orderBy : Bytes) (a b : Row) : Bool :=
  match a[orderBy]? with
  | none => true
  | some x =>
    match b[orderBy]? with
    | none => false
    | some y => x < y

/-- `std::sort`. -/
def sortRows (orderBy : Bytes) (rows : List Row) : List Row :=
  rows.insertionSort fun a b => !before orderBy b a

/-! ### SELECT -/

def project (cols : List Bytes) (row : Row) : Row :=
  cols.foldl (fun projected col =>
    match row[col]? with
    | some value => projected.insert col value
    | none => projected) ∅

/-- `LIMIT`: the number of rows is compared as an `int`. -/
def limited (limit : Int32) (rows : List Row) : List Row :=
  if 0 < limit ∧ limit < Int32.ofNat rows.length then rows.take limit.toInt.toNat else rows

def executeSelect (rows : List Row) (projection orderBy : Bytes) (limit : Int32)
    (whereClause : Bytes) : Except Bytes (List Row) := do
  let filtered ← rows.filterM (evaluateWhere whereClause)
  let sorted := if orderBy ≠ [] ∧ orderBy ≠ ascii "*" then sortRows orderBy filtered else filtered
  let result := limited limit sorted
  let cols := parseColumns projection
  return if cols ≠ [] then result.map (project cols) else result

end Dbx4.SelectModel
