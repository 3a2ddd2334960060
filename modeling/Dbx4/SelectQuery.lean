import Dbx4.SelectRows
import Dbx4.WherePrecedence

/-!
What a query of `SQLExecutor` finds.

The parts of a query are texts: columns with commas between them, and groups of alternatives
with `AND` between the groups. The rows that meet every group are put in the order of a column,
cut to the limit, and left with the columns that were asked for.
-/

namespace Dbx4.SelectQuery

open Std Dbx4.Word32 Dbx4.SqlLexer Dbx4.Substrings Dbx4.SelectModel Dbx4.SelectRows
  Dbx4.WherePrecedence Dbx4.ForEach

/-! ### Columns -/

/-- A column of a projection, with the white space around it. -/
structure Column where
  before : Bytes
  name : Bytes
  after : Bytes

def Column.text (c : Column) : Bytes := c.before ++ c.name ++ c.after

/-- A name without a comma, and without white space at its ends. -/
structure IsColumn (c : Column) : Prop where
  before : ∀ b ∈ c.before, isspace b
  after : ∀ b ∈ c.after, isspace b
  name : c.name ≠ [] ∧ ','.toUInt8 ∉ c.name ∧ trim c.name = c.name

lemma text_ne_nil {c : Column} (h : IsColumn c) : c.text ≠ [] := by
  refine List.append_ne_nil_of_left_ne_nil (List.append_ne_nil_of_right_ne_nil _ ?_) _
  exact h.name.1

/-- The row with the columns that were asked for, or all of them. -/
def Shows (names : List Bytes) (row row' : Row) : Prop :=
  ∀ name : Bytes, row'[name]? = if names = [] ∨ name ∈ names then row[name]? else none

end Dbx4.SelectQuery
