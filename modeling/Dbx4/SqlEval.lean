import Std.Data.ExtTreeMap
import Dbx4.SqlValue

/-!
Expressions, `WHERE` clauses and the order of rows in `query_executor_engine.cpp`.
-/

namespace Dbx4.SqlEval

open Std Dbx4.SqlAst Dbx4.SqlValue

variable {D : Type} [Doubles D]

/-- Column name to value. -/
abbrev Row (D : Type) := ExtTreeMap String (Value D)

/-! ### Expressions -/

/-- `PLUS`, `MINUS` and `MULTIPLY`. -/
def arith (ints : Int64 → Int64 → Int64) (doubles : D → D → D) (left right : Value D) :
    Except Throw (Value D) :=
  match left, right with
  | .int l, .int r => .ok (.int (ints l r))
  | _, _ => do
    let l ← left.asDouble
    let r ← right.asDouble
    return .double (doubles l r)

def divide (left right : Value D) : Except Throw (Value D) := do
  let l ← left.asDouble
  let r ← right.asDouble
  if Doubles.eq r (Doubles.ofInt64 0) then throw (.outOfRange "0" "divisor")
  return .double (Doubles.div l r)

def negate : Value D → Except Throw (Value D)
  | .int v => .ok (.int (-v))
  | .double v => .ok (.double (Doubles.neg v))
  | _ => .error (.type "Cannot negate non-numeric value")

def evaluateExpression : Expression → Row D → Except Throw (Value D)
  | .literal value type, _ =>
    if type = .NULL_KEYWORD then .ok .null else .ok (.string value)
  | .identifier name, row =>
    match row[name]? with
    | some value => .ok value
    | none => .error (.sqlValidation ("Unknown column: '" ++ name ++ "'"))
  | .unaryOp operand op, row => do
    let operand ← evaluateExpression operand row
    if op = .MINUS then negate operand else return operand
  | .binaryOp left right op, row => do
    let left ← evaluateExpression left row
    let right ← evaluateExpression right row
    if left.isNull || right.isNull then return .null
    match op with
    | .PLUS => arith (· + ·) Doubles.add left right
    | .MINUS => arith (· - ·) Doubles.sub left right
    | .MULTIPLY => arith (· * ·) Doubles.mul left right
    | .DIVIDE => divide left right
    | _ => throw (.sqlValidation "Unsupported operator in expression")
  | .other, _ => .error (.sqlValidation "Unable to evaluate expression")

/-! ### WHERE clauses -/

/-- `EQUALS` on two operands: values of different types differ. -/
def equals : Value D → Value D → Bool
  | .int l, .int r => l = r
  | .double l, .double r => Doubles.eq l r
  | .string l, .string r => l = r
  | .bool l, .bool r => l = r
  | _, _ => false

/-- The clause `left = right`. -/
def evaluateEquals (left right : Expression) (row : Row D) : Except Throw Bool := do
  let left ← evaluateExpression left row
  let right ← evaluateExpression right row
  if left.isNull || right.isNull then return false
  return equals left right

/-- `LESS`, `LESS_EQUAL`, `GREATER` and `GREATER_EQUAL`: only numbers compare. -/
def compareNumbers (ints : Int64 → Int64 → Bool) (doubles : D → D → Bool)
    (left right : Value D) : Except Throw Bool :=
  match left, right with
  | .int l, .int r => .ok (ints l r)
  | .double _, _ | _, .double _ => do
    let l ← left.asDouble
    let r ← right.asDouble
    return doubles l r
  | _, _ => .ok false

def evaluateWhereClause : Expression → Row D → Except Throw Bool
  | .binaryOp left right op, row =>
    match op with
    | .AND => do
      let leftResult ← evaluateWhereClause left row
      if !leftResult then return false
      evaluateWhereClause right row
    | .OR => do
      let leftResult ← evaluateWhereClause left row
      if leftResult then return true
      evaluateWhereClause right row
    | op => do
      let l ← evaluateExpression left row
      let r ← evaluateExpression right row
      if l.isNull || r.isNull then return false
      match op with
      | .EQUALS => return equals l r
      | .NOT_EQUALS =>
        -- the operands are evaluated once more
        let result ← evaluateEquals left right row
        return !result
      | .LESS => compareNumbers (fun l r => l < r) Doubles.lt l r
      | .LESS_EQUAL => compareNumbers (fun l r => l ≤ r) Doubles.le l r
      | .GREATER => compareNumbers (fun l r => r < l) (fun l r => Doubles.lt r l) l r
      | .GREATER_EQUAL => compareNumbers (fun l r => r ≤ l) (fun l r => Doubles.le r l) l r
      | _ => throw (.sqlValidation "Unsupported operator in WHERE clause")
  | _, _ => .error (.sqlValidation "Invalid WHERE clause")

/-- Whether a statement is about a row: without a clause it is. -/
def selects (whereClause : Option Expression) (row : Row D) : Except Throw Bool :=
  match whereClause with
  | none => .ok true
  | some clause => evaluateWhereClause clause row

/-! ### ORDER BY -/

/-- The value of a column that the comparison relies on. -/
def valueAt (row : Row D) (colName : String) : Except Throw (Value D) :=
  match row[colName]? with
  | some value => .ok value
  | none => .error .mapAt

/-- Values of different types, and truth values, count as equal. -/
def compareValues : Value D → Value D → Ordering
  | .int a, .int b => if a < b then .lt else if b < a then .gt else .eq
  | .double a, .double b => if Doubles.lt a b then .lt else if Doubles.lt b a then .gt else .eq
  | .string a, .string b => compare a b
  | _, _ => .eq

/-- The comparison of the sort: whether `a` goes before `b`. Columns have to meet `check`. -/
def goesBefore (check : String → Except Throw Unit) :
    List (String × Bool) → Row D → Row D → Except Throw Bool
  | [], _, _ => .ok false
  | (colName, isDesc) :: orderBy, a, b => do
    check colName
    let aVal ← valueAt a colName
    let bVal ← valueAt b colName
    if aVal.isNull && bVal.isNull then goesBefore check orderBy a b
    else if aVal.isNull then return !isDesc
    else if bVal.isNull then return isDesc
    else
      match compareValues aVal bVal with
      | .lt => return !isDesc
      | .gt => return isDesc
      | .eq => goesBefore check orderBy a b

def insertSorted (before : Row D → Row D → Except Throw Bool) (row : Row D) :
    List (Row D) → Except Throw (List (Row D))
  | [] => .ok [row]
  | r :: rows => do
    if (← before r row) then return r :: (← insertSorted before row rows)
    else return row :: r :: rows

/-- `std::sort`, with an exception of the comparison passed on. -/
def sortRows (before : Row D → Row D → Except Throw Bool) :
    List (Row D) → Except Throw (List (Row D))
  | [] => .ok []
  | row :: rows => do insertSorted before row (← sortRows before rows)

/-! ### LIMIT and OFFSET -/

/-- `rows[i]`; none outside the bounds, where the access is undefined. -/
def rowAt (rows : List (Row D)) (i : ℤ) : Option (Row D) :=
  if i < 0 then none else rows[i.toNat]?

/-- The rows the last loop of a `SELECT` visits: `i` runs from the offset on, below the end
index and the number of rows. -/
def page (limit offset : Int32) (rows : List (Row D)) : Option (List (Row D)) :=
  let startIdx := offset
  let size := Int32.ofNat rows.length
  let endIdx :=
    if limit = 0 then startIdx else if 0 < limit then startIdx + limit else size
  let turns := (min endIdx.toInt size.toInt - startIdx.toInt).toNat
  (List.range turns).mapM fun j => rowAt rows (startIdx.toInt + j)

end Dbx4.SqlEval
