import Mathlib.Data.Rat.Floor
import Dbx4.SqlAst

/-!
Values of `query_executor_engine.h`, the exceptions of `dbx4_exceptions.h`, and casts.

What the code does with a `double` is a parameter of the model: the operations of the class
`Doubles`.
-/

namespace Dbx4.SqlValue

open Dbx4.SqlAst

/-! ### Exceptions -/

/-- A thrown exception, with its `what`: one of the engine, or one of the standard library. -/
inductive Throw
  | dbx4 (what : String)
  | std (what : String)
  deriving DecidableEq

namespace Throw

def sqlValidation (msg : String) : Throw := .dbx4 ("SQL Validation Error: " ++ msg)

def storage (msg : String) : Throw := .dbx4 ("Storage Error: " ++ msg)

def constraint (msg : String) : Throw := .dbx4 ("Constraint Violation: " ++ msg)

def notNull (column : String) : Throw :=
  constraint ("NOT NULL constraint violated in column: " ++ column)

def uniqueConstraint (column : String) : Throw :=
  constraint ("Duplicate value in unique column: " ++ column)

def type (msg : String) : Throw := .dbx4 ("Type Error: " ++ msg)

def typeCast (source target : String) : Throw :=
  type ("Cannot cast from " ++ source ++ " to " ++ target)

def outOfRange (value type : String) : Throw :=
  Throw.type ("Value " ++ value ++ " is out of range for type " ++ type)

/-- What `QueryExecutor::execute` reports. -/
def message : Throw → String
  | .dbx4 what => what
  | .std what => "Execution error: " ++ what

def badAnyCast : Throw := .std "bad any_cast"

def mapAt : Throw := .std "map::at"

end Throw

/-! ### Numerals -/

def isSpace (c : Char) : Bool := c.toNat = 32 || (9 ≤ c.toNat && c.toNat ≤ 13)

/-- An optional sign, and what follows it. -/
def sign : List Char → Bool × List Char
  | '-' :: cs => (true, cs)
  | '+' :: cs => (false, cs)
  | cs => (false, cs)

def ofDigits (ds : List Char) : ℕ := ds.foldl (fun n c => 10 * n + (c.toNat - 48)) 0

/-- `std::stoll`: the numeral a text starts with; none where it throws. -/
def stoll (s : String) : Option Int64 :=
  let (neg, cs) := sign (s.toList.dropWhile isSpace)
  let ds := cs.takeWhile Char.isDigit
  let n : ℤ := if neg then -(ofDigits ds : ℤ) else ofDigits ds
  if ds = [] then none
  else if -2 ^ 63 ≤ n ∧ n < 2 ^ 63 then some (Int64.ofInt n)
  else none

/-! ### Values -/

/-- What the engine does with a `double`. -/
class Doubles (D : Type) where
  ofInt64 : Int64 → D
  /-- The cast, where the number is in range. -/
  toInt64 : D → Int64
  neg : D → D
  add : D → D → D
  sub : D → D → D
  mul : D → D → D
  div : D → D → D
  eq : D → D → Bool
  lt : D → D → Bool
  le : D → D → Bool
  /-- `std::to_string`. -/
  toString : D → String
  /-- `std::stod`; none where it throws. -/
  stod : String → Option D

/-- A value of a type of the engine, with the data of that type. -/
inductive Value (D : Type)
  | null
  | int (v : Int64)
  | double (v : D)
  | string (v : String)
  | bool (v : Bool)
  deriving DecidableEq

variable {D : Type} [Doubles D]

namespace Value

def isNull : Value D → Bool
  | null => true
  | _ => false

def toString : Value D → String
  | null => "NULL"
  | int v => v.toInt.repr
  | double v =>
    if Doubles.eq v (Doubles.ofInt64 (Doubles.toInt64 v)) then (Doubles.toInt64 v).toInt.repr
    else Doubles.toString v
  | string v => v
  | bool v => if v then "true" else "false"

/-- The number of an operand of which one is no integer: an integer is converted, anything
else has to be a double. -/
def asDouble : Value D → Except Throw D
  | int v => .ok (Doubles.ofInt64 v)
  | double v => .ok v
  | _ => .error .badAnyCast

end Value

def tokenTypeToString : TokenType → String
  | .INT => "INT"
  | .BIGINT => "BIGINT"
  | .DOUBLE => "DOUBLE"
  | .FLOAT => "FLOAT"
  | .VARCHAR => "VARCHAR"
  | .CHAR => "CHAR"
  | .BOOLEAN => "BOOLEAN"
  | .TIMESTAMP => "TIMESTAMP"
  | .TEXT => "TEXT"
  | _ => "UNKNOWN"

/-- The cast to `INT` and `BIGINT`. -/
def convertToInt (value : Value D) (targetType : TokenType) : Except Throw (Value D) :=
  match value with
  | .double v => .ok (.int (Doubles.toInt64 v))
  | .string v =>
    match stoll v with
    | some n => .ok (.int n)
    | none => .error (.typeCast value.toString (tokenTypeToString targetType))
  | _ => .ok value

/-- The cast to `DOUBLE` and `FLOAT`. -/
def convertToDouble (value : Value D) (targetType : TokenType) : Except Throw (Value D) :=
  match value with
  | .int v => .ok (.double (Doubles.ofInt64 v))
  | .string v =>
    match Doubles.stod v with
    | some d => .ok (.double d)
    | none => .error (.typeCast value.toString (tokenTypeToString targetType))
  | _ => .ok value

def convertToBool (value : Value D) : Value D :=
  match value with
  | .int v => .bool (v ≠ 0)
  | .string v => .bool (v = "true" || v = "1" || v = "TRUE" || v = "YES")
  | _ => value

def convertToType (value : Value D) (targetType : TokenType) : Except Throw (Value D) :=
  if value.isNull then .ok .null
  else
    match targetType with
    | .INT | .BIGINT => convertToInt value targetType
    | .DOUBLE | .FLOAT => convertToDouble value targetType
    | .VARCHAR | .TEXT | .CHAR => .ok (.string value.toString)
    | .BOOLEAN => .ok (convertToBool value)
    | _ => .ok value

/-! ### Exact numbers in place of doubles -/

/-- Six decimals, a tie to the even one. -/
def toFixed (q : ℚ) : String :=
  let scaled := |q| * 10 ^ 6
  let n := ⌊scaled⌋.toNat
  let up := 1 / 2 < Int.fract scaled ∨ (Int.fract scaled = 1 / 2 ∧ n % 2 = 1)
  let n := if up then n + 1 else n
  let decimals := (n % 10 ^ 6).repr
  let zeros := String.ofList (List.replicate (6 - decimals.length) '0')
  (if q < 0 then "-" else "") ++ (n / 10 ^ 6).repr ++ "." ++ zeros ++ decimals

/-- The decimal numeral a text starts with. -/
def decimal (s : String) : Option ℚ :=
  let (neg, cs) := sign (s.toList.dropWhile isSpace)
  let whole := cs.takeWhile Char.isDigit
  let (fraction, cs) :=
    match cs.dropWhile Char.isDigit with
    | '.' :: cs => (cs.takeWhile Char.isDigit, cs.dropWhile Char.isDigit)
    | cs => ([], cs)
  let exponent : ℤ :=
    match cs with
    | 'e' :: cs | 'E' :: cs =>
      let (neg, cs) := sign cs
      let n := ofDigits (cs.takeWhile Char.isDigit)
      if neg then -n else n
    | _ => 0
  let q : ℚ := ofDigits (whole ++ fraction) * 10 ^ (exponent - fraction.length)
  if whole ++ fraction = [] then none else some (if neg then -q else q)

instance : Doubles ℚ where
  ofInt64 v := v.toInt
  toInt64 q := Int64.ofInt (if q < 0 then ⌈q⌉ else ⌊q⌋)
  neg q := -q
  add p q := p + q
  sub p q := p - q
  mul p q := p * q
  div p q := p / q
  eq p q := p = q
  lt p q := p < q
  le p q := p ≤ q
  toString := toFixed
  stod := decimal

end Dbx4.SqlValue
