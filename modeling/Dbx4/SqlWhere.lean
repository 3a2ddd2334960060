import Mathlib.Order.Defs.LinearOrder
import Dbx4.Kleene
import Dbx4.SqlEval

/-!
`WHERE` clauses built from comparisons with `AND` and `OR`.

A clause selects a row exactly when it is true in three-valued logic. The comparisons of two
numbers are those of an order, but for `EQUALS`, which takes an integer and a double for
different; of two strings only `EQUALS` is ever true.
-/

namespace Dbx4.SqlWhere

open Dbx4.Kleene Dbx4.SqlAst Dbx4.SqlValue Dbx4.SqlEval

inductive Comparator
  | EQUALS | NOT_EQUALS | LESS | LESS_EQUAL | GREATER | GREATER_EQUAL
  deriving DecidableEq

def Comparator.token : Comparator → TokenType
  | EQUALS => .EQUALS
  | NOT_EQUALS => .NOT_EQUALS
  | LESS => .LESS
  | LESS_EQUAL => .LESS_EQUAL
  | GREATER => .GREATER
  | GREATER_EQUAL => .GREATER_EQUAL

structure Comparison where
  left : Expression
  right : Expression
  op : Comparator

def Comparison.toExpression (c : Comparison) : Expression := .binaryOp c.left c.right c.op.token

/-- Comparisons under `AND` and `OR`. -/
abbrev Clause := Formula Comparison

def toExpression : Clause → Expression
  | .atom c => c.toExpression
  | .and p q => .binaryOp (toExpression p) (toExpression q) .AND
  | .or p q => .binaryOp (toExpression p) (toExpression q) .OR

variable {D : Type} [Doubles D]

/-- The comparison of two values that are not null. -/
def Comparator.compare (l r : Value D) : Comparator → Except Throw Bool
  | EQUALS => .ok (equals l r)
  | NOT_EQUALS => .ok !(equals l r)
  | LESS => compareNumbers (fun l r => l < r) Doubles.lt l r
  | LESS_EQUAL => compareNumbers (fun l r => l ≤ r) Doubles.le l r
  | GREATER => compareNumbers (fun l r => r < l) (fun l r => Doubles.lt r l) l r
  | GREATER_EQUAL => compareNumbers (fun l r => r ≤ l) (fun l r => Doubles.le r l) l r

/-! ### Three-valued logic -/

/-- Nothing in the comparison throws. -/
def Comparison.Evaluates (row : Row D) (c : Comparison) : Prop :=
  ∃ l r, evaluateExpression c.left row = .ok l ∧ evaluateExpression c.right row = .ok r ∧
    (l.isNull = false → r.isNull = false → ∃ b, c.op.compare l r = .ok b)

/-- Unknown where an operand is null, and where something throws. -/
def Comparison.value (row : Row D) (c : Comparison) : Truth :=
  match evaluateExpression c.left row, evaluateExpression c.right row with
  | .ok l, .ok r =>
    if l.isNull || r.isNull then .unknown
    else
      match c.op.compare l r with
      | .ok b => .ofBool b
      | .error _ => .unknown
  | _, _ => .unknown

lemma evaluateEquals_eq_ok {left right : Expression} {row : Row D} {l r : Value D}
    (hl : evaluateExpression left row = .ok l) (hr : evaluateExpression right row = .ok r) :
    evaluateEquals left right row = .ok (!(l.isNull || r.isNull) && equals l r) := by
  unfold evaluateEquals
  rw [hl, hr]
  dsimp only [bind, Except.bind]
  rcases l.isNull || r.isNull with _ | _ <;> rfl

/-- A clause that is a comparison, with the values of its operands. -/
lemma evaluateWhereClause_comparison {left right : Expression} {row : Row D} {l r : Value D}
    (hl : evaluateExpression left row = .ok l) (hr : evaluateExpression right row = .ok r)
    (op : Comparator) :
    evaluateWhereClause (.binaryOp left right op.token) row =
      if l.isNull || r.isNull then .ok false else op.compare l r := by
  have hequals := evaluateEquals_eq_ok hl hr
  cases op <;> unfold Comparator.token evaluateWhereClause <;> rw [hl, hr] <;>
    dsimp only [bind, Except.bind] <;> rcases hnull : l.isNull || r.isNull with _ | _
  case NOT_EQUALS.false =>
    rw [hequals, hnull]
    rfl
  all_goals rfl

/-- A clause is tested from left to right, as far as it takes. -/
lemma evaluateWhereClause_toExpression (clause : Clause) (row : Row D) :
    evaluateWhereClause (toExpression clause) row =
      clause.test fun c => evaluateWhereClause c.toExpression row := by
  induction clause with
  | atom c => rfl
  | and p q ihp ihq =>
    rw [toExpression, evaluateWhereClause, Formula.test, ihp, ihq]
  | or p q ihp ihq =>
    rw [toExpression, evaluateWhereClause, Formula.test, ihp, ihq]

/-- Where nothing throws, a comparison is selected exactly when it is true. -/
lemma evaluateWhereClause_of_evaluates {c : Comparison} {row : Row D} (h : c.Evaluates row) :
    evaluateWhereClause c.toExpression row = .ok (c.value row).isTrue := by
  obtain ⟨l, r, hl, hr, hcompare⟩ := h
  unfold Comparison.toExpression Comparison.value
  rw [evaluateWhereClause_comparison hl hr, hl, hr]
  dsimp only
  split_ifs with hnull
  · rfl
  · rw [Bool.or_eq_true, not_or, Bool.not_eq_true, Bool.not_eq_true] at hnull
    obtain ⟨b, hb⟩ := hcompare hnull.1 hnull.2
    rw [hb]
    exact congrArg Except.ok (Truth.isTrue_ofBool b).symm

/-- **What a `WHERE` clause selects**: where nothing throws, exactly the rows on which it is
true in three-valued logic. -/
theorem evaluateWhereClause_eq_ok {clause : Clause} {row : Row D}
    (h : clause.All (Comparison.Evaluates row)) :
    evaluateWhereClause (toExpression clause) row =
      .ok (clause.value (Comparison.value row)).isTrue := by
  rw [evaluateWhereClause_toExpression]
  exact Formula.test_eq_ok (h.imp fun _ => evaluateWhereClause_of_evaluates)

def textRow : Row ℚ := (∅ : Row ℚ).insert "x" (.string "x")

/-- `x <> NULL OR x = 'x'`. -/
def unknownOr : Clause :=
  .or (.atom ⟨.identifier "x", .literal "NULL" .NULL_KEYWORD, .NOT_EQUALS⟩)
    (.atom ⟨.identifier "x", .literal "x" .STRING, .EQUALS⟩)

/-- A disjunction of an unknown comparison and a true one. -/
theorem evaluateWhereClause_unknownOr :
    evaluateWhereClause (toExpression unknownOr) textRow =
      .ok (unknownOr.value (Comparison.value textRow)).isTrue := by
  have hx : evaluateExpression (.identifier "x") textRow = .ok (.string "x") := by
    simp [evaluateExpression, textRow]
  refine evaluateWhereClause_eq_ok ⟨⟨_, _, hx, rfl, fun _ hnull => ?_⟩, _, _, hx, rfl, ?_⟩
  · cases hnull
  · exact fun _ _ => ⟨_, rfl⟩

/-- `NOT_EQUALS` is the negation of `EQUALS`, unknown where that is. -/
lemma value_notEquals (left right : Expression) (row : Row D) :
    Comparison.value row ⟨left, right, .NOT_EQUALS⟩ =
      (Comparison.value row ⟨left, right, .EQUALS⟩).not := by
  unfold Comparison.value
  rcases evaluateExpression left row with _ | l <;> rcases evaluateExpression right row with _ | r
  case ok.ok =>
    dsimp only
    split_ifs
    · rfl
    · exact (Truth.not_ofBool _).symm
  all_goals rfl

/-! ### Coherence -/

/-- What holds of two operands is what holds of two elements of an order. -/
structure Coherent (holds : Comparator → Prop) : Prop where
  exactlyOne : (holds .LESS ∧ ¬ holds .EQUALS ∧ ¬ holds .GREATER) ∨
    (¬ holds .LESS ∧ holds .EQUALS ∧ ¬ holds .GREATER) ∨
    (¬ holds .LESS ∧ ¬ holds .EQUALS ∧ holds .GREATER)
  lessEqual : holds .LESS_EQUAL ↔ holds .LESS ∨ holds .EQUALS
  greaterEqual : holds .GREATER_EQUAL ↔ holds .GREATER ∨ holds .EQUALS
  notEquals : holds .NOT_EQUALS ↔ ¬ holds .EQUALS

/-- Where the other comparisons are those of an order, `EQUALS` has to be its equality. -/
lemma coherent_iff_of_order {α : Type*} [LinearOrder α] {x y : α} {holds : Comparator → Prop}
    (hless : holds .LESS ↔ x < y) (hgreater : holds .GREATER ↔ y < x)
    (hlessEqual : holds .LESS_EQUAL ↔ x ≤ y) (hgreaterEqual : holds .GREATER_EQUAL ↔ y ≤ x)
    (hnotEquals : holds .NOT_EQUALS ↔ ¬ holds .EQUALS) :
    Coherent holds ↔ (holds .EQUALS ↔ x = y) := by
  constructor
  · intro h
    have hle : x ≤ y ↔ x < y ∨ holds .EQUALS := by rw [← hlessEqual, h.lessEqual, hless]
    have hge : y ≤ x ↔ y < x ∨ holds .EQUALS := by
      rw [← hgreaterEqual, h.greaterEqual, hgreater]
    constructor
    · intro hequals
      exact le_antisymm (hle.mpr (Or.inr hequals)) (hge.mpr (Or.inr hequals))
    · intro hxy
      exact (hle.mp hxy.le).resolve_left hxy.not_lt
  · intro hequals
    refine ⟨?_, ?_, ?_, hnotEquals⟩
    · rw [hless, hgreater, hequals]
      rcases lt_trichotomy x y with hxy | hxy | hxy
      · exact Or.inl ⟨hxy, hxy.ne, hxy.not_gt⟩
      · exact Or.inr (Or.inl ⟨hxy.not_lt, hxy, hxy.not_gt⟩)
      · exact Or.inr (Or.inr ⟨hxy.not_gt, hxy.ne', hxy⟩)
    · rw [hlessEqual, hless, hequals, le_iff_lt_or_eq]
    · rw [hgreaterEqual, hgreater, hequals, le_iff_lt_or_eq, eq_comm]

/-- Where the other comparisons are false, `EQUALS` would have to be true, and `LESS_EQUAL`
with it. -/
lemma not_coherent {holds : Comparator → Prop} (hless : ¬ holds .LESS)
    (hgreater : ¬ holds .GREATER) (hlessEqual : ¬ holds .LESS_EQUAL) : ¬ Coherent holds := by
  intro h
  rcases h.exactlyOne with ⟨h', -, -⟩ | ⟨-, h', -⟩ | ⟨-, -, h'⟩
  · exact hless h'
  · exact hlessEqual (h.lessEqual.mpr (Or.inr h'))
  · exact hgreater h'

/-- The clause with this comparison is true. -/
def Holds (left right : Expression) (row : Row D) (op : Comparator) : Prop :=
  evaluateWhereClause (.binaryOp left right op.token) row = .ok true

def isNumeric : Value D → Bool
  | .int _ | .double _ => true
  | _ => false

def isString : Value D → Bool
  | .string _ => true
  | _ => false

/-- Two numbers or two strings. -/
def Comparable (l r : Value D) : Prop :=
  (isNumeric l = true ∧ isNumeric r = true) ∨ (isString l = true ∧ isString r = true)

/-- Two integers, two doubles, or one of each that differ. -/
def Ordered : Value ℚ → Value ℚ → Prop
  | .int _, .int _ => True
  | .double _, .double _ => True
  | .int m, .double q => (m.toInt : ℚ) ≠ q
  | .double q, .int m => q ≠ (m.toInt : ℚ)
  | _, _ => False

/-- Of two numbers or strings, a clause is what the values compare to. -/
lemma holds_eq {left right : Expression} {row : Row D} {l r : Value D}
    (hl : evaluateExpression left row = .ok l) (hr : evaluateExpression right row = .ok r)
    (h : Comparable l r) : Holds left right row = fun op => op.compare l r = .ok true := by
  have hnull : (l.isNull || r.isNull) = false := by
    rcases h with ⟨h, h'⟩ | ⟨h, h'⟩ <;> cases l <;> cases h <;> cases r <;> cases h' <;> rfl
  ext op
  unfold Holds
  rw [evaluateWhereClause_comparison hl hr, hnull]
  rfl

/-- Two values that compare as the elements of an order do, up to `EQUALS`. -/
lemma coherent_compare_iff {α : Type*} [LinearOrder α] {x y : α} {l r : Value D}
    (hless : Comparator.compare l r .LESS = .ok (decide (x < y)))
    (hgreater : Comparator.compare l r .GREATER = .ok (decide (y < x)))
    (hlessEqual : Comparator.compare l r .LESS_EQUAL = .ok (decide (x ≤ y)))
    (hgreaterEqual : Comparator.compare l r .GREATER_EQUAL = .ok (decide (y ≤ x))) :
    Coherent (fun op => op.compare l r = .ok true) ↔ (equals l r = true ↔ x = y) := by
  rw [coherent_iff_of_order (x := x) (y := y)]
  · simp [Comparator.compare]
  · simp [hless]
  · simp [hgreater]
  · simp [hlessEqual]
  · simp [hgreaterEqual]
  · simp [Comparator.compare]

/-- **When the comparisons of two numbers or two strings are coherent**: exactly when they are
two integers, two doubles, or one of each that differ. -/
theorem coherent_iff {left right : Expression} {row : Row ℚ} {l r : Value ℚ}
    (hl : evaluateExpression left row = .ok l) (hr : evaluateExpression right row = .ok r)
    (h : Comparable l r) : Coherent (Holds left right row) ↔ Ordered l r := by
  rw [holds_eq hl hr h]
  rcases l with _ | m | p | s | _ <;> rcases r with _ | n | q | t | _
  case int.int =>
    rw [coherent_compare_iff (x := m.toInt) (y := n.toInt)]
    · simp [equals, Ordered, Int64.toInt_inj]
    all_goals simp [Comparator.compare, compareNumbers, Int64.lt_iff_toInt_lt,
      Int64.le_iff_toInt_le]
  case int.double =>
    rw [coherent_compare_iff (x := (m.toInt : ℚ)) (y := q) rfl rfl rfl rfl]
    simp [equals, Ordered]
  case double.int =>
    rw [coherent_compare_iff (x := p) (y := (n.toInt : ℚ)) rfl rfl rfl rfl]
    simp [equals, Ordered]
  case double.double =>
    rw [coherent_compare_iff (x := p) (y := q) rfl rfl rfl rfl]
    simp [equals, Ordered, Doubles.eq]
  case string.string =>
    exact iff_of_false (not_coherent (by simp [Comparator.compare, compareNumbers])
      (by simp [Comparator.compare, compareNumbers])
      (by simp [Comparator.compare, compareNumbers])) id
  all_goals simp [Comparable, isNumeric, isString] at h

def numbersRow : Row ℚ := ((∅ : Row ℚ).insert "a" (.int 1)).insert "b" (.double 2)

/-- An integer and a double that differ. -/
theorem coherent_numbersRow :
    Coherent (Holds (.identifier "a") (.identifier "b") numbersRow) := by
  have ha : evaluateExpression (.identifier "a") numbersRow = .ok (.int 1) := by
    simp [evaluateExpression, numbersRow, Std.ExtTreeMap.getElem_insert]
  have hb : evaluateExpression (.identifier "b") numbersRow = .ok (.double 2) := by
    simp [evaluateExpression, numbersRow]
  exact (coherent_iff ha hb (Or.inl ⟨rfl, rfl⟩)).mpr (by simp [Ordered])

/-- Of two different texts none of `LESS`, `EQUALS` and `GREATER` is true. -/
theorem not_coherent_texts :
    evaluateExpression (.literal "a" .STRING) textRow = .ok (.string "a") ∧
      evaluateExpression (.literal "b" .STRING) textRow = .ok (.string "b") ∧
      Comparable (D := ℚ) (.string "a") (.string "b") ∧
      ¬ Coherent (Holds (.literal "a" .STRING) (.literal "b" .STRING) textRow) := by
  refine ⟨rfl, rfl, Or.inr ⟨rfl, rfl⟩, ?_⟩
  rw [holds_eq (l := .string "a") (r := .string "b") rfl rfl (Or.inr ⟨rfl, rfl⟩)]
  exact not_coherent (by decide) (by decide) (by decide)

end Dbx4.SqlWhere
