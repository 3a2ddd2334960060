import Mathlib.Algebra.Group.Nat.Defs
import Dbx4.Runs
import Dbx4.SqlEval

/-!
Integer arithmetic of `evaluate_expression`.

A literal number is a text to the engine, and no operator takes a text: arithmetic needs the
integers of a column. Their sums, differences and products are taken in 64 bits without a
check; where C++ leaves an overflow undefined, the model wraps around.
-/

namespace Dbx4.SqlArith

open Dbx4.Runs Dbx4.SqlAst Dbx4.SqlValue Dbx4.SqlEval

/-! ### Arithmetic trees -/

/-- An expression of integer arithmetic. -/
inductive Arith (α : Type)
  | leaf (a : α)
  | neg (t : Arith α)
  | plus (l r : Arith α)
  | minus (l r : Arith α)
  | times (l r : Arith α)

namespace Arith

variable {α : Type}

def expression (atom : α → Expression) : Arith α → Expression
  | leaf a => atom a
  | neg t => .unaryOp (t.expression atom) .MINUS
  | plus l r => .binaryOp (l.expression atom) (r.expression atom) .PLUS
  | minus l r => .binaryOp (l.expression atom) (r.expression atom) .MINUS
  | times l r => .binaryOp (l.expression atom) (r.expression atom) .MULTIPLY

/-- The exact value. -/
def value (f : α → ℤ) : Arith α → ℤ
  | leaf a => f a
  | neg t => -t.value f
  | plus l r => l.value f + r.value f
  | minus l r => l.value f - r.value f
  | times l r => l.value f * r.value f

def leaves : Arith α → List α
  | leaf a => [a]
  | neg t => t.leaves
  | plus l r | minus l r | times l r => l.leaves ++ r.leaves

/-- The tree and all trees in it. -/
def subtrees : Arith α → List (Arith α)
  | leaf a => [leaf a]
  | neg t => neg t :: t.subtrees
  | plus l r => plus l r :: (l.subtrees ++ r.subtrees)
  | minus l r => minus l r :: (l.subtrees ++ r.subtrees)
  | times l r => times l r :: (l.subtrees ++ r.subtrees)

lemma leaves_subset {t s : Arith α} (h : s ∈ t.subtrees) : s.leaves ⊆ t.leaves := by
  induction t with
  | leaf a => rw [List.mem_singleton.mp h]; exact List.Subset.refl _
  | neg t ih =>
    rcases List.mem_cons.mp h with rfl | h
    · exact List.Subset.refl _
    · exact ih h
  | plus l r ihl ihr | minus l r ihl ihr | times l r ihl ihr =>
    rcases List.mem_cons.mp h with rfl | h
    · exact List.Subset.refl _
    · rcases List.mem_append.mp h with h | h
      · exact List.subset_append_of_subset_left _ (ihl h)
      · exact List.subset_append_of_subset_right _ (ihr h)

end Arith

/-- The range of `int64_t`. -/
def InRange (n : ℤ) : Prop := -2 ^ 63 ≤ n ∧ n < 2 ^ 63

instance (n : ℤ) : Decidable (InRange n) := inferInstanceAs (Decidable (_ ∧ _))

/-- Rounding into the range keeps a number exactly when it is there. -/
lemma toInt_ofInt_iff (n : ℤ) : (Int64.ofInt n).toInt = n ↔ InRange n := by
  refine ⟨fun h => ?_, fun h => Int64.toInt_ofInt_of_le h.1 h.2⟩
  rw [← h]
  exact ⟨(Int64.ofInt n).le_toInt, (Int64.ofInt n).toInt_lt⟩

variable {D : Type} [Doubles D]

/-- The operators of arithmetic on two operands that are no nulls. -/
lemma evaluateExpression_arith {left right : Expression} {row : Row D} {l r : Value D}
    (hl : evaluateExpression left row = .ok l) (hr : evaluateExpression right row = .ok r)
    (hnull : (l.isNull || r.isNull) = false) :
    evaluateExpression (.binaryOp left right .PLUS) row = arith (· + ·) Doubles.add l r ∧
      evaluateExpression (.binaryOp left right .MINUS) row = arith (· - ·) Doubles.sub l r ∧
      evaluateExpression (.binaryOp left right .MULTIPLY) row =
        arith (· * ·) Doubles.mul l r := by
  refine ⟨?_, ?_, ?_⟩ <;> rw [evaluateExpression, hl, hr] <;>
    simp only [ok_bind, hnull, Bool.false_eq_true, if_false]

/-! ### Literal numbers -/

/-- The integer that a numeral stands for. -/
def numeral (text : String) : Option ℤ :=
  let (neg, ds) := sign text.toList
  if ds ≠ [] ∧ ds.all Char.isDigit then
    some (if neg then -(ofDigits ds : ℤ) else ofDigits ds)
  else none

def number (text : String) : Expression := .literal text .NUMBER

/-- The exact value of a tree of numerals. -/
def numeralValue : Arith String → ℤ := Arith.value fun text => (numeral text).getD 0

/-- The tree is one of integer numerals, and no result in it leaves the range. -/
def Numerals (t : Arith String) : Prop :=
  (∀ text ∈ t.leaves, (numeral text).isSome) ∧ ∀ s ∈ t.subtrees, InRange (numeralValue s)

/-- The tree evaluates to the integer it stands for. -/
def ReturnsValue (t : Arith String) (row : Row D) : Prop :=
  ∃ n : Int64, evaluateExpression (t.expression number) row = .ok (.int n) ∧
    n.toInt = numeralValue t

/-- A tree of literal numbers is a text, or evaluating it throws. -/
lemma evaluate_numbers (t : Arith String) (row : Row D) :
    (∃ text, evaluateExpression (t.expression number) row = .ok (.string text)) ∨
      ∃ e, evaluateExpression (t.expression number) row = .error e := by
  have hbinary (l r : Arith String) (op : TokenType)
      (hop : op = .PLUS ∨ op = .MINUS ∨ op = .MULTIPLY)
      (hl : (∃ text, evaluateExpression (l.expression number) row = .ok (.string text)) ∨
        ∃ e, evaluateExpression (l.expression number) row = .error e)
      (hr : (∃ text, evaluateExpression (r.expression number) row = .ok (.string text)) ∨
        ∃ e, evaluateExpression (r.expression number) row = .error e) :
      ∃ e, evaluateExpression (.binaryOp (l.expression number) (r.expression number) op) row =
        .error e := by
    rcases hl with ⟨ltext, hl⟩ | ⟨e, hl⟩
    · rcases hr with ⟨rtext, hr⟩ | ⟨e, hr⟩
      · obtain ⟨hplus, hminus, htimes⟩ := evaluateExpression_arith hl hr rfl
        refine ⟨.badAnyCast, ?_⟩
        rcases hop with rfl | rfl | rfl
        · exact hplus
        · exact hminus
        · exact htimes
      · rw [evaluateExpression, hl, hr]
        exact ⟨e, rfl⟩
    · rw [evaluateExpression, hl]
      exact ⟨e, rfl⟩
  induction t with
  | leaf text => exact Or.inl ⟨text, rfl⟩
  | neg t ih =>
    refine Or.inr ?_
    rw [Arith.expression, evaluateExpression]
    rcases ih with ⟨text, ht⟩ | ⟨e, ht⟩
    · rw [ht]
      exact ⟨.type "Cannot negate non-numeric value", rfl⟩
    · rw [ht]
      exact ⟨e, rfl⟩
  | plus l r ihl ihr => exact Or.inr (hbinary l r .PLUS (by simp) ihl ihr)
  | minus l r ihl ihr => exact Or.inr (hbinary l r .MINUS (by simp) ihl ihr)
  | times l r ihl ihr => exact Or.inr (hbinary l r .MULTIPLY (by simp) ihl ihr)

/-- **No tree of literal numbers evaluates to an integer**, on any row. -/
theorem not_returnsValue (t : Arith String) (row : Row D) : ¬ ReturnsValue t row := by
  rintro ⟨n, hn, -⟩
  rcases evaluate_numbers t row with ⟨text, ht⟩ | ⟨e, ht⟩ <;> rw [ht] at hn <;> cases hn

/-- The numeral `1` stands for an integer of the range, and evaluates to a text. -/
theorem not_returnsValue_one :
    Numerals (.leaf "1") ∧ ¬ ReturnsValue (.leaf "1") (∅ : Row ℚ) := by
  refine ⟨⟨by decide, by decide⟩, ?_⟩
  rintro ⟨n, hn, -⟩
  cases hn

/-! ### Integer columns -/

/-- The columns of the tree hold these integers. -/
def Holds (ints : String → Int64) (t : Arith String) (row : Row D) : Prop :=
  ∀ name ∈ t.leaves, row[name]? = some (.int (ints name))

/-- The exact value of a tree of columns. -/
def columnValue (ints : String → Int64) : Arith String → ℤ :=
  Arith.value fun name => (ints name).toInt

/-- **What the code computes**: the exact value, rounded into 64 bits. -/
theorem evaluate_columns {ints : String → Int64} {t : Arith String} {row : Row D}
    (h : Holds ints t row) :
    evaluateExpression (t.expression .identifier) row =
      .ok (.int (Int64.ofInt (columnValue ints t))) := by
  have hbinary {l r : Arith String} {nl nr : ℤ}
      (hl : evaluateExpression (l.expression .identifier) row = .ok (.int (Int64.ofInt nl)))
      (hr : evaluateExpression (r.expression .identifier) row = .ok (.int (Int64.ofInt nr))) :=
    evaluateExpression_arith hl hr rfl
  induction t with
  | leaf name =>
    have hname := h name (List.mem_singleton_self name)
    simp only [Arith.expression, evaluateExpression, hname, columnValue, Arith.value,
      Int64.ofInt_toInt]
  | neg t ih =>
    rw [Arith.expression, evaluateExpression, ih h]
    simp only [columnValue, Arith.value, Int64.ofInt_neg]
    rfl
  | plus l r ihl ihr =>
    have hl := ihl fun name hname => h name (List.mem_append_left _ hname)
    have hr := ihr fun name hname => h name (List.mem_append_right _ hname)
    rw [Arith.expression, (hbinary hl hr).1]
    simp only [arith, columnValue, Arith.value, Int64.ofInt_add]
  | minus l r ihl ihr =>
    have hl := ihl fun name hname => h name (List.mem_append_left _ hname)
    have hr := ihr fun name hname => h name (List.mem_append_right _ hname)
    rw [Arith.expression, (hbinary hl hr).2.1]
    simp only [arith, columnValue, Arith.value, Int64.ofInt_sub]
  | times l r ihl ihr =>
    have hl := ihl fun name hname => h name (List.mem_append_left _ hname)
    have hr := ihr fun name hname => h name (List.mem_append_right _ hname)
    rw [Arith.expression, (hbinary hl hr).2.2]
    simp only [arith, columnValue, Arith.value, Int64.ofInt_mul]

/-- An integer that comes out of a tree or one in it is its exact value, and a value outside
the range is reported. -/
def Checked (ints : String → Int64) (t : Arith String) (row : Row D) : Prop :=
  ∀ s ∈ t.subtrees,
    (∀ n, evaluateExpression (s.expression .identifier) row = .ok (.int n) →
      n.toInt = columnValue ints s) ∧
    (¬ InRange (columnValue ints s) →
      ∃ e, evaluateExpression (s.expression .identifier) row = .error e)

/-- **When arithmetic on columns is exact**: exactly when no result in the tree leaves the
range. -/
theorem checked_iff {ints : String → Int64} {t : Arith String} {row : Row D}
    (h : Holds ints t row) :
    Checked ints t row ↔ ∀ s ∈ t.subtrees, InRange (columnValue ints s) := by
  refine forall_congr' fun s => forall_congr' fun hs => ?_
  have heval := evaluate_columns fun name hname => h name (Arith.leaves_subset hs hname)
  rw [heval, ← toInt_ofInt_iff]
  refine ⟨fun hboth => hboth.1 _ rfl, fun hexact => ⟨fun n hn => ?_, fun hne => ?_⟩⟩
  · cases hn
    exact hexact
  · exact absurd hexact hne

/-- One row with the least integer. -/
def leastRow : Row ℚ := (∅ : Row ℚ).insert "a" (.int Int64.minValue)

lemma holds_leastRow {t : Arith String} (h : ∀ name ∈ t.leaves, name = "a") :
    Holds (fun _ => Int64.minValue) t leastRow := by
  intro name hname
  rw [h name hname]
  exact Std.ExtTreeMap.getElem?_insert_self

/-- The column as it stands, in range. -/
theorem checked_leastRow : Checked (fun _ => Int64.minValue) (.leaf "a") leastRow :=
  (checked_iff (holds_leastRow (by simp [Arith.leaves]))).mpr (by decide)

/-- Negating the least integer is not reported. -/
theorem not_checked_leastRow :
    ¬ Checked (fun _ => Int64.minValue) (.neg (.leaf "a")) leastRow := by
  intro h
  obtain ⟨hexact, -⟩ := h (.neg (.leaf "a")) List.mem_cons_self
  have hholds : Holds (fun _ => Int64.minValue) (.neg (.leaf "a")) leastRow :=
    holds_leastRow (by simp [Arith.leaves])
  have hvalue := hexact _ (evaluate_columns hholds)
  revert hvalue
  decide

end Dbx4.SqlArith
