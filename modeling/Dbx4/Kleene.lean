import Mathlib.Tactic.Common

/-!
Formulas in three-valued logic, and a test of them that knows two values only.

The test takes an unknown atom for false and evaluates the right side of a connective only
where the left one does not decide it. Without negation nothing is lost: the test is true
exactly when the formula is.
-/

namespace Dbx4.Kleene

universe u v

inductive Truth
  | false
  | unknown
  | true
  deriving DecidableEq

namespace Truth

def ofBool : Bool → Truth
  | .true => .true
  | .false => .false

def isTrue : Truth → Bool
  | .true => .true
  | _ => .false

def not : Truth → Truth
  | .false => .true
  | .unknown => .unknown
  | .true => .false

def and : Truth → Truth → Truth
  | .false, _ | _, .false => .false
  | .true, .true => .true
  | _, _ => .unknown

def or : Truth → Truth → Truth
  | .true, _ | _, .true => .true
  | .false, .false => .false
  | _, _ => .unknown

@[simp] lemma isTrue_ofBool (b : Bool) : (ofBool b).isTrue = b := by
  cases b <;> rfl

@[simp] lemma not_ofBool (b : Bool) : (ofBool b).not = ofBool !b := by
  cases b <;> rfl

@[simp] lemma isTrue_and (s t : Truth) : (s.and t).isTrue = (s.isTrue && t.isTrue) := by
  cases s <;> cases t <;> rfl

@[simp] lemma isTrue_or (s t : Truth) : (s.or t).isTrue = (s.isTrue || t.isTrue) := by
  cases s <;> cases t <;> rfl

end Truth

/-- Atoms under conjunctions and disjunctions. -/
inductive Formula (α : Type u)
  | atom (a : α)
  | and (p q : Formula α)
  | or (p q : Formula α)

namespace Formula

variable {α : Type u} {ε : Type v}

def All (P : α → Prop) : Formula α → Prop
  | atom a => P a
  | and p q => p.All P ∧ q.All P
  | or p q => p.All P ∧ q.All P

def value (v : α → Truth) : Formula α → Truth
  | atom a => v a
  | and p q => (p.value v).and (q.value v)
  | or p q => (p.value v).or (q.value v)

/-- From left to right, as far as it takes. -/
def test (t : α → Except ε Bool) : Formula α → Except ε Bool
  | atom a => t a
  | and p q => do
    let result ← p.test t
    if !result then return false
    q.test t
  | or p q => do
    let result ← p.test t
    if result then return true
    q.test t

lemma All.imp {P Q : α → Prop} (hPQ : ∀ a, P a → Q a) {p : Formula α} (h : p.All P) :
    p.All Q := by
  induction p with
  | atom a => exact hPQ a h
  | and p q ihp ihq => exact ⟨ihp h.1, ihq h.2⟩
  | or p q ihp ihq => exact ⟨ihp h.1, ihq h.2⟩

/-- **The test of a formula** is true exactly when the formula is, where the test of each of
its atoms is true exactly when the atom is. -/
theorem test_eq_ok {t : α → Except ε Bool} {v : α → Truth} {p : Formula α}
    (h : p.All fun a => t a = .ok (v a).isTrue) : p.test t = .ok (p.value v).isTrue := by
  induction p with
  | atom a => exact h
  | and p q ihp ihq =>
    rw [test, ihp h.1, value, Truth.isTrue_and]
    cases (p.value v).isTrue with
    | false => rfl
    | true => exact ihq h.2
  | or p q ihp ihq =>
    rw [test, ihp h.1, value, Truth.isTrue_or]
    cases (p.value v).isTrue with
    | false => exact ihq h.2
    | true => rfl

end Formula

end Dbx4.Kleene
