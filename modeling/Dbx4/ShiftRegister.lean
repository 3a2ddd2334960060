import Mathlib.Algebra.Group.Nat.Defs
import Mathlib.Data.Nat.Bitwise
import Mathlib.Logic.Function.Iterate
import Mathlib.Tactic.Common

/-!
Shift registers with feedback.

A register is shifted right by one bit; when a one falls out, the feedback `P` is added to what
is left. A register that takes in the symbols of a message at its low end, and shifts each of
them out, does what it would do with the whole message in it from the start. What comes out in
the end is zero for more messages than the zero message when the highest bits of the feedback
are zero: these bits are lost from the register, and never come back.
-/

namespace Dbx4.ShiftRegister

variable (P : ℕ)

def shift (x : ℕ) : ℕ := if x.testBit 0 then (x >>> 1) ^^^ P else x >>> 1

variable {P}

lemma shift_of_zero {x : ℕ} (h : x.testBit 0 = false) : shift P x = x >>> 1 := by
  rw [shift, h, if_neg Bool.false_ne_true]

lemma shift_of_one {x : ℕ} (h : x.testBit 0 = true) : shift P x = (x >>> 1) ^^^ P := by
  rw [shift, if_pos h]

@[simp] lemma shift_zero : shift P 0 = 0 := rfl

/-- The feedback comes in for the bit that falls out, and goes out when it comes in twice. -/
lemma shift_xor (x y : ℕ) : shift P (x ^^^ y) = shift P x ^^^ shift P y := by
  rcases hx : x.testBit 0 with _ | _ <;> rcases hy : y.testBit 0 with _ | _
  · have hxy : (x ^^^ y).testBit 0 = false := by rw [Nat.testBit_xor, hx, hy]; rfl
    rw [shift_of_zero hxy, shift_of_zero hx, shift_of_zero hy, Nat.shiftRight_xor_distrib]
  · have hxy : (x ^^^ y).testBit 0 = true := by rw [Nat.testBit_xor, hx, hy]; rfl
    rw [shift_of_one hxy, shift_of_zero hx, shift_of_one hy, Nat.shiftRight_xor_distrib,
      Nat.xor_assoc]
  · have hxy : (x ^^^ y).testBit 0 = true := by rw [Nat.testBit_xor, hx, hy]; rfl
    rw [shift_of_one hxy, shift_of_one hx, shift_of_zero hy, Nat.shiftRight_xor_distrib,
      Nat.xor_right_comm]
  · have hxy : (x ^^^ y).testBit 0 = false := by rw [Nat.testBit_xor, hx, hy]; rfl
    rw [shift_of_zero hxy, shift_of_one hx, shift_of_one hy, Nat.shiftRight_xor_distrib]
    calc x >>> 1 ^^^ y >>> 1
        = x >>> 1 ^^^ y >>> 1 ^^^ (P ^^^ P) := by rw [Nat.xor_self, Nat.xor_zero]
      _ = x >>> 1 ^^^ P ^^^ (y >>> 1 ^^^ P) := by ac_rfl

lemma iterate_shift_xor (n x y : ℕ) :
    (shift P)^[n] (x ^^^ y) = (shift P)^[n] x ^^^ (shift P)^[n] y := by
  induction n generalizing x y with
  | zero => rfl
  | succ n ih => rw [Function.iterate_succ_apply, shift_xor, ih]; rfl

@[simp] lemma iterate_shift_zero (n : ℕ) : (shift P)^[n] 0 = 0 :=
  Function.iterate_fixed shift_zero n

/-- What has zeros at its low end is shifted without feedback. -/
lemma iterate_shift_shiftLeft (n x : ℕ) : (shift P)^[n] (x <<< n) = x := by
  induction n with
  | zero => rfl
  | succ n ih =>
    have hlow : (x <<< (n + 1)).testBit 0 = false := by simp
    have hshift : (x <<< (n + 1)) >>> 1 = x <<< n := by
      rw [Nat.shiftLeft_succ, Nat.shiftRight_eq_div_pow, pow_one,
        Nat.mul_div_cancel_left _ (by decide)]
    rw [Function.iterate_succ_apply, shift_of_zero hlow, hshift, ih]

/-- The low bits are shifted out with feedback, the others only move down. -/
lemma iterate_shift_split (k x : ℕ) :
    (shift P)^[k] x = (shift P)^[k] (x % 2 ^ k) ^^^ x >>> k := by
  have hsplit : x = x % 2 ^ k ^^^ (x >>> k) <<< k := by
    apply Nat.eq_of_testBit_eq
    intro i
    by_cases hi : i < k
    · simp [hi, Nat.not_le.mpr hi]
    · simp [hi, Nat.not_lt.mp hi]
  conv_lhs => rw [hsplit]
  rw [iterate_shift_xor, iterate_shift_shiftLeft]

/-! ### Messages -/

/-- The symbols of a message, of `k` bits each, as one number with the first symbol lowest. -/
def message (k : ℕ) : List ℕ → ℕ
  | [] => 0
  | d :: ds => d ^^^ message k ds <<< k

/-- **A message is taken in symbol by symbol** as if it were in the register from the start. -/
theorem foldl_shift (k : ℕ) (ds : List ℕ) (s : ℕ) :
    ds.foldl (fun s d => (shift P)^[k] (s ^^^ d)) s =
      (shift P)^[k * ds.length] (s ^^^ message k ds) := by
  induction ds generalizing s with
  | nil => simp [message]
  | cons d ds ih =>
    rw [List.foldl_cons, ih, message, List.length_cons, Nat.mul_succ, Function.iterate_add_apply,
      ← Nat.xor_assoc, iterate_shift_xor k (s ^^^ d), iterate_shift_shiftLeft]

lemma testBit_message {k : ℕ} (hk : 0 < k) {ds : List ℕ} (hds : ∀ d ∈ ds, d < 2 ^ k) (i : ℕ) :
    (message k ds).testBit i = (ds.getD (i / k) 0).testBit (i % k) := by
  induction ds generalizing i with
  | nil => simp [message]
  | cons d ds ih =>
    rw [List.forall_mem_cons] at hds
    rw [message, Nat.testBit_xor, Nat.testBit_shiftLeft]
    rcases Nat.lt_or_ge i k with hi | hi
    · rw [Nat.div_eq_of_lt hi, Nat.mod_eq_of_lt hi, List.getD_cons_zero,
        decide_eq_false (Nat.not_le.mpr hi), Bool.false_and, Bool.xor_false]
    · have hlow : d.testBit i = false :=
        Nat.testBit_lt_two_pow (hds.1.trans_le (Nat.pow_le_pow_right (by decide) hi))
      rw [hlow, decide_eq_true hi, Bool.true_and, Bool.false_xor, ih hds.2,
        Nat.div_eq_sub_div hk hi, List.getD_cons_succ, ← Nat.mod_eq_sub_mod hi]

lemma message_lt {k : ℕ} {ds : List ℕ} (hds : ∀ d ∈ ds, d < 2 ^ k) :
    message k ds < 2 ^ (k * ds.length) := by
  induction ds with
  | nil => exact Nat.one_pos
  | cons d ds ih =>
    rw [List.forall_mem_cons] at hds
    have hrest := ih hds.2
    have hlow : d < 2 ^ (k * (ds.length + 1)) :=
      hds.1.trans_le (Nat.pow_le_pow_right (by decide) (Nat.le_mul_of_pos_right k (by omega)))
    have hhigh : message k ds <<< k < 2 ^ (k * (ds.length + 1)) := by
      rw [Nat.shiftLeft_eq, Nat.mul_succ, pow_add]
      exact Nat.mul_lt_mul_of_pos_right hrest (Nat.two_pow_pos k)
    exact Nat.xor_lt_two_pow hlow hhigh

/-- Different messages of one length are different numbers. -/
lemma eq_of_message_eq {k : ℕ} (hk : 0 < k) {ds ds' : List ℕ} (hds : ∀ d ∈ ds, d < 2 ^ k)
    (hds' : ∀ d ∈ ds', d < 2 ^ k) (hlen : ds.length = ds'.length)
    (h : message k ds = message k ds') : ds = ds' := by
  refine List.ext_getElem hlen fun n hn hn' => Nat.eq_of_testBit_eq fun i => ?_
  rcases Nat.lt_or_ge i k with hi | hi
  · have hbit := congrArg (fun v => v.testBit (i + k * n)) h
    simp only [testBit_message hk hds, testBit_message hk hds', Nat.add_mul_div_left _ _ hk,
      Nat.div_eq_of_lt hi, Nat.zero_add, Nat.add_mul_mod_self_left, Nat.mod_eq_of_lt hi] at hbit
    rwa [List.getD_eq_getElem _ _ hn, List.getD_eq_getElem _ _ hn'] at hbit
  · have hwide : 2 ^ k ≤ 2 ^ i := Nat.pow_le_pow_right (by decide) hi
    rw [Nat.testBit_lt_two_pow ((hds _ (List.getElem_mem hn)).trans_le hwide),
      Nat.testBit_lt_two_pow ((hds' _ (List.getElem_mem hn')).trans_le hwide)]

/-! ### What is lost -/

/-- What may have been in the register before a shift. -/
lemma shift_eq_iff (x y : ℕ) : shift P x = y ↔ x = 2 * y ∨ x = 2 * (y ^^^ P) + 1 := by
  have hdiv : x >>> 1 = x / 2 := by rw [Nat.shiftRight_eq_div_pow, pow_one]
  have hcancel : x / 2 ^^^ P = y ↔ x / 2 = y ^^^ P := by
    constructor
    · rintro rfl
      rw [Nat.xor_assoc, Nat.xor_self, Nat.xor_zero]
    · intro h
      rw [h, Nat.xor_assoc, Nat.xor_self, Nat.xor_zero]
  rcases hx : x.testBit 0 with _ | _
  · rw [Nat.testBit_zero, decide_eq_false_iff_not] at hx
    rw [shift_of_zero (by rw [Nat.testBit_zero, decide_eq_false hx]), hdiv]
    omega
  · rw [Nat.testBit_zero, decide_eq_true_iff] at hx
    rw [shift_of_one (by rw [Nat.testBit_zero, decide_eq_true hx]), hdiv, hcancel]
    omega

section Lossy

variable {m : ℕ}

/-- A shift leaves the register no wider than the feedback, or narrower by a bit. -/
lemma shift_lt (hP : P < 2 ^ m) {x j : ℕ} (hj : m ≤ j) (hx : x < 2 ^ (j + 1)) :
    shift P x < 2 ^ j := by
  have hhalf : x >>> 1 < 2 ^ j := by
    rw [Nat.shiftRight_eq_div_pow, pow_one]
    rw [pow_succ] at hx
    omega
  rcases hlow : x.testBit 0 with _ | _
  · rwa [shift_of_zero hlow]
  · rw [shift_of_one hlow]
    exact Nat.xor_lt_two_pow hhalf (hP.trans_le (Nat.pow_le_pow_right (by decide) hj))

lemma iterate_shift_lt (hP : P < 2 ^ m) {x : ℕ} (e : ℕ) (hx : x < 2 ^ (m + e)) :
    (shift P)^[e] x < 2 ^ m := by
  induction e generalizing x with
  | zero => exact hx
  | succ e ih =>
    rw [Function.iterate_succ_apply]
    exact ih (shift_lt hP (Nat.le_add_right m e) hx)

/-- A register no wider than the feedback loses nothing. -/
lemma shift_ne_zero (hP : 2 ^ m ≤ P) {x : ℕ} (hx : x < 2 ^ (m + 1)) (h : x ≠ 0) :
    shift P x ≠ 0 := by
  rw [ne_eq, shift_eq_iff, Nat.zero_xor]
  rw [pow_succ] at hx
  omega

lemma iterate_shift_ne_zero (hlow : 2 ^ m ≤ P) (hhigh : P < 2 ^ (m + 1)) {x : ℕ} (n : ℕ)
    (hx : x < 2 ^ (m + 1)) (h : x ≠ 0) : (shift P)^[n] x ≠ 0 := by
  induction n generalizing x with
  | zero => exact h
  | succ n ih =>
    have hwide : x < 2 ^ (m + 1 + 1) := hx.trans (Nat.pow_lt_pow_right (by decide) (by omega))
    rw [Function.iterate_succ_apply]
    exact ih (shift_lt hhigh le_rfl hwide) (shift_ne_zero hlow hx h)

/-- **What a register loses**: when it is wider than its feedback by `e` bits, nothing but what
the first `e` shifts lose. A difference `x` that lies `j` bits up in a message of `n` bits
vanishes exactly when these shifts take it to zero. -/
theorem iterate_shift_eq_zero_iff (hlow : 2 ^ m ≤ P) (hhigh : P < 2 ^ (m + 1)) {e : ℕ}
    (he : e ≤ m + 1) {x j n : ℕ} (hx : x < 2 ^ (m + 1 + e)) (hn : x <<< j < 2 ^ n) :
    (shift P)^[n] (x <<< j) = 0 ↔ (shift P)^[e] x = 0 := by
  by_cases hzero : x = 0
  · subst hzero
    simp
  have hjn : j < n := by
    by_contra hge
    have hle : 2 ^ n ≤ x <<< j := by
      rw [Nat.shiftLeft_eq]
      exact (Nat.pow_le_pow_right (by decide) (Nat.not_lt.mp hge)).trans
        (Nat.le_mul_of_pos_left _ (Nat.pos_of_ne_zero hzero))
    omega
  obtain ⟨k, rfl⟩ := Nat.exists_eq_add_of_lt hjn
  have hshift : (shift P)^[j + k + 1] (x <<< j) = (shift P)^[k + 1] x := by
    rw [show j + k + 1 = k + 1 + j by omega, Function.iterate_add_apply, iterate_shift_shiftLeft]
  rw [hshift]
  constructor
  · intro h
    rcases Nat.le_total e (k + 1) with hle | hle
    · obtain ⟨l, hl⟩ := Nat.exists_eq_add_of_le' hle
      rw [hl, Function.iterate_add_apply] at h
      by_contra hne
      exact iterate_shift_ne_zero hlow hhigh l (iterate_shift_lt hhigh e hx) hne h
    · obtain ⟨l, rfl⟩ := Nat.exists_eq_add_of_le' hle
      rw [Function.iterate_add_apply, h, iterate_shift_zero]
  · intro h
    -- what is lost reaches above the feedback, so that there are as many shifts as that
    have hwide : 2 ^ (m + 1) ≤ x := by
      by_contra hlt
      exact iterate_shift_ne_zero hlow hhigh e (Nat.not_le.mp hlt) hzero h
    have hlt : 2 ^ (m + 1) < 2 ^ (k + 1) := by
      have hbits : x < 2 ^ (k + 1) := by
        rw [Nat.shiftLeft_eq, show j + k + 1 = k + 1 + j by omega, pow_add] at hn
        exact Nat.lt_of_mul_lt_mul_right hn
      omega
    have hle : e ≤ k + 1 := by
      have := (Nat.pow_lt_pow_iff_right (by decide)).mp hlt
      omega
    obtain ⟨l, hl⟩ := Nat.exists_eq_add_of_le' hle
    rw [hl, Function.iterate_add_apply, h, iterate_shift_zero]

end Lossy

end Dbx4.ShiftRegister
