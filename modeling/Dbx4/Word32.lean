import Mathlib.Algebra.Group.Nat.Defs
import Mathlib.Data.Nat.Basic
import Mathlib.Data.List.Basic
import Mathlib.Tactic.Common

/-!
Words of 32 bits as four bytes, the low byte first.
-/

namespace Dbx4.Word32

abbrev Bytes := List UInt8

def le32 (x : UInt32) : Bytes :=
  [x.toUInt8, (x >>> 8).toUInt8, (x >>> 16).toUInt8, (x >>> 24).toUInt8]

/-- The word in the first four bytes. -/
def ofLe32 : Bytes → UInt32
  | a :: b :: c :: d :: _ =>
    UInt32.ofNat (a.toNat + 2 ^ 8 * b.toNat + 2 ^ 16 * c.toNat + 2 ^ 24 * d.toNat)
  | _ => 0

@[simp] lemma le32_length (x : UInt32) : (le32 x).length = 4 := rfl

@[simp] lemma ofLe32_le32 (x : UInt32) (bs : Bytes) : ofLe32 (le32 x ++ bs) = x := by
  have hx := x.toNat_lt
  apply UInt32.toNat_inj.mp
  simp only [le32, List.cons_append, List.nil_append, ofLe32, UInt32.toNat_toUInt8,
    UInt32.toNat_shiftRight, UInt32.toNat_ofNat', Nat.shiftRight_eq_div_pow]
  simp
  omega

/-- The word in four bytes has these bytes. -/
lemma le32_ofLe32 {bs : Bytes} (h : 4 ≤ bs.length) : le32 (ofLe32 bs) = bs.take 4 := by
  match bs, h with
  | a :: b :: c :: d :: _, _ =>
    have ha := a.toNat_lt
    have hb := b.toNat_lt
    have hc := c.toNat_lt
    have hd := d.toNat_lt
    simp only [le32, ofLe32, List.take_succ_cons, List.take_zero, List.cons.injEq, and_true]
    refine ⟨?_, ?_, ?_, ?_⟩ <;> apply UInt8.toNat_inj.mp <;>
      simp only [UInt32.toNat_toUInt8, UInt32.toNat_shiftRight, UInt32.toNat_ofNat',
        Nat.shiftRight_eq_div_pow] <;> simp <;> omega

lemma ofLe32_append {xs : Bytes} (h : 4 ≤ xs.length) (ys : Bytes) :
    ofLe32 (xs ++ ys) = ofLe32 xs := by
  match xs, h with
  | _ :: _ :: _ :: _ :: _, _ => rfl

end Dbx4.Word32
