import Dbx4.Word32

/-!
Whole numbers in decimal, as bytes.
-/

namespace Dbx4.Decimals

open Dbx4.Word32

def digits (n : ℕ) : Bytes := (Nat.toDigits 10 n).map fun c => UInt8.ofNat c.toNat

/-- `std::to_string`. -/
def decimal (n : ℤ) : Bytes := if n < 0 then 45 :: digits n.natAbs else digits n.natAbs

lemma isDigit_of_mem {n : ℕ} {c : Char} (h : c ∈ Nat.toDigits 10 n) :
    48 ≤ c.toNat ∧ c.toNat ≤ 57 := by
  have hdigit := Nat.isDigit_of_mem_toDigits (by decide) (by decide) h
  simp only [Char.isDigit, Bool.and_eq_true, decide_eq_true_eq] at hdigit
  exact ⟨UInt32.le_iff_toNat_le.mp hdigit.1, UInt32.le_iff_toNat_le.mp hdigit.2⟩

lemma toNat_of_mem {n : ℕ} {b : UInt8} (h : b ∈ digits n) : 48 ≤ b.toNat ∧ b.toNat ≤ 57 := by
  obtain ⟨c, hc, rfl⟩ := List.mem_map.mp h
  have hdigit := isDigit_of_mem hc
  rw [UInt8.toNat_ofNat']
  omega

lemma digits_injective : Function.Injective digits := by
  have hback (n : ℕ) : (digits n).map (fun b => Char.ofNat b.toNat) = Nat.toDigits 10 n := by
    rw [digits, List.map_map]
    refine (List.map_congr_left fun c hc => ?_).trans (List.map_id _)
    have hdigit := isDigit_of_mem hc
    rw [Function.comp_apply, UInt8.toNat_ofNat', Nat.mod_eq_of_lt (by omega), Char.ofNat_toNat, id]
  intro n m h
  rw [← @Nat.ofDigitChars_ten_toDigits n, ← @Nat.ofDigitChars_ten_toDigits m, ← hback, ← hback, h]

lemma notMem_digits {n : ℕ} {b : UInt8} (hb : b.toNat < 48 ∨ 57 < b.toNat) : b ∉ digits n := by
  intro hmem
  have := toNat_of_mem hmem
  omega

lemma decimal_injective : Function.Injective decimal := by
  intro n m h
  unfold decimal at h
  split_ifs at h with hn hm hm
  · have := digits_injective (List.cons.inj h).2
    omega
  · exact absurd (h ▸ List.mem_cons_self) (notMem_digits (n := m.natAbs) (b := 45) (by decide))
  · exact absurd (h ▸ List.mem_cons_self) (notMem_digits (n := n.natAbs) (b := 45) (by decide))
  · have := digits_injective h
    omega

lemma colon_notMem_decimal (n : ℤ) : 58 ∉ decimal n := by
  unfold decimal
  split_ifs
  · rw [List.mem_cons, not_or]
    exact ⟨by decide, notMem_digits (by decide)⟩
  · exact notMem_digits (by decide)

end Dbx4.Decimals
