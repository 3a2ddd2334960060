import Dbx4.ShiftRegister
import Dbx4.XorFold
import Dbx4.EngineModel

/-!
The CRC32C of the engine: linear over exclusive or, and by table the same as bit by bit.
-/

namespace Dbx4.EngineCrc

open Dbx4.Word32 Dbx4.ShiftRegister Dbx4.XorFold Dbx4.EngineModel

lemma and_xor (x y z : UInt32) : (x ^^^ y) &&& z = (x &&& z) ^^^ (y &&& z) := by
  apply UInt32.toNat_inj.mp
  simp only [UInt32.toNat_and, UInt32.toNat_xor]
  exact Nat.and_xor_distrib_right

lemma and_one_ne_zero (x : UInt32) : x &&& 1 ≠ 0 ↔ x.toNat.testBit 0 = true := by
  rw [ne_eq, ← UInt32.toNat_inj, UInt32.toNat_and, UInt32.toNat_one, UInt32.toNat_zero,
    Nat.and_one_is_mod, Nat.testBit_zero, decide_eq_true_iff]
  omega

/-- The table is filled by a shift register with the polynomial as its feedback. -/
lemma toNat_tableTurn (x : UInt32) :
    (CRC32C.tableTurn x).toNat = shift crc32cPoly.toNat x.toNat := by
  have hshift : (x >>> 1).toNat = x.toNat >>> 1 := by simp
  unfold CRC32C.tableTurn
  split_ifs with hlow
  · rw [shift_of_one ((and_one_ne_zero x).mp hlow), UInt32.toNat_xor, hshift]
  · rw [shift_of_zero (Bool.eq_false_iff.mpr ((and_one_ne_zero x).not.mp hlow)), hshift]

lemma toNat_iterate_tableTurn (n : ℕ) (x : UInt32) :
    (CRC32C.tableTurn^[n] x).toNat = (shift crc32cPoly.toNat)^[n] x.toNat :=
  Function.Semiconj.iterate_right toNat_tableTurn n x

lemma table_xor (x y : UInt32) : CRC32C.table (x ^^^ y) = CRC32C.table x ^^^ CRC32C.table y := by
  apply UInt32.toNat_inj.mp
  rw [UInt32.toNat_xor, CRC32C.table, CRC32C.table, CRC32C.table, toNat_iterate_tableTurn,
    toNat_iterate_tableTurn, toNat_iterate_tableTurn, UInt32.toNat_xor, iterate_shift_xor]

/-- **CRC32C is linear**: the exclusive or of two registers and bytes goes on to that of what
they go on to. -/
lemma linear_turn : Linear CRC32C.turn := by
  intro s s' b b'
  have hindex : (s ^^^ s') ^^^ (b ^^^ b').toUInt32 =
      (s ^^^ b.toUInt32) ^^^ (s' ^^^ b'.toUInt32) := by
    rw [UInt8.toUInt32_xor]
    ac_rfl
  unfold CRC32C.turn
  rw [hindex, and_xor, table_xor, UInt32.shiftRight_xor]
  ac_rfl

lemma calculate_eq (bs : Bytes) :
    CRC32C.calculate bs = bs.foldl CRC32C.turn 0xFFFFFFFF ^^^ 0xFFFFFFFF := by
  unfold CRC32C.calculate
  rfl

/-- Two messages have the same checksum when they leave the register the same. -/
lemma calculate_eq_iff (bs bs' : Bytes) : CRC32C.calculate bs = CRC32C.calculate bs' ↔
    bs.foldl CRC32C.turn 0xFFFFFFFF = bs'.foldl CRC32C.turn 0xFFFFFFFF := by
  rw [calculate_eq, calculate_eq, UInt32.xor_left_inj]

/-! ### Bit by bit -/

/-- The table, filled. -/
def filledTable : Vector UInt32 256 := Vector.ofFn fun i => CRC32C.table (UInt32.ofNat i)

/-- What `calculate` does with a table. -/
def calculateFrom (table : Vector UInt32 256) (data : Bytes) : UInt32 :=
  data.foldl (fun (crc : UInt32) b => table[((crc ^^^ b.toUInt32) &&& 0xFF).toNat]! ^^^ (crc >>> 8))
    0xFFFFFFFF ^^^ 0xFFFFFFFF

def bitStep (crc : UInt32) : UInt32 :=
  (crc >>> 1) ^^^ (if crc &&& 1 ≠ 0 then crc32cPoly else 0)

/-- The evaluation a bit at a time. -/
def calculateBitwise (data : Bytes) : UInt32 :=
  data.foldl (fun crc b => bitStep^[8] (crc ^^^ b.toUInt32)) 0xFFFFFFFF ^^^ 0xFFFFFFFF

lemma bitStep_eq (crc : UInt32) : bitStep crc = CRC32C.tableTurn crc := by
  unfold bitStep CRC32C.tableTurn
  split_ifs
  · rfl
  · rw [UInt32.xor_zero]

/-- The low byte of a register is an index of the table. -/
lemma toNat_low (x : UInt32) : (x &&& 0xFF).toNat = x.toNat % 2 ^ 8 := by
  rw [UInt32.toNat_and]
  exact Nat.and_two_pow_sub_one_eq_mod x.toNat 8

lemma filledTable_getElem (x : UInt32) :
    filledTable[(x &&& 0xFF).toNat]! = CRC32C.table (x &&& 0xFF) := by
  have hlt : (x &&& 0xFF).toNat < 256 := by
    rw [toNat_low]
    exact Nat.mod_lt _ (by decide)
  rw [getElem!_pos filledTable _ hlt, filledTable, Vector.getElem_ofFn, UInt32.ofNat_toNat]

/-- **A byte by table is eight bits**: the low byte is shifted out through the table, and the
rest moves down. -/
lemma turn_eq (crc : UInt32) (b : UInt8) :
    CRC32C.turn crc b = CRC32C.tableTurn^[8] (crc ^^^ b.toUInt32) := by
  have hbyte : b.toNat >>> 8 = 0 := by
    rw [Nat.shiftRight_eq_div_pow]
    exact Nat.div_eq_of_lt b.toNat_lt
  have hrest : (crc >>> 8).toNat = (crc ^^^ b.toUInt32).toNat >>> 8 := by
    rw [UInt32.toNat_xor, UInt8.toNat_toUInt32, Nat.shiftRight_xor_distrib, hbyte, Nat.xor_zero]
    simp
  apply UInt32.toNat_inj.mp
  rw [CRC32C.turn, CRC32C.table, UInt32.toNat_xor, toNat_iterate_tableTurn,
    toNat_iterate_tableTurn, toNat_low, hrest, ← iterate_shift_split]

/-- **CRC32C by table is CRC32C bit by bit**, on every byte string. -/
theorem calculate_eq_bitwise (data : Bytes) :
    CRC32C.calculate data = calculateFrom filledTable data ∧
      CRC32C.calculate data = calculateBitwise data := by
  have htable : (fun (crc : UInt32) (b : UInt8) =>
      filledTable[((crc ^^^ b.toUInt32) &&& 0xFF).toNat]! ^^^ (crc >>> 8)) = CRC32C.turn := by
    funext crc b
    rw [filledTable_getElem, CRC32C.turn]
  have hbits : (fun (crc : UInt32) (b : UInt8) => bitStep^[8] (crc ^^^ b.toUInt32)) =
      CRC32C.turn := by
    funext crc b
    rw [turn_eq, funext bitStep_eq]
  rw [calculateFrom, htable, calculateBitwise, hbits, calculate_eq]
  exact ⟨rfl, rfl⟩

end Dbx4.EngineCrc
