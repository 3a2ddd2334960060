import Mathlib.Algebra.Group.Nat.Defs
import Mathlib.Data.Nat.Basic
import Mathlib.Data.List.Basic
import Mathlib.Tactic.Common
import Dbx4.Word32

/-!
Memories of a fixed number of bytes.

Bytes are read and written at an address; numbers are kept with the low byte first. A read is
not changed by a write beside it. What lies outside a memory reads as zero and takes no write:
`readAt` and `writeAt` are the accesses that fail there.
-/

namespace Dbx4.Memory

open Dbx4.Word32

abbrev Mem (n : ℕ) := Vector UInt8 n

variable {n : ℕ}

def Mem.byte (m : Mem n) (i : ℕ) : UInt8 := m[i]?.getD 0

/-- The `len` bytes from the address `off` on. -/
@[irreducible] def Mem.read (m : Mem n) (off len : ℕ) : Bytes :=
  (List.range len).map fun i => m.byte (off + i)

@[irreducible] def Mem.write (m : Mem n) (off : ℕ) (bs : Bytes) : Mem n :=
  Vector.ofFn fun i => if off ≤ i ∧ i < off + bs.length then bs.getD (i - off) 0 else m[i]

inductive Fault
  | outside

def Mem.readAt (m : Mem n) (off len : ℕ) : Except Fault Bytes :=
  if off + len ≤ n then .ok (m.read off len) else .error .outside

def Mem.writeAt (m : Mem n) (off : ℕ) (bs : Bytes) : Except Fault (Mem n) :=
  if off + bs.length ≤ n then .ok (m.write off bs) else .error .outside

/-! ### Numbers as bytes -/

/-- The low `k` bytes of a number. -/
def toLe : ℕ → ℕ → Bytes
  | 0, _ => []
  | k + 1, v => UInt8.ofNat v :: toLe k (v / 256)

def ofLe : Bytes → ℕ
  | [] => 0
  | b :: bs => b.toNat + 256 * ofLe bs

@[simp] lemma toLe_length (k v : ℕ) : (toLe k v).length = k := by
  induction k generalizing v with
  | zero => rfl
  | succ k ih => simp [toLe, ih]

lemma ofLe_lt (bs : Bytes) : ofLe bs < 256 ^ bs.length := by
  induction bs with
  | nil => simp [ofLe]
  | cons b bs ih =>
    have hb := b.toNat_lt
    rw [ofLe, List.length_cons, pow_succ]
    omega

lemma ofLe_toLe {k v : ℕ} (h : v < 256 ^ k) : ofLe (toLe k v) = v := by
  induction k generalizing v with
  | zero =>
    rw [pow_zero] at h
    simp only [toLe, ofLe]
    omega
  | succ k ih =>
    rw [pow_succ] at h
    have hdiv : v / 256 < 256 ^ k := by omega
    rw [toLe, ofLe, ih hdiv, UInt8.toNat_ofNat']
    omega

lemma toLe_ofLe (bs : Bytes) : toLe bs.length (ofLe bs) = bs := by
  induction bs with
  | nil => rfl
  | cons b bs ih =>
    have hb := b.toNat_lt
    have hdiv : (b.toNat + 256 * ofLe bs) / 256 = ofLe bs := by omega
    have hbyte : UInt8.ofNat (b.toNat + 256 * ofLe bs) = b := by
      apply UInt8.toNat_inj.mp
      rw [UInt8.toNat_ofNat']
      omega
    rw [List.length_cons, ofLe, toLe, hdiv, ih, hbyte]

/-- The number in the `k` bytes of an image from the address `off` on. -/
def word (v : Bytes) (off k : ℕ) : ℕ := ofLe ((v.drop off).take k)

def Mem.get (m : Mem n) (off k : ℕ) : ℕ := ofLe (m.read off k)

def Mem.set (m : Mem n) (off k v : ℕ) : Mem n := m.write off (toLe k v)

/-! ### Reads and writes -/

@[simp] lemma length_read (m : Mem n) (off len : ℕ) : (m.read off len).length = len := by
  simp [Mem.read]

lemma byte_write (m : Mem n) (off : ℕ) (bs : Bytes) (i : ℕ) :
    (m.write off bs).byte i =
      if off ≤ i ∧ i < off + bs.length ∧ i < n then bs.getD (i - off) 0 else m.byte i := by
  by_cases hi : i < n
  · simp [Mem.byte, Mem.write, hi]
  · simp [Mem.byte, Mem.write, hi]

lemma read_eq_iff {n' : ℕ} {m : Mem n} {m' : Mem n'} {off off' len : ℕ} :
    m.read off len = m'.read off' len ↔ ∀ i < len, m.byte (off + i) = m'.byte (off' + i) := by
  simp [Mem.read]

/-- What was written is read back. -/
lemma read_write_self (m : Mem n) {off : ℕ} {bs : Bytes} (h : off + bs.length ≤ n) :
    (m.write off bs).read off bs.length = bs := by
  apply List.ext_getElem (by simp)
  intro i hi hi'
  have hin : i < bs.length ∧ off + i < n := by omega
  simp [Mem.read, byte_write, hin]

/-- A write leaves the bytes beside it alone. -/
lemma read_write_of_disjoint (m : Mem n) {off : ℕ} {bs : Bytes} {off' len : ℕ}
    (h : off' + len ≤ off ∨ off + bs.length ≤ off') :
    (m.write off bs).read off' len = m.read off' len := by
  rw [read_eq_iff]
  intro i hi
  rw [byte_write, if_neg]
  omega

/-- What one memory reads is read back from the other it was written to. -/
lemma read_write_read {n' : ℕ} (m : Mem n) (m' : Mem n') {off off' i k len : ℕ}
    (h : off + k ≤ n) (hi : i + len ≤ k) :
    (m.write off (m'.read off' k)).read (off + i) len = m'.read (off' + i) len := by
  rw [read_eq_iff]
  intro j hj
  have hin : i + j < k := by omega
  have hindex : off + i + j - off = i + j := by omega
  rw [byte_write, length_read, if_pos (by omega), hindex]
  simp [Mem.read, List.getD, hin, Nat.add_assoc]

lemma ext_byte {m m' : Mem n} (h : ∀ i < n, m.byte i = m'.byte i) : m = m' := by
  refine Vector.ext fun i hi => ?_
  simpa [Mem.byte, hi] using h i hi

/-- A whole memory is written over. -/
lemma write_read_all (m m' : Mem n) : m'.write 0 (m.read 0 n) = m := by
  apply ext_byte
  intro i hi
  simp [byte_write, hi, Mem.read]

lemma getD_read (m : Mem n) (i : ℕ) : (m.read 0 n).getD i 0 = m.byte i := by
  by_cases hi : i < n <;> simp [Mem.read, Mem.byte, List.getD, hi]

lemma byte_write_all (m : Mem n) {bs : Bytes} (h : bs.length = n) (i : ℕ) :
    (m.write 0 bs).byte i = bs.getD i 0 := by
  rw [byte_write]
  by_cases hi : i < n
  · rw [if_pos (by omega), Nat.sub_zero]
  · have hnone : bs[i]? = none := List.getElem?_eq_none (by omega)
    rw [if_neg (by omega)]
    simp [Mem.byte, hi, List.getD, hnone]

lemma read_append (m : Mem n) (off a b : ℕ) :
    m.read off (a + b) = m.read off a ++ m.read (off + a) b := by
  simp [Mem.read, List.range_add, Nat.add_assoc]

/-- A read around one of its bytes. -/
lemma read_split (m : Mem n) (off : ℕ) {k len : ℕ} (h : k < len) :
    m.read off len = m.read off k ++ m.byte (off + k) :: m.read (off + k + 1) (len - k - 1) := by
  obtain ⟨l, rfl⟩ : ∃ l, len = k + (1 + l) := ⟨len - k - 1, by omega⟩
  have hl : k + (1 + l) - k - 1 = l := by omega
  have hone : m.read (off + k) 1 = [m.byte (off + k)] := by simp [Mem.read]
  rw [read_append, read_append, hl, hone, List.singleton_append]

lemma get_lt (m : Mem n) (off k : ℕ) : m.get off k < 256 ^ k := by
  have := ofLe_lt (m.read off k)
  rwa [length_read] at this

lemma get_set_self (m : Mem n) {off k v : ℕ} (h : off + k ≤ n) (hv : v < 256 ^ k) :
    (m.set off k v).get off k = v := by
  have hread := read_write_self m (show off + (toLe k v).length ≤ n by simpa)
  rw [toLe_length] at hread
  rw [Mem.get, Mem.set, hread, ofLe_toLe hv]

lemma get_write_of_disjoint (m : Mem n) {off : ℕ} {bs : Bytes} {off' k : ℕ}
    (h : off' + k ≤ off ∨ off + bs.length ≤ off') :
    (m.write off bs).get off' k = m.get off' k := by
  rw [Mem.get, read_write_of_disjoint m h, Mem.get]

lemma read_set_of_disjoint (m : Mem n) {off k v off' len : ℕ}
    (h : off' + len ≤ off ∨ off + k ≤ off') : (m.set off k v).read off' len = m.read off' len :=
  read_write_of_disjoint m (by simpa using h)

/-- The later of two writes to a place counts. -/
lemma set_set (m : Mem n) (off k v v' : ℕ) : (m.set off k v).set off k v' = m.set off k v' := by
  apply ext_byte
  intro i hi
  simp only [Mem.set, byte_write, toLe_length]
  split_ifs <;> rfl

/-- A number that is written where it was read. -/
lemma set_get_self (m : Mem n) (off k : ℕ) : m.set off k (m.get off k) = m := by
  have hbytes := toLe_ofLe (m.read off k)
  rw [length_read] at hbytes
  apply ext_byte
  intro i hi
  rw [Mem.set, Mem.get, hbytes, byte_write, length_read]
  split_ifs with hin
  · have hindex : off + (i - off) = i := by omega
    have hlt : i - off < k := by omega
    simp [Mem.read, List.getD, hlt, hindex]
  · rfl

/-- Writes to different places go in any order. -/
lemma write_comm (m : Mem n) {off off' : ℕ} {bs bs' : Bytes}
    (h : off + bs.length ≤ off' ∨ off' + bs'.length ≤ off) :
    (m.write off bs).write off' bs' = (m.write off' bs').write off bs := by
  apply ext_byte
  intro i hi
  rw [byte_write, byte_write, byte_write, byte_write]
  split_ifs <;> first | rfl | omega

lemma set_comm (m : Mem n) {off k off' k' : ℕ} (h : off + k ≤ off' ∨ off' + k' ≤ off)
    (v v' : ℕ) : (m.set off k v).set off' k' v' = (m.set off' k' v').set off k v :=
  write_comm m (by simpa using h)

lemma write_set_comm (m : Mem n) {off k off' : ℕ} {bs : Bytes}
    (h : off + k ≤ off' ∨ off' + bs.length ≤ off) (v : ℕ) :
    (m.set off k v).write off' bs = (m.write off' bs).set off k v :=
  write_comm m (by simpa using h)

/-! Numbers of a fixed width as fields of a memory. -/

lemma toNat_get16 (m : Mem n) (off : ℕ) : (UInt16.ofNat (m.get off 2)).toNat = m.get off 2 := by
  have hlt := get_lt m off 2
  rw [UInt16.toNat_ofNat', Nat.mod_eq_of_lt (by omega)]

lemma toNat_get32 (m : Mem n) (off : ℕ) : (UInt32.ofNat (m.get off 4)).toNat = m.get off 4 := by
  have hlt := get_lt m off 4
  rw [UInt32.toNat_ofNat', Nat.mod_eq_of_lt (by omega)]

lemma get_set16 (m : Mem n) {off : ℕ} (h : off + 2 ≤ n) (v : UInt16) :
    UInt16.ofNat ((m.set off 2 v.toNat).get off 2) = v := by
  have hv := v.toNat_lt
  rw [get_set_self _ h (by omega), UInt16.ofNat_toNat]

lemma get_set32 (m : Mem n) {off : ℕ} (h : off + 4 ≤ n) (v : UInt32) :
    UInt32.ofNat ((m.set off 4 v.toNat).get off 4) = v := by
  have hv := v.toNat_lt
  rw [get_set_self _ h (by omega), UInt32.ofNat_toNat]

lemma get_set_of_disjoint (m : Mem n) {off k v off' k' : ℕ}
    (h : off' + k' ≤ off ∨ off + k ≤ off') : (m.set off k v).get off' k' = m.get off' k' := by
  rw [Mem.get, read_set_of_disjoint m h, Mem.get]

lemma read_write_all (m : Mem n) {v : Bytes} (hv : v.length = n) {off k : ℕ} (h : off + k ≤ n) :
    (m.write 0 v).read off k = (v.drop off).take k := by
  apply List.ext_getElem (by simp; omega)
  intro i hi hi'
  rw [length_read] at hi
  simp [Mem.read, byte_write_all m hv, List.getD, show off + i < v.length by omega]

lemma get_write_all (m : Mem n) {v : Bytes} (hv : v.length = n) {off k : ℕ} (h : off + k ≤ n) :
    (m.write 0 v).get off k = word v off k := by
  rw [Mem.get, read_write_all m hv h, word]

lemma get_replicate (n off k : ℕ) : Mem.get (Vector.replicate n 0) off k = 0 := by
  have hread : Mem.read (Vector.replicate n (0 : UInt8)) off k = List.replicate k 0 := by
    apply List.ext_getElem (by simp)
    intro i _ _
    by_cases hi : off + i < n <;> simp [Mem.read, Mem.byte, hi]
  rw [Mem.get, hread]
  clear hread
  induction k with
  | zero => rfl
  | succ k ih => simp [List.replicate_succ, ofLe, ih]

end Dbx4.Memory
