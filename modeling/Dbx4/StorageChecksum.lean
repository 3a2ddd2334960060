import Dbx4.XorFold
import Dbx4.StorageLayout

/-!
Which single bytes the checksum of a page covers.

The checksum shifts left by one bit for every byte it takes in. A byte with 32 bytes or more
behind it has been shifted out at the end; of the last 32 bytes, the one with `k` bytes behind
it leaves its low `32 - k` bits.
-/

namespace Dbx4.StorageChecksum

open Dbx4.Word32 Dbx4.Memory Dbx4.XorFold Dbx4.StorageModel Dbx4.StorageLayout

/-- How the checksum takes in a byte. -/
def mix (sum : UInt32) (b : UInt8) : UInt32 := (sum <<< 1) ^^^ b.toUInt32

lemma linear_mix : Linear mix := by
  intro s s' b b'
  rw [mix, UInt32.shiftLeft_xor, UInt8.toUInt32_xor, mix, mix]
  ac_rfl

/-- Zeros shift a difference out to the left. -/
lemma foldl_mix_zeros (k : ℕ) (d : UInt32) :
    ((List.replicate k 0).foldl mix d).toBitVec = d.toBitVec <<< k := by
  induction k generalizing d with
  | zero => simp
  | succ k ih =>
    rw [List.replicate_succ, List.foldl_cons, ih, Nat.add_comm, BitVec.shiftLeft_add]
    simp [mix]

/-- Two messages that differ in one byte have the same checksum when the difference has been
shifted out. -/
lemma foldl_mix_eq_iff (pre post : Bytes) (x y : UInt8) :
    (pre ++ x :: post).foldl mix 0 = (pre ++ y :: post).foldl mix 0 ↔
      (x ^^^ y).toUInt32.toBitVec <<< post.length = 0 := by
  rw [List.foldl_append, List.foldl_append, List.foldl_cons, List.foldl_cons]
  set s := pre.foldl mix 0
  have hdiff : mix s x ^^^ mix s y = (x ^^^ y).toUInt32 := by
    rw [mix, mix, UInt8.toUInt32_xor, UInt32.xor_comm (s <<< 1), UInt32.xor_assoc,
      ← UInt32.xor_assoc (s <<< 1), UInt32.xor_self, UInt32.zero_xor]
  have hfold := foldl_xor_foldl linear_mix (z := 0) (fun b => UInt8.xor_self) post (mix s x)
    (mix s y)
  rw [← UInt32.xor_eq_zero_iff, hfold, hdiff, ← UInt32.toBitVec_inj, foldl_mix_zeros]
  rfl

/-- A bit of the byte is left when it has not been shifted past bit 31. -/
lemma shiftLeft_eq_zero_iff (x y : UInt8) (k : ℕ) :
    (x ^^^ y).toUInt32.toBitVec <<< k = 0 ↔
      ∀ b, b + k < 32 → x.toNat.testBit b = y.toNat.testBit b := by
  have hbit : ∀ b, b < 32 → (x ^^^ y).toUInt32.toBitVec.getLsbD b =
      (x.toNat.testBit b ^^ y.toNat.testBit b) := by
    intro b hb
    rw [← BitVec.testBit_toNat, ← UInt32.toNat, UInt8.toNat_toUInt32, UInt8.toNat_xor,
      Nat.testBit_xor]
  refine ⟨fun h b hb => ?_, fun h => ?_⟩
  · have hzero := congrArg (fun v : BitVec 32 => v.getLsbD (b + k)) h
    simp only [BitVec.getLsbD_shiftLeft, Nat.add_sub_cancel, hbit b (by omega)] at hzero
    simpa [hb] using hzero
  · apply BitVec.eq_of_getLsbD_eq
    intro i hi
    rw [BitVec.getLsbD_shiftLeft]
    by_cases hk : i < k
    · simp [hk]
    · rw [hbit (i - k) (by omega), h (i - k) (by omega)]
      simp

/-! ### The checksum of a page -/

/-- The bytes the checksum covers: all but its own field. -/
def covered (m : Mem pageSize) : Bytes := m.read 0 12 ++ m.read 16 8176

lemma turn_covered (p : StoragePage) (sum : UInt32) {i : ℕ} (h : i < 12 ∨ 16 ≤ i) :
    p.checksumTurn true sum i = mix sum (p.data.byte i) := by
  have hfield : ¬ (12 ≤ i ∧ i < 12 + 4) := by omega
  simp [StoragePage.checksumTurn, mix, hfield]

lemma computeChecksum_eq (p : StoragePage) : p.computeChecksum = (covered p.data).foldl mix 0 := by
  have hrange : List.range pageSize =
      List.range 12 ++ (List.range 4).map (12 + ·) ++ (List.range 8176).map (16 + ·) := by
    rw [show pageSize = 12 + 4 + 8176 from rfl, List.range_add, List.range_add]
  unfold StoragePage.computeChecksum
  rw [hrange, List.foldl_append, List.foldl_append, List.foldl_map,
    List.foldl_map, covered, List.foldl_append, Mem.read, Mem.read, List.foldl_map,
    List.foldl_map]
  have hahead : ∀ s, (List.range 12).foldl (p.checksumTurn true) s =
      (List.range 12).foldl (fun sum i => mix sum (p.data.byte (0 + i))) s := by
    intro s
    refine List.foldl_ext _ _ _ fun sum i hi => ?_
    rw [List.mem_range] at hi
    rw [turn_covered p sum (by omega), Nat.zero_add]
  have hfield : ∀ s,
      (List.range 4).foldl (fun sum i => p.checksumTurn true sum (12 + i)) s = s := by
    intro s
    simp [List.range_succ, StoragePage.checksumTurn]
  have hbehind : ∀ s, (List.range 8176).foldl (fun sum i => p.checksumTurn true sum (16 + i)) s =
      (List.range 8176).foldl (fun sum i => mix sum (p.data.byte (16 + i))) s := by
    intro s
    exact List.foldl_ext _ _ _ fun sum i _ => turn_covered p sum (by omega)
  rw [hahead, hfield, hbehind]

/-- Pages that differ in one byte outside the field, and what they cover. -/
lemma covered_of_differ {m m' : Mem pageSize} {i : ℕ} (hi : i < 8192) (hout : i < 12 ∨ 16 ≤ i)
    (h : ∀ j, j ≠ i → m.byte j = m'.byte j) :
    ∃ pre post, covered m = pre ++ m.byte i :: post ∧ covered m' = pre ++ m'.byte i :: post ∧
      (post.length = 8191 - i ∨ (32 ≤ post.length ∧ 32 ≤ 8191 - i)) := by
  have hread : ∀ off len, (i < off ∨ off + len ≤ i) → m.read off len = m'.read off len := by
    intro off len hbeside
    rw [read_eq_iff]
    exact fun j hj => h _ (by omega)
  rcases hout with hlt | hge
  · refine ⟨m.read 0 i, m.read (i + 1) (11 - i) ++ m.read 16 8176, ?_, ?_, Or.inr ?_⟩
    · have hsplit := read_split m 0 hlt
      rw [Nat.zero_add, show 12 - i - 1 = 11 - i by omega] at hsplit
      rw [covered, hsplit, List.append_assoc, List.cons_append]
    · have hsplit := read_split m' 0 hlt
      rw [Nat.zero_add, show 12 - i - 1 = 11 - i by omega] at hsplit
      rw [covered, hsplit, hread 0 i (by omega), hread (i + 1) (11 - i) (by omega),
        hread 16 8176 (by omega), List.append_assoc, List.cons_append]
    · rw [List.length_append, length_read, length_read]
      omega
  · obtain ⟨k, rfl⟩ := Nat.exists_eq_add_of_le hge
    refine ⟨m.read 0 12 ++ m.read 16 k, m.read (16 + k + 1) (8176 - k - 1), ?_, ?_, Or.inl ?_⟩
    · rw [covered, read_split m 16 (show k < 8176 by omega), List.append_assoc]
    · rw [covered, read_split m' 16 (show k < 8176 by omega), hread 0 12 (by omega),
        hread 16 k (by omega), hread (16 + k + 1) (8176 - k - 1) (by omega), List.append_assoc]
    · rw [length_read]
      omega

/-- Pages that differ in one byte have the same checksum when the difference has been shifted
out. -/
lemma computeChecksum_eq_iff {p p' : StoragePage} {i : ℕ} (hi : i < 8192)
    (hout : i < 12 ∨ 16 ≤ i) (h : ∀ j, j ≠ i → p.data.byte j = p'.data.byte j) :
    p.computeChecksum = p'.computeChecksum ↔
      (p.data.byte i ^^^ p'.data.byte i).toUInt32.toBitVec <<< (8191 - i) = 0 := by
  obtain ⟨pre, post, hp, hp', hlen⟩ := covered_of_differ hi hout h
  rw [computeChecksum_eq, computeChecksum_eq, hp, hp', foldl_mix_eq_iff]
  rcases hlen with hlen | ⟨hpost, hbehind⟩
  · rw [hlen]
  · rw [BitVec.shiftLeft_eq_zero hpost, BitVec.shiftLeft_eq_zero hbehind]

/-! ### Images with one byte changed -/

/-- The image differs from the original in one byte outside the checksum field. -/
structure DiffersAt (i : ℕ) (image original : Bytes) : Prop where
  length : image.length = 8192
  outside : i < 12 ∨ 16 ≤ i
  differs : image.getD i 0 ≠ original.getD i 0
  same : ∀ j, j ≠ i → image.getD j 0 = original.getD j 0

/-- What a page makes of an image that differs from another page's outside the checksum. -/
lemma deserialize_differsAt {p : StoragePage} {image : Bytes} {i : ℕ}
    (h : DiffersAt i image p.serialize.1) (q : StoragePage) :
    (q.deserialize image).1 =
      ((sealed p).computeChecksum == (⟨q.data.write 0 image⟩ : StoragePage).computeChecksum) := by
  obtain ⟨hpage, -, -⟩ := layout
  have hlen : ¬ image.length ≠ pageSize := not_not.mpr h.length
  have hout := h.outside
  have hstored : (⟨q.data.write 0 image⟩ : StoragePage).checksum = (sealed p).computeChecksum := by
    rw [sealed, computeChecksum_setChecksum, computeChecksum_setChecksum,
      ← checksum_setChecksum (p.setChecksum 0) p.computeChecksum, ← sealed,
      StoragePage.checksum, StoragePage.checksum, Mem.get, Mem.get]
    have hread : (q.data.write 0 image).read 12 4 = (sealed p).data.read 12 4 := by
      rw [read_eq_iff]
      intro j hj
      rw [byte_write_all _ (h.length.trans hpage.symm), h.same _ (by omega), serialize_eq,
        getD_read]
    rw [hread]
  simp only [StoragePage.deserialize, if_neg hlen, hstored, computeChecksum_setChecksum]

/-- The change goes unnoticed when the difference has been shifted out. -/
lemma deserialize_eq_false_iff (p q : StoragePage) {image : Bytes} {i : ℕ}
    (h : DiffersAt i image p.serialize.1) :
    (q.deserialize image).1 = false ↔
      (p.serialize.1.getD i 0 ^^^ image.getD i 0).toUInt32.toBitVec <<< (8191 - i) ≠ 0 := by
  have horiginal : ∀ j, p.serialize.1.getD j 0 = (sealed p).data.byte j := by
    intro j
    rw [serialize_eq, getD_read]
  have himage := byte_write_all q.data h.length
  have hi : i < 8192 := by
    by_contra hi
    refine h.differs ?_
    rw [horiginal, ← himage]
    simp [Mem.byte, show ¬ i < pageSize from hi]
  have hsame : ∀ j, j ≠ i → (sealed p).data.byte j = (q.data.write 0 image).byte j := by
    intro j hj
    rw [himage, h.same j hj, horiginal]
  have heq : (sealed p).computeChecksum = (⟨q.data.write 0 image⟩ : StoragePage).computeChecksum ↔
      ((sealed p).data.byte i ^^^ (q.data.write 0 image).byte i).toUInt32.toBitVec <<<
        (8191 - i) = 0 := computeChecksum_eq_iff hi h.outside hsame
  rw [deserialize_differsAt h, beq_eq_false_iff_ne, ne_eq, heq, himage, horiginal]

/-- **Which single changes are detected**: those of a bit that the bytes behind have not shifted
out of the 32 bits of the checksum. -/
theorem detected_iff (p q : StoragePage) {image : Bytes} {i : ℕ}
    (h : DiffersAt i image p.serialize.1) :
    (q.deserialize image).1 = false ↔ ∃ b, b + (8191 - i) < 32 ∧
      (p.serialize.1.getD i 0).toNat.testBit b ≠ (image.getD i 0).toNat.testBit b := by
  rw [deserialize_eq_false_iff p q h, ne_eq, shiftLeft_eq_zero_iff]
  simp only [not_forall, exists_prop, ne_eq]

/-- The image of a page with one byte raised by one. -/
def raised (p : StoragePage) (i : ℕ) : Bytes :=
  p.serialize.1.set i (p.serialize.1.getD i 0 + 1)

lemma getD_raised_self (p : StoragePage) {i : ℕ} (hi : i < 8192) :
    (raised p i).getD i 0 = p.serialize.1.getD i 0 + 1 := by
  have hlen : p.serialize.1.length = 8192 := by rw [serialize_eq, length_read]; rfl
  rw [raised, List.getD_eq_getElem?_getD, List.getElem?_set_self (by omega)]
  rfl

lemma differsAt_raised (p : StoragePage) {i : ℕ} (hi : i < 8192) (hout : i < 12 ∨ 16 ≤ i) :
    DiffersAt i (raised p i) p.serialize.1 := by
  have hlen : p.serialize.1.length = 8192 := by rw [serialize_eq, length_read]; rfl
  refine ⟨by rw [raised, List.length_set, hlen], hout, ?_, fun j hj => ?_⟩
  · rw [getD_raised_self p hi]
    intro h
    have := congrArg UInt8.toNat h
    rw [UInt8.toNat_add, UInt8.toNat_one] at this
    omega
  · rw [raised, List.getD_eq_getElem?_getD, List.getElem?_set_ne (Ne.symm hj),
      List.getD_eq_getElem?_getD]

/-- A change of the last byte is detected. -/
theorem detected_last_byte :
    ((StoragePage.new 1).deserialize (raised (.new 0) 8191)).1 = false := by
  refine (detected_iff (.new 0) (.new 1) (differsAt_raised _ (by decide) (by decide))).mpr
    ⟨0, by decide, ?_⟩
  rw [getD_raised_self _ (by decide), Nat.testBit_zero, Nat.testBit_zero, UInt8.toNat_add,
    UInt8.toNat_one]
  generalize ((StoragePage.new 0).serialize.1.getD 8191 0).toNat = x
  simp only [ne_eq, decide_eq_decide]
  omega

/-- Every change of one byte outside the checksum field is detected. -/
def Detects (p : StoragePage) : Prop :=
  ∀ (q : StoragePage) (image : Bytes) (i : ℕ), DiffersAt i image p.serialize.1 →
    (q.deserialize image).1 = false

/-- In a fresh page, a change in the middle of the payload goes unnoticed. -/
theorem not_detects_payload : ¬ Detects (.new 0) := by
  intro h
  have hdiffers := differsAt_raised (.new 0) (i := 4000) (by decide) (by decide)
  have hfalse := h (.new 0) _ 4000 hdiffers
  rw [deserialize_eq_false_iff _ _ hdiffers] at hfalse
  exact hfalse (BitVec.shiftLeft_eq_zero (by decide))

end Dbx4.StorageChecksum
