import Dbx4.EngineCrc
import Dbx4.EngineRestart

/-!
Which bursts of errors the CRC32C of the engine detects.

The register is shifted to the right, with the polynomial in the order of bits that a shift to
the left expects. The polynomial has zeros in its three highest bits, so that the first three
shifts lose seven differences of 32 bits, and all later ones none.
-/

namespace Dbx4.EngineBurst

open Dbx4.Word32 Dbx4.Memory Dbx4.Runs Dbx4.ShiftRegister Dbx4.EngineModel Dbx4.EnginePage
open Dbx4.EngineCrc

/-! ### Bursts -/

/-- The bits of a message, the low bit of each byte first. -/
def messageBit (bs : Bytes) (i : ℕ) : Bool := (bs.getD (i / 8) 0).toNat.testBit (i % 8)

/-- The two messages differ, within 32 consecutive bits. -/
structure Burst (bs bs' : Bytes) : Prop where
  length : bs.length = bs'.length
  differ : bs ≠ bs'
  window : ∃ k, ∀ i, messageBit bs i ≠ messageBit bs' i → k ≤ i ∧ i < k + 32

/-- The differences that get lost, from their first bit on. -/
def lostDifferences : List ℕ := [0x3DB8DE83, 0x46C96385, 0xCB5BA48F, 0xB02A1989]

/-- The messages differ from some bit on by one of these. -/
def DiffersByLost (bs bs' : Bytes) : Prop :=
  ∃ k, ∃ w ∈ lostDifferences,
    ∀ i, (messageBit bs i ^^ messageBit bs' i) = (decide (k ≤ i) && w.testBit (i - k))

/-! ### Messages as numbers -/

/-- A message as a number, the first byte lowest. -/
def number (bs : Bytes) : ℕ := message 8 (bs.map UInt8.toNat)

lemma toNat_lt_of_mem {bs : Bytes} {d : ℕ} (hd : d ∈ bs.map UInt8.toNat) : d < 2 ^ 8 := by
  obtain ⟨b, -, rfl⟩ := List.mem_map.mp hd
  exact b.toNat_lt

lemma number_lt (bs : Bytes) : number bs < 2 ^ (8 * bs.length) := by
  have h := message_lt (k := 8) fun d (hd : d ∈ bs.map UInt8.toNat) => toNat_lt_of_mem hd
  rwa [List.length_map] at h

lemma testBit_number (bs : Bytes) (i : ℕ) : (number bs).testBit i = messageBit bs i := by
  rw [number, testBit_message (by decide) fun d hd => toNat_lt_of_mem hd, messageBit,
    ← UInt8.toNat_zero, List.getD_map]

/-- The register behind a message. -/
lemma toNat_foldl_turn (bs : Bytes) (s : UInt32) :
    (bs.foldl CRC32C.turn s).toNat =
      (shift crc32cPoly.toNat)^[8 * bs.length] (s.toNat ^^^ number bs) := by
  have hturn : ∀ (crc : UInt32) (b : UInt8), (CRC32C.turn crc b).toNat =
      (shift crc32cPoly.toNat)^[8] (crc.toNat ^^^ b.toNat) := by
    intro crc b
    rw [turn_eq, toNat_iterate_tableTurn, UInt32.toNat_xor, UInt8.toNat_toUInt32]
  have hfold : (bs.foldl CRC32C.turn s).toNat = (bs.map UInt8.toNat).foldl
      (fun s d => (shift crc32cPoly.toNat)^[8] (s ^^^ d)) s.toNat := by
    induction bs generalizing s with
    | nil => rfl
    | cons b bs ih => rw [List.foldl_cons, ih, hturn]; rfl
  rw [hfold, foldl_shift, List.length_map, number]

/-- Messages of one length have the same checksum when their difference is shifted out. -/
lemma calculate_eq_iff_lost {bs bs' : Bytes} (h : bs.length = bs'.length) :
    CRC32C.calculate bs = CRC32C.calculate bs' ↔
      (shift crc32cPoly.toNat)^[8 * bs.length] (number bs ^^^ number bs') = 0 := by
  rw [calculate_eq_iff, ← UInt32.toNat_inj, toNat_foldl_turn, toNat_foldl_turn, ← h,
    iterate_shift_xor _ _ (number bs), iterate_shift_xor _ _ (number bs'), Nat.xor_right_inj,
    iterate_shift_xor, Nat.xor_eq_zero_iff]

/-! ### Lost differences -/

lemma toNat_poly : crc32cPoly.toNat = 0x1EDC6F41 := rfl

/-- What three shifts lose is one of the differences, moved up. -/
lemma exists_of_lost {w : ℕ} (hw : w ≠ 0) (h : (shift crc32cPoly.toNat)^[3] w = 0) :
    ∃ d ∈ lostDifferences, ∃ j, w = d <<< j := by
  simp only [Function.iterate_succ_apply, Function.iterate_zero, id, shift_eq_iff, toNat_poly,
    Nat.reduceXor, Nat.reduceMul, Nat.reduceAdd] at h
  obtain ((rfl | rfl) | rfl | rfl) | (rfl | rfl) | rfl | rfl := h
  · exact absurd rfl hw
  · exact ⟨0x3DB8DE83, by decide, 0, rfl⟩
  · exact ⟨0x3DB8DE83, by decide, 1, rfl⟩
  · exact ⟨0x46C96385, by decide, 0, rfl⟩
  · exact ⟨0x3DB8DE83, by decide, 2, rfl⟩
  · exact ⟨0xCB5BA48F, by decide, 0, rfl⟩
  · exact ⟨0x46C96385, by decide, 1, rfl⟩
  · exact ⟨0xB02A1989, by decide, 0, rfl⟩

lemma lost_of_mem {d : ℕ} (hd : d ∈ lostDifferences) :
    d < 2 ^ 32 ∧ (shift crc32cPoly.toNat)^[3] d = 0 := by
  rw [toNat_poly]
  revert d
  decide

/-- **A difference of 32 bits vanishes** exactly when the first three shifts lose it. -/
lemma lost_iff {w k n : ℕ} (hw : w < 2 ^ 32) (hn : w <<< k < 2 ^ n) :
    (shift crc32cPoly.toNat)^[n] (w <<< k) = 0 ↔ (shift crc32cPoly.toNat)^[3] w = 0 :=
  iterate_shift_eq_zero_iff (m := 28) (by decide) (by decide) (by decide) hw hn

lemma differsByLost_iff (bs bs' : Bytes) : DiffersByLost bs bs' ↔
    ∃ k, ∃ d ∈ lostDifferences, number bs ^^^ number bs' = d <<< k := by
  refine exists_congr fun k => exists_congr fun d => and_congr_right fun _ => ?_
  simp only [← testBit_number, ← Nat.testBit_xor, ← Nat.testBit_shiftLeft]
  exact ⟨Nat.eq_of_testBit_eq, fun h i => by rw [h]⟩

/-- The difference of a burst, as a number. -/
lemma exists_difference {bs bs' : Bytes} (h : Burst bs bs') :
    ∃ k w, w ≠ 0 ∧ w < 2 ^ 32 ∧ number bs ^^^ number bs' = w <<< k := by
  obtain ⟨k, hk⟩ := h.window
  set diff := number bs ^^^ number bs' with hdiff
  have hbit : ∀ i, diff.testBit i = true → k ≤ i ∧ i < k + 32 := by
    intro i hi
    rw [hdiff, Nat.testBit_xor, testBit_number, testBit_number, bne_iff_ne] at hi
    exact hk i hi
  have hshift : diff = (diff >>> k) <<< k := by
    apply Nat.eq_of_testBit_eq
    intro i
    rw [Nat.testBit_shiftLeft, Nat.testBit_shiftRight]
    rcases Nat.lt_or_ge i k with hi | hi
    · rw [decide_eq_false (Nat.not_le.mpr hi), Bool.false_and]
      exact Bool.eq_false_iff.mpr fun htrue => absurd (hbit i htrue).1 (Nat.not_le.mpr hi)
    · rw [decide_eq_true hi, Bool.true_and, Nat.add_sub_cancel' hi]
  refine ⟨k, diff >>> k, fun hzero => h.differ ?_, ?_, hshift⟩
  · rw [hzero, Nat.zero_shiftLeft, hdiff, Nat.xor_eq_zero_iff] at hshift
    have hlen : (bs.map UInt8.toNat).length = (bs'.map UInt8.toNat).length := by
      rw [List.length_map, List.length_map, h.length]
    have heq := eq_of_message_eq (by decide) (fun d hd => toNat_lt_of_mem hd)
      (fun d hd => toNat_lt_of_mem hd) hlen hshift
    exact List.map_injective_iff.mpr (fun _ _ => UInt8.toNat_inj.mp) heq
  · apply Nat.lt_pow_two_of_testBit
    intro i hi
    rw [Nat.testBit_shiftRight]
    refine Bool.eq_false_iff.mpr fun htrue => ?_
    have := (hbit _ htrue).2
    omega

/-- **Which bursts leave the checksum as it is**: those with a lost difference. -/
theorem calculate_eq_iff_differsByLost {bs bs' : Bytes} (h : Burst bs bs') :
    CRC32C.calculate bs = CRC32C.calculate bs' ↔ DiffersByLost bs bs' := by
  have hlt : number bs ^^^ number bs' < 2 ^ (8 * bs.length) :=
    Nat.xor_lt_two_pow (number_lt bs) (h.length ▸ number_lt bs')
  rw [calculate_eq_iff_lost h.length, differsByLost_iff]
  constructor
  · obtain ⟨k, w, hzero, hw, hdiff⟩ := exists_difference h
    rw [hdiff] at hlt ⊢
    intro hlost
    obtain ⟨d, hd, j, rfl⟩ := exists_of_lost hzero ((lost_iff hw hlt).mp hlost)
    exact ⟨j + k, d, hd, (Nat.shiftLeft_add d j k).symm⟩
  · rintro ⟨k, d, hd, hdiff⟩
    obtain ⟨hsmall, hlost⟩ := lost_of_mem hd
    rw [hdiff] at hlt ⊢
    exact (lost_iff hsmall hlt).mpr hlost

/-! ### Rows and images -/

/-- The bytes of an image that its checksum is compared with: zeros in the checksum field. -/
def checked (image : Bytes) : Bytes :=
  image.take 24 ++ (List.replicate 4 0 ++ image.drop 28)

def storedChecksum (image : Bytes) : UInt32 := UInt32.ofNat (word image offsetofChecksum 4)

/-- A page takes the images of its size with the right checksum. -/
lemma deserialize_iff (p : Page) (image : Bytes) : (p.deserialize image).1 = true ↔
    image.length = pageSize ∧ CRC32C.calculate (checked image) = storedChecksum image := by
  obtain ⟨hpage, -, -, -, hoff⟩ := sizes
  by_cases hlen : image.length = pageSize
  · have htemp : ((p.data.write 0 image).set offsetofChecksum 4 0).read 0 pageSize =
        checked image := by
      rw [hoff]
      set temp := (p.data.write 0 image).set 24 4 0 with htemp
      have hall : temp.read 0 pageSize = temp.read 0 24 ++ temp.read 24 8168 :=
        read_append temp 0 24 8168
      have hrest : temp.read 24 8168 = temp.read 24 4 ++ temp.read 28 8164 :=
        read_append temp 24 4 8164
      have hfield : temp.read 24 4 = List.replicate 4 0 :=
        read_write_self _ (show 24 + (toLe 4 0).length ≤ pageSize by decide)
      have htake : (image.drop 28).take 8164 = image.drop 28 :=
        List.take_of_length_le (by rw [List.length_drop]; omega)
      rw [hall, hrest, hfield, htemp, read_set_of_disjoint _ (by omega),
        read_set_of_disjoint _ (by omega), read_write_all _ hlen (by omega),
        read_write_all _ hlen (by omega), List.drop_zero, htake, checked]
    have hstored : UInt32.ofNat ((p.data.write 0 image).get offsetofChecksum 4) =
        storedChecksum image := by
      rw [get_write_all _ hlen (by omega), storedChecksum]
    rw [Page.deserialize, if_neg (not_not.mpr hlen)]
    simp only [htemp, hstored, CRC32C.verify, hlen, true_and, beq_iff_eq]
    split_ifs with hsame
    · exact iff_of_true rfl hsame
    · exact iff_of_false not_false hsame
  · rw [Page.deserialize, if_pos hlen]
    exact iff_of_false Bool.false_ne_true fun h => hlen h.1

/-- The change of a message is detected: the checksums differ, a row changed so is not read,
and an image changed so is not taken. -/
structure Detects (bs bs' : Bytes) : Prop where
  differs : CRC32C.calculate bs ≠ CRC32C.calculate bs'
  readRow : ∀ (p : Page) (slotId : UInt16) (slot : SlotHeader),
    p.slotDirectory[slotId.toNat]? = some slot → slot.checksum = CRC32C.calculate bs →
      p.data.readAt slot.offset.toNat slot.length.toNat = .ok bs' →
        ∀ rowData v, ∃ out, p.readRow slotId rowData v = .ok ((false, out), p)
  deserialize : ∀ (p q : Page) (image image' : Bytes), checked image = bs →
    checked image' = bs' → storedChecksum image = storedChecksum image' →
      (p.deserialize image).1 = true → (q.deserialize image').1 = false

/-- Messages with different checksums are told apart everywhere. -/
lemma detects_of_ne {bs bs' : Bytes} (h : CRC32C.calculate bs ≠ CRC32C.calculate bs') :
    Detects bs bs' := by
  refine ⟨h, fun p slotId slot hslot hsum hrow rowData v => ?_,
    fun p q image image' himage himage' hstored hok => Bool.eq_false_iff.mpr fun hok' => h ?_⟩
  · have hverify : ¬ CRC32C.verify bs' slot.checksum = true := by
      rw [CRC32C.verify, beq_iff_eq, hsum]
      exact h.symm
    rw [Page.readRow, hslot]
    dsimp only
    split_ifs
    · exact ⟨rowData, rfl⟩
    · exact ⟨rowData, rfl⟩
    · rw [hrow, ok_bind, if_neg hverify]
      exact ⟨bs', rfl⟩
  · have hsum := ((deserialize_iff p image).mp hok).2
    have hsum' := ((deserialize_iff q image').mp hok').2
    rw [← himage, ← himage', hsum, hsum', hstored]

/-- **Which bursts are detected**: those that do not differ by a lost difference. -/
theorem detects_iff {bs bs' : Bytes} (h : Burst bs bs') :
    Detects bs bs' ↔ ¬ DiffersByLost bs bs' := by
  rw [← calculate_eq_iff_differsByLost h]
  exact ⟨fun hdetects => hdetects.differs, detects_of_ne⟩

lemma messageBit_of_le {bs : Bytes} {i : ℕ} (h : 8 * bs.length ≤ i) : messageBit bs i = false := by
  rw [messageBit, List.getD_eq_default _ _ (by omega), UInt8.toNat_zero, Nat.zero_testBit]

/-- Any change of up to four bytes is a burst. -/
lemma burst_of_short {bs bs' : Bytes} (hlen : bs.length = bs'.length) (hne : bs ≠ bs')
    (hshort : bs.length ≤ 4) : Burst bs bs' := by
  refine ⟨hlen, hne, 0, fun i hi => ⟨Nat.zero_le i, ?_⟩⟩
  by_contra hge
  refine hi ?_
  rw [messageBit_of_le (by omega), messageBit_of_le (by omega)]

/-- A change of one bit is detected. -/
theorem detects_bit : Detects [0] [1] := by
  have hburst : Burst [0] [1] := burst_of_short rfl (by decide) (by decide)
  refine (detects_iff hburst).mpr ?_
  rw [differsByLost_iff]
  rintro ⟨k, d, hd, hdiff⟩
  have hone : number [0] ^^^ number [1] = 1 := by decide
  have hle : d ≤ 1 := by
    rw [← hone, hdiff, Nat.shiftLeft_eq]
    exact Nat.le_mul_of_pos_right d (Nat.two_pow_pos k)
  have hlarge : ∀ d ∈ lostDifferences, 1 < d := by decide
  exact absurd hle (Nat.not_le.mpr (hlarge d hd))

/-- Four bytes of zeros pass for another four. -/
theorem not_detects_four : ¬ ∀ bs bs', Burst bs bs' → Detects bs bs' := by
  intro h
  have hburst : Burst [0, 0, 0, 0] [0x83, 0xDE, 0xB8, 0x3D] :=
    burst_of_short rfl (by decide) (by decide)
  refine (h _ _ hburst).differs ?_
  rw [calculate_eq_iff_differsByLost hburst, differsByLost_iff]
  exact ⟨0, 0x3DB8DE83, by decide, by decide⟩

end Dbx4.EngineBurst
