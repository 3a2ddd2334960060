import Mathlib.Algebra.BigOperators.Group.List.Basic
import Mathlib.Algebra.GroupWithZero.Nat
import Mathlib.Order.Interval.Finset.Nat
import Dbx4.Runs
import Dbx4.StorageModel

/-!
How rows lie in a page.

The rows a page has taken lie one behind the other in its payload, and its slots say where.
This holds after any inserts, and goes with the page through its serialized image.
-/

namespace Dbx4.StorageLayout

open Dbx4.Word32 Dbx4.Memory Dbx4.Runs Dbx4.StorageModel

lemma layout : pageSize = 8192 ∧ payloadStart = 2304 ∧ payloadSize = 5888 := ⟨rfl, rfl, rfl⟩

lemma slotAt_eq (i : ℕ) : StoragePage.slotAt i = 256 + 8 * i := rfl

lemma numSlots_toNat (p : StoragePage) : p.numSlots.toNat = p.data.get 8 2 :=
  toNat_get16 p.data 8

lemma freeOffset_toNat (p : StoragePage) : p.freeOffset.toNat = p.data.get 10 2 :=
  toNat_get16 p.data 10

lemma len_toNat (row : Row) : row.len.toNat = row.bytes.length := by
  rw [Row.len, UInt16.toNat_ofNat', Nat.mod_eq_of_lt row.fits]

/-- The bytes of the rows together. -/
def total (rows : List Row) : ℕ := (rows.map fun row => row.bytes.length).sum

lemma total_append (rows rows' : List Row) :
    total (rows ++ rows') = total rows + total rows' := by simp [total]

lemma total_singleton (row : Row) : total [row] = row.bytes.length := by simp [total]

lemma total_take_succ {rows : List Row} {i : ℕ} (h : i < rows.length) :
    total (rows.take (i + 1)) = total (rows.take i) + rows[i].bytes.length := by
  rw [List.take_succ_eq_append_getElem h, total_append, total_singleton]

lemma total_take_le {rows : List Row} {i j : ℕ} (h : i ≤ j) :
    total (rows.take i) ≤ total (rows.take j) := by
  obtain ⟨k, rfl⟩ := Nat.exists_eq_add_of_le h
  rw [List.take_add, total_append]
  omega

lemma total_take_le_total (rows : List Row) (i : ℕ) : total (rows.take i) ≤ total rows := by
  have hsplit := total_append (rows.take i) (rows.drop i)
  rw [List.take_append_drop] at hsplit
  omega

/-- The page holds the rows, one behind the other in the order they were taken. -/
structure Holds (p : StoragePage) (rows : List Row) : Prop where
  numSlots : p.data.get 8 2 = rows.length
  freeOffset : p.data.get 10 2 = total rows
  offset : ∀ i < rows.length, p.data.get (256 + 8 * i) 4 = total (rows.take i)
  length : ∀ (i : ℕ) (h : i < rows.length), p.data.get (256 + 8 * i + 4) 2 = rows[i].bytes.length
  payload : ∀ (i : ℕ) (h : i < rows.length),
    p.data.read (2304 + total (rows.take i)) rows[i].bytes.length = rows[i].bytes
  few : rows.length ≤ 256
  fits : total rows ≤ 5888

lemma holds_new (pageNum : UInt32) : Holds (.new pageNum) [] := by
  have hpage := layout.1
  refine ⟨?_, ?_, by simp, by simp, by simp, by simp, by simp [total]⟩
  -- the two counters are written once, and nothing is written over them
  all_goals
    simp (disch := omega) only [StoragePage.new, StoragePage.setPageNum, StoragePage.setPageType,
      StoragePage.setNumSlots, StoragePage.setFreeOffset, StoragePage.setChecksum,
      get_set_of_disjoint]
    exact get_set_self _ (by omega) (by simp)

/-- The checksum field is no part of what a page holds. -/
lemma holds_setChecksum {p : StoragePage} {rows : List Row} (h : Holds p rows) (v : UInt32) :
    Holds (p.setChecksum v) rows := by
  obtain ⟨hnum, hfree, hoff, hlen, hpay, hfew, hfits⟩ := h
  refine ⟨?_, ?_, fun i hi => ?_, fun i hi => ?_, fun i hi => ?_, hfew, hfits⟩
  · exact (get_set_of_disjoint _ (by omega)).trans hnum
  · exact (get_set_of_disjoint _ (by omega)).trans hfree
  · exact (get_set_of_disjoint _ (by omega)).trans (hoff i hi)
  · exact (get_set_of_disjoint _ (by omega)).trans (hlen i hi)
  · exact (read_set_of_disjoint _ (by omega)).trans (hpay i hi)

/-! ### The image of a page -/

/-- The checksum leaves out its own field. -/
lemma computeChecksum_setChecksum (p : StoragePage) (v : UInt32) :
    (p.setChecksum v).computeChecksum = p.computeChecksum := by
  unfold StoragePage.computeChecksum
  refine List.foldl_ext _ _ _ fun sum i _ => ?_
  by_cases hi : 12 ≤ i ∧ i < 12 + 4
  · simp [StoragePage.checksumTurn, hi]
  · have hbyte : (p.setChecksum v).data.byte i = p.data.byte i := by
      rw [StoragePage.setChecksum, Mem.set, byte_write, toLe_length, if_neg (by omega)]
    rw [StoragePage.checksumTurn, StoragePage.checksumTurn, hbyte]

lemma checksum_setChecksum (p : StoragePage) (v : UInt32) : (p.setChecksum v).checksum = v := by
  have hpage := layout.1
  rw [StoragePage.checksum, StoragePage.setChecksum, get_set32 _ (by omega)]

/-- The page behind `serialize`. -/
def sealed (p : StoragePage) : StoragePage := (p.setChecksum 0).setChecksum p.computeChecksum

lemma serialize_eq (p : StoragePage) :
    p.serialize = ((sealed p).data.read 0 pageSize, sealed p) := by
  simp only [StoragePage.serialize, computeChecksum_setChecksum, sealed]

/-- **An image is taken back**: the page that reads it verifies, and has the bytes of the page
that wrote it, but for the checksum field. -/
lemma deserialize_serialize (p q : StoragePage) :
    q.deserialize p.serialize.1 = (true, (sealed p).setChecksum 0) := by
  have himage : p.serialize.1 = (sealed p).data.read 0 pageSize := by rw [serialize_eq]
  have hpage : (⟨q.data.write 0 p.serialize.1⟩ : StoragePage) = sealed p := by
    rw [himage, write_read_all]
  have hlen : ¬ p.serialize.1.length ≠ pageSize := by rw [himage, length_read]; simp
  have hsealed : (sealed p).checksum = ((sealed p).setChecksum 0).computeChecksum := by
    rw [computeChecksum_setChecksum, sealed, checksum_setChecksum, computeChecksum_setChecksum,
      computeChecksum_setChecksum]
  simp only [StoragePage.deserialize, if_neg hlen, hpage, hsealed, beq_self_eq_true]

lemma holds_serialize {p : StoragePage} {rows : List Row} (h : Holds p rows) :
    Holds p.serialize.2 rows := by
  rw [serialize_eq, sealed]
  exact holds_setChecksum (holds_setChecksum h 0) _

lemma holds_deserialize {p : StoragePage} {rows : List Row} (h : Holds p rows)
    (q : StoragePage) : Holds (q.deserialize p.serialize.1).2 rows := by
  rw [deserialize_serialize, sealed]
  exact holds_setChecksum (holds_setChecksum (holds_setChecksum h 0) _) 0

/-! ### Inserts -/

lemma holds_header {p : StoragePage} {rows : List Row} (h : Holds p rows) :
    p.numSlots.toNat = rows.length ∧ p.freeOffset.toNat = total rows :=
  ⟨(numSlots_toNat p).trans h.numSlots, (freeOffset_toNat p).trans h.freeOffset⟩

/-! The pieces of an insert, and what they leave of the header. -/

def withSlot (p : StoragePage) (i : ℕ) (s : SlotHeader) : StoragePage :=
  ⟨((p.data.set (256 + 8 * i) 4 s.offset.toNat).set (256 + 8 * i + 4) 2 s.length.toNat).set
    (256 + 8 * i + 6) 2 s.reserved.toNat⟩

def withPayload (p : StoragePage) (offset : ℕ) (bs : Bytes) : StoragePage :=
  ⟨p.data.write (2304 + offset) bs⟩

lemma setSlot_of_lt (p : StoragePage) {i : ℕ} (h : i < 256) (s : SlotHeader) :
    p.setSlot i s = .ok (withSlot p i s) := by
  have hpage := layout.1
  unfold StoragePage.setSlot
  rw [if_pos]
  · simp only [slotAt_eq, withSlot]
  · rw [slotAt_eq]
    omega

lemma writePayload_of_le (p : StoragePage) {offset : ℕ} {bs : Bytes}
    (h : offset + bs.length ≤ 5888) :
    p.writePayload offset bs = .ok (withPayload p offset bs) := by
  obtain ⟨hpage, hstart, -⟩ := layout
  rw [StoragePage.writePayload, Mem.writeAt, if_pos (by omega), hstart]
  rfl

lemma freeOffset_withSlot (p : StoragePage) (i : ℕ) (s : SlotHeader) :
    (withSlot p i s).freeOffset = p.freeOffset := by
  simp (disch := omega) only [StoragePage.freeOffset, withSlot, get_set_of_disjoint]

lemma freeOffset_withPayload (p : StoragePage) (offset : ℕ) (bs : Bytes) :
    (withPayload p offset bs).freeOffset = p.freeOffset := by
  simp (disch := omega) only [StoragePage.freeOffset, withPayload, get_write_of_disjoint]

lemma numSlots_pieces (p : StoragePage) (i : ℕ) (s : SlotHeader) (offset : ℕ) (bs : Bytes)
    (free : UInt16) :
    ((withPayload (withSlot p i s) offset bs).setFreeOffset free).numSlots = p.numSlots := by
  simp (disch := omega) only [StoragePage.numSlots, StoragePage.setFreeOffset, withPayload,
    withSlot, get_write_of_disjoint, get_set_of_disjoint]

lemma slot_of_lt (p : StoragePage) {i : ℕ} (h : i < 256) :
    p.slot i = .ok ⟨UInt32.ofNat (p.data.get (256 + 8 * i) 4),
      UInt16.ofNat (p.data.get (256 + 8 * i + 4) 2),
      UInt16.ofNat (p.data.get (256 + 8 * i + 6) 2)⟩ := by
  have hpage := layout.1
  unfold StoragePage.slot
  rw [if_pos]
  · simp only [slotAt_eq]
  · rw [slotAt_eq]
    omega

/-- The page behind an insert that was taken. -/
def afterInsert (p : StoragePage) (row : Row) : StoragePage :=
  ((withPayload (withSlot p p.numSlots.toNat ⟨p.freeOffset.toUInt32, row.len, 0⟩)
    p.freeOffset.toNat row.bytes).setFreeOffset (p.freeOffset + row.len)).setNumSlots
      (p.numSlots + 1)

/-- **An insert of any page**: it is taken when slots and payload have room, and then touches
only the page. -/
theorem insertRow_eq (p : StoragePage) (row : Row) :
    p.insertRow row =
      if p.numSlots.toNat < 256 ∧ p.freeOffset.toNat + row.bytes.length ≤ 5888 then
        .ok (true, afterInsert p row)
      else .ok (false, p) := by
  obtain ⟨-, -, hsize⟩ := layout
  have hlen := len_toNat row
  have hfew : 256 ≤ p.numSlots ↔ 256 ≤ p.numSlots.toNat := UInt16.le_iff_toNat_le
  unfold StoragePage.insertRow
  by_cases hslots : p.numSlots.toNat < 256
  · rw [if_neg (hfew.not.mpr (by omega))]
    by_cases hroom : p.freeOffset.toNat + row.bytes.length ≤ 5888
    · rw [if_neg (by omega), if_pos ⟨hslots, hroom⟩, setSlot_of_lt p hslots, ok_bind,
        freeOffset_withSlot, writePayload_of_le _ hroom, ok_bind]
      simp only [freeOffset_withPayload, freeOffset_withSlot, numSlots_pieces, afterInsert, pure,
        Except.pure]
    · rw [if_pos (by omega), if_neg (by omega)]
  · rw [if_pos (hfew.mpr (by omega)), if_neg (by omega)]

lemma freeOffset_add {p : StoragePage} {row : Row}
    (h : p.freeOffset.toNat + row.bytes.length ≤ 5888) :
    (p.freeOffset + row.len).toNat = p.freeOffset.toNat + row.bytes.length := by
  rw [UInt16.toNat_add, len_toNat, Nat.mod_eq_of_lt (by omega)]

lemma numSlots_succ {p : StoragePage} (h : p.numSlots.toNat < 256) :
    (p.numSlots + 1).toNat = p.numSlots.toNat + 1 := by
  rw [UInt16.toNat_add, UInt16.toNat_one, Nat.mod_eq_of_lt (by omega)]

/-- The bytes of a page behind an insert. -/
lemma data_afterInsert {p : StoragePage} {row : Row} (hslots : p.numSlots.toNat < 256)
    (hroom : p.freeOffset.toNat + row.bytes.length ≤ 5888) :
    (afterInsert p row).data =
      (((((p.data.set (256 + 8 * p.numSlots.toNat) 4 p.freeOffset.toNat).set
        (256 + 8 * p.numSlots.toNat + 4) 2 row.bytes.length).set
          (256 + 8 * p.numSlots.toNat + 6) 2 0).write (2304 + p.freeOffset.toNat)
            row.bytes).set 10 2 (p.freeOffset.toNat + row.bytes.length)).set
              8 2 (p.numSlots.toNat + 1) := by
  simp only [afterInsert, withSlot, withPayload, StoragePage.setFreeOffset,
    StoragePage.setNumSlots, freeOffset_add hroom, numSlots_succ hslots, len_toNat,
    UInt16.toNat_toUInt32, UInt16.toNat_zero]

/-- The same in terms of the page's own bytes. -/
lemma data_afterInsert_get {p : StoragePage} {row : Row} (hslots : p.data.get 8 2 < 256)
    (hroom : p.data.get 10 2 + row.bytes.length ≤ 5888) :
    (afterInsert p row).data =
      (((((p.data.set (256 + 8 * p.data.get 8 2) 4 (p.data.get 10 2)).set
        (256 + 8 * p.data.get 8 2 + 4) 2 row.bytes.length).set
          (256 + 8 * p.data.get 8 2 + 6) 2 0).write (2304 + p.data.get 10 2)
            row.bytes).set 10 2 (p.data.get 10 2 + row.bytes.length)).set
              8 2 (p.data.get 8 2 + 1) := by
  rw [← numSlots_toNat] at hslots
  rw [← freeOffset_toNat] at hroom
  rw [← numSlots_toNat, ← freeOffset_toNat, data_afterInsert hslots hroom]

lemma header_afterInsert {p : StoragePage} {row : Row} (hslots : p.data.get 8 2 < 256)
    (hroom : p.data.get 10 2 + row.bytes.length ≤ 5888) :
    (afterInsert p row).data.get 8 2 = p.data.get 8 2 + 1 ∧
      (afterInsert p row).data.get 10 2 = p.data.get 10 2 + row.bytes.length := by
  have hpage := layout.1
  rw [data_afterInsert_get hslots hroom]
  constructor
  · rw [get_set_self _ (by omega) (by omega)]
  · rw [get_set_of_disjoint _ (by omega), get_set_self _ (by omega) (by omega)]

/-- The slots behind an insert: those of the page, and the one of the row. -/
lemma slots_afterInsert {p : StoragePage} {row : Row} {i : ℕ} (hslots : p.data.get 8 2 < 256)
    (hroom : p.data.get 10 2 + row.bytes.length ≤ 5888) (hi : i < p.data.get 8 2 + 1) :
    (afterInsert p row).data.get (256 + 8 * i) 4 =
        (if i < p.data.get 8 2 then p.data.get (256 + 8 * i) 4 else p.data.get 10 2) ∧
      (afterInsert p row).data.get (256 + 8 * i + 4) 2 =
        (if i < p.data.get 8 2 then p.data.get (256 + 8 * i + 4) 2 else row.bytes.length) := by
  have hpage := layout.1
  have hrow := row.fits
  have hfree := get_lt p.data 10 2
  rw [data_afterInsert_get hslots hroom]
  constructor
  · rw [get_set_of_disjoint _ (by omega), get_set_of_disjoint _ (by omega),
      get_write_of_disjoint _ (by omega), get_set_of_disjoint _ (by omega),
      get_set_of_disjoint _ (by omega)]
    split_ifs with hlt
    · rw [get_set_of_disjoint _ (by omega)]
    · obtain rfl : i = p.data.get 8 2 := by omega
      rw [get_set_self _ (by omega) (by omega)]
  · rw [get_set_of_disjoint _ (by omega), get_set_of_disjoint _ (by omega),
      get_write_of_disjoint _ (by omega), get_set_of_disjoint _ (by omega)]
    split_ifs with hlt
    · rw [get_set_of_disjoint _ (by omega), get_set_of_disjoint _ (by omega)]
    · obtain rfl : i = p.data.get 8 2 := by omega
      rw [get_set_self _ (by omega) (by omega)]

/-- The payload behind an insert: what lies below the free offset, and the row above it. -/
lemma payload_afterInsert {p : StoragePage} {row : Row} (hslots : p.data.get 8 2 < 256)
    (hroom : p.data.get 10 2 + row.bytes.length ≤ 5888) :
    (∀ off len, off + len ≤ p.data.get 10 2 →
      (afterInsert p row).data.read (2304 + off) len = p.data.read (2304 + off) len) ∧
    (afterInsert p row).data.read (2304 + p.data.get 10 2) row.bytes.length = row.bytes := by
  have hpage := layout.1
  rw [data_afterInsert_get hslots hroom]
  constructor
  · intro off len hle
    rw [read_set_of_disjoint _ (by omega), read_set_of_disjoint _ (by omega),
      read_write_of_disjoint _ (by omega), read_set_of_disjoint _ (by omega),
      read_set_of_disjoint _ (by omega), read_set_of_disjoint _ (by omega)]
  · rw [read_set_of_disjoint _ (by omega), read_set_of_disjoint _ (by omega),
      read_write_self _ (by omega)]

/-- A page that takes a row holds it behind its rows. -/
lemma holds_afterInsert {p : StoragePage} {rows : List Row} (h : Holds p rows) {row : Row}
    (hroom : rows.length < 256 ∧ total rows + row.bytes.length ≤ 5888) :
    Holds (afterInsert p row) (rows ++ [row]) := by
  obtain ⟨hnum, hfree, hoff, hlen, hpay, hfew, hfits⟩ := h
  rw [← hnum, ← hfree] at hroom
  obtain ⟨hslots, hbytes⟩ := hroom
  obtain ⟨hnum', hfree'⟩ := header_afterInsert hslots hbytes
  obtain ⟨hbelow, hrow⟩ := payload_afterInsert hslots hbytes
  have htotal : total (rows ++ [row]) = total rows + row.bytes.length := by
    rw [total_append, total_singleton]
  have hlength : (rows ++ [row]).length = rows.length + 1 := List.length_append
  have hbefore : ∀ i < rows.length + 1, (rows ++ [row]).take i = rows.take i :=
    fun i hi => List.take_append_of_le_length (by omega)
  refine ⟨by omega, by omega, fun i hi => ?_, fun i hi => ?_, fun i hi => ?_, by omega, by omega⟩
  · rw [hlength] at hi
    rw [(slots_afterInsert hslots hbytes (by omega)).1, hbefore i hi, hnum]
    split_ifs with hlt
    · exact hoff i hlt
    · obtain rfl : i = rows.length := by omega
      rw [hfree, List.take_length]
  · rw [hlength] at hi
    rw [(slots_afterInsert hslots hbytes (by omega)).2, hnum]
    split_ifs with hlt
    · rw [hlen i hlt, List.getElem_append_left hlt]
    · obtain rfl : i = rows.length := by omega
      rw [List.getElem_concat_length rfl]
  · rw [hlength] at hi
    rw [hbefore i hi]
    rcases Nat.lt_or_ge i rows.length with hlt | hge
    · have hend := total_take_succ hlt
      have hle := total_take_le_total rows (i + 1)
      rw [List.getElem_append_left hlt, hbelow _ _ (by omega), hpay i hlt]
    · obtain rfl : i = rows.length := by omega
      rw [List.getElem_concat_length rfl, List.take_length, ← hfree, hrow]

/-! ### Reads -/

/-- The bytes of the page in which the row of a slot lies. -/
def cells (s : SlotHeader) : Finset ℕ :=
  Finset.Ico (payloadStart + s.offset.toNat) (payloadStart + s.offset.toNat + s.length.toNat)

/-- The slot of a row. -/
lemma slot_of_holds {p : StoragePage} {rows : List Row} (h : Holds p rows) {i : ℕ}
    (hi : i < rows.length) :
    ∃ s, p.slot i = .ok s ∧ s.offset.toNat = total (rows.take i) ∧
      s.length.toNat = rows[i].bytes.length := by
  have hfew := h.few
  have hfits := h.fits
  have hle := total_take_le_total rows i
  have hrow := rows[i].fits
  refine ⟨_, slot_of_lt p (by omega), ?_, ?_⟩
  · rw [toNat_get32, h.offset i hi]
  · rw [toNat_get16, h.length i hi]

lemma readRow_of_holds {p : StoragePage} {rows : List Row} (h : Holds p rows) (i : UInt16) :
    p.readRow i = .ok (rows[i.toNat]?.map Row.bytes) := by
  obtain ⟨hpage, hstart, -⟩ := layout
  have hnum := (holds_header h).1
  have hbound : p.numSlots ≤ i ↔ rows.length ≤ i.toNat := by rw [UInt16.le_iff_toNat_le, hnum]
  rw [StoragePage.readRow]
  rcases Nat.lt_or_ge i.toNat rows.length with hi | hi
  · obtain ⟨s, hs, hoff, hlen⟩ := slot_of_holds h hi
    have hend := total_take_succ hi
    have hle := total_take_le_total rows (i.toNat + 1)
    have hfits := h.fits
    rw [if_neg (hbound.not.mpr (by omega)), hs, ok_bind, StoragePage.readPayload, Mem.readAt,
      if_pos (by omega), ok_bind, hoff, hlen, hstart, h.payload _ hi,
      List.getElem?_eq_getElem hi]
    rfl
  · rw [if_pos (hbound.mpr hi), List.getElem?_eq_none hi]
    rfl

/-! ### Runs -/

inductive Op
  | insertRow (row : Row)
  | serialize
  /-- The page goes on in another one, through its image. -/
  | move (q : StoragePage)

/-- A page, and the rows it has taken. -/
structure Filling where
  page : StoragePage
  taken : List Row

def step (s : Filling) : Op → Except Fault Filling
  | .insertRow row => do
    let (taken, page) ← s.page.insertRow row
    return ⟨page, if taken then s.taken ++ [row] else s.taken⟩
  | .serialize => .ok ⟨s.page.serialize.2, s.taken⟩
  | .move q => .ok ⟨(q.deserialize s.page.serialize.1).2, s.taken⟩

/-- A page does what its rows ask for. -/
structure Correct (p : StoragePage) (rows : List Row) : Prop where
  inserted : ∀ row, ∃ p', p.insertRow row =
    .ok (decide (rows.length < 256 ∧ total rows + row.bytes.length ≤ 5888), p')
  freeOffset : p.freeOffset.toNat = total rows
  inside : ∀ i < rows.length, ∃ s, p.slot i = .ok s ∧ cells s ⊆ Finset.Ico 2304 8192
  disjoint : ∀ i j s t, i < j → j < rows.length → p.slot i = .ok s → p.slot j = .ok t →
    Disjoint (cells s) (cells t)
  moved : ∀ q : StoragePage, (q.deserialize p.serialize.1).1 = true
  read : ∀ i, p.readRow i = .ok (rows[i.toNat]?.map Row.bytes)

lemma correct_of_holds {p : StoragePage} {rows : List Row} (h : Holds p rows) :
    Correct p rows := by
  have hstart := layout.2.1
  obtain ⟨hnum, hfree⟩ := holds_header h
  refine ⟨fun row => ?_, hfree, fun i hi => ?_, fun i j s t hij hj hs ht => ?_, fun q => ?_,
    readRow_of_holds h⟩
  · rw [insertRow_eq, hnum, hfree]
    split_ifs with hroom
    · exact ⟨_, by rw [decide_eq_true hroom]⟩
    · exact ⟨_, by rw [decide_eq_false hroom]⟩
  · obtain ⟨s, hs, hoff, hlen⟩ := slot_of_holds h hi
    have hend := total_take_succ hi
    have hle := total_take_le_total rows (i + 1)
    have hfits := h.fits
    refine ⟨s, hs, Finset.Ico_subset_Ico (by omega) (by omega)⟩
  · obtain ⟨s', hs', hoff, hlen⟩ := slot_of_holds h (show i < rows.length by omega)
    obtain ⟨t', ht', hoff', hlen'⟩ := slot_of_holds h hj
    obtain rfl : s = s' := Except.ok.inj (hs.symm.trans hs')
    obtain rfl : t = t' := Except.ok.inj (ht.symm.trans ht')
    have hend := total_take_succ (show i < rows.length by omega)
    have hle : total (rows.take (i + 1)) ≤ total (rows.take j) := total_take_le (by omega)
    rw [Finset.disjoint_left]
    intro x hx hx'
    rw [cells, Finset.mem_Ico] at hx hx'
    omega
  · rw [deserialize_serialize]

/-- A step that leaves a page with its rows. -/
lemma exists_filling {page : StoragePage} {rows : List Row} (h : Holds page rows) :
    ∃ s' : Filling, (Except.ok ⟨page, rows⟩ : Except Fault Filling) = .ok s' ∧
      Holds s'.page s'.taken :=
  ⟨⟨page, rows⟩, rfl, h⟩

lemma holds_step {s : Filling} (h : Holds s.page s.taken) (op : Op) :
    ∃ s', step s op = .ok s' ∧ Holds s'.page s'.taken := by
  cases op with
  | insertRow row =>
    obtain ⟨hnum, hfree⟩ := holds_header h
    rw [step, insertRow_eq, hnum, hfree]
    split_ifs with hroom
    · exact exists_filling (holds_afterInsert h hroom)
    · exact exists_filling h
  | serialize =>
    rw [step]
    exact exists_filling (holds_serialize h)
  | move q =>
    rw [step]
    exact exists_filling (holds_deserialize h q)

/-- **A page keeps its rows**: whatever is inserted, serialized and moved, no call leaves the
page, and the page does what the rows it has taken ask for. -/
theorem correct_run (pageNum : UInt32) (ops : List Op) :
    ∃ s, ops.foldlM step ⟨.new pageNum, []⟩ = .ok s ∧ Correct s.page s.taken := by
  have hnew : Holds (Filling.page ⟨.new pageNum, []⟩) (Filling.taken ⟨.new pageNum, []⟩) :=
    holds_new pageNum
  obtain ⟨s, hs, h⟩ := foldlM_inv (P := fun s : Filling => Holds s.page s.taken)
    (fun s op h => holds_step h op) hnew ops
  exact ⟨s, hs, correct_of_holds h⟩

end Dbx4.StorageLayout
