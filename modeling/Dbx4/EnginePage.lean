import Dbx4.StorageLayout
import Dbx4.EngineModel

/-!
What a page of the engine does with a row.

A page whose slots and bytes have room stores a row and gives it back. A page fresh from its
constructor has no room: its free offset lies behind 1024 slots of 32 bytes, which the 8192
bytes of the page do not hold.
-/

namespace Dbx4.EnginePage

open Dbx4.Word32 Dbx4.Memory Dbx4.Runs Dbx4.EngineModel
open Dbx4.StorageModel (Row)
open Dbx4.StorageLayout (len_toNat)

lemma sizes : pageSize = 8192 ∧ pageHeaderSize = 512 ∧ maxSlotsPerPage = 1024 ∧
    sizeofPageHeader = 248 ∧ offsetofChecksum = 24 := ⟨rfl, rfl, rfl, rfl, rfl⟩

/-! ### The header -/

lemma numSlots_setFreeOffset (h : PageHeader) (v : UInt16) :
    (h.setFreeOffset v).numSlots = h.numSlots := by
  rw [PageHeader.numSlots, PageHeader.setFreeOffset, get_set_of_disjoint _ (by omega),
    PageHeader.numSlots]

lemma numSlots_setModifiedTimestamp (h : PageHeader) (v : UInt32) :
    (h.setModifiedTimestamp v).numSlots = h.numSlots := by
  rw [PageHeader.numSlots, PageHeader.setModifiedTimestamp, get_set_of_disjoint _ (by omega),
    PageHeader.numSlots]

lemma numSlots_setNumSlots (h : PageHeader) (v : UInt16) : (h.setNumSlots v).numSlots = v := by
  have hsize := sizes.2.2.2.1
  rw [PageHeader.numSlots, PageHeader.setNumSlots, get_set16 _ (by omega)]

/-- The free offset of a fresh page. -/
lemma freeOffset_new (pageNum now : UInt32) : (Page.new pageNum now).header.freeOffset = 33280 := by
  have hsize := sizes.2.2.2.1
  simp (disch := omega) only [Page.new, PageHeader.freeOffset, PageHeader.setNextPage,
    PageHeader.setPrevPage, PageHeader.setFreeOffset, get_set_of_disjoint]
  rw [get_set_self _ (by omega) (by decide)]
  decide

lemma full_iff (p : Page) (row : Row) :
    p.full row = true ↔ 1024 ≤ p.header.numSlots.toNat ∨
      8192 < p.header.freeOffset.toNat + row.bytes.length := by
  obtain ⟨hpage, -, hslots, -⟩ := sizes
  rw [Page.full, Bool.or_eq_true, decide_eq_true_iff, decide_eq_true_iff, len_toNat, hpage, hslots]

/-! ### Rows -/

/-- The slot of a row's new version. -/
def newSlot (p : Page) (row : Row) (txn : UInt64) : SlotHeader :=
  { offset := p.header.freeOffset, length := row.len, creatingTxn := txn, expiringTxn := 0,
    checksum := CRC32C.calculate row.bytes, flags := 0 }

/-- A page with room takes a version, and gives it the next slot. -/
lemma addVersion_of_room {p : Page} {row : Row} (h : ¬ p.full row) (txn : UInt64) (now : UInt32) :
    ∃ p', p.addVersion row txn now = .ok p' ∧
      p'.header.numSlots = p.header.numSlots + 1 ∧
      p'.slotDirectory = p.slotDirectory ++ [newSlot p row txn] ∧
      p'.data = p.data.write p.header.freeOffset.toNat row.bytes := by
  have hpage := sizes.1
  rw [full_iff, not_or] at h
  rw [Page.addVersion, Mem.writeAt, if_pos (by omega), ok_bind]
  refine ⟨_, rfl, ?_, rfl, rfl⟩
  rw [numSlots_setModifiedTimestamp, numSlots_setNumSlots, numSlots_setFreeOffset]

/-- The row goes in, and comes out again from its transaction's version on. -/
def Stores (p : Page) (row : Row) (c : UInt64) (now : UInt32) : Prop :=
  ∃ slot p', p.insertRow row c now = .ok (some slot, p') ∧
    ∀ v, c ≤ v → ∀ rowData, ∃ p'', p'.readRow slot rowData v = .ok ((true, row.bytes), p'')

/-- A full page takes no row. -/
lemma not_stores_of_full {p : Page} {row : Row} (h : p.full row) (c : UInt64) (now : UInt32) :
    ¬ Stores p row c now := by
  rintro ⟨slot, p', hinsert, -⟩
  rw [Page.insertRow, if_pos h] at hinsert
  have hpair := Except.ok.inj hinsert
  cases congrArg Prod.fst hpair

/-- **A page stores a row** exactly when it has room, as long as its directory has as many
slots as its header counts. -/
theorem stores_iff {p : Page} (hdir : p.slotDirectory.length = p.header.numSlots.toNat)
    (row : Row) (c : UInt64) (now : UInt32) : Stores p row c now ↔ ¬ p.full row := by
  refine ⟨fun h hfull => not_stores_of_full hfull c now h, fun h => ?_⟩
  obtain ⟨p', hadd, hnum, hslots, hdata⟩ := addVersion_of_room h c now
  have hpage := sizes.1
  have hroom := h
  rw [full_iff, not_or] at hroom
  have hslot : p'.slotDirectory[(p'.header.numSlots - 1).toNat]? = some (newSlot p row c) := by
    rw [hnum, UInt16.add_sub_cancel, hslots, ← hdir, List.getElem?_concat_length]
  have hread : p'.data.readAt p.header.freeOffset.toNat row.len.toNat = .ok row.bytes := by
    rw [hdata, Mem.readAt, len_toNat, if_pos (by omega), read_write_self _ (by omega)]
  refine ⟨p'.header.numSlots - 1, p', ?_, fun v hv rowData => ?_⟩
  · rw [Page.insertRow, if_neg h, hadd, ok_bind]
    rfl
  · have hcreated : ¬ v < c := UInt64.not_lt.mpr hv
    have hverify : CRC32C.verify row.bytes (CRC32C.calculate row.bytes) = true := by
      rw [CRC32C.verify, beq_self_eq_true]
    simp only [Page.readRow, hslot, newSlot, hcreated, if_false, ne_eq, not_true_eq_false,
      false_and, hread, ok_bind, hverify, if_true]
    exact ⟨_, rfl⟩

lemma full_new (pageNum created : UInt32) (row : Row) : (Page.new pageNum created).full row := by
  rw [full_iff, freeOffset_new]
  right
  have h : (33280 : UInt16).toNat = 33280 := by decide
  omega

/-- **A fresh page stores no row**, of any length, for any transaction and under any number. -/
theorem not_stores_new (pageNum created now : UInt32) (row : Row) (c : UInt64) :
    ¬ Stores (.new pageNum created) row c now :=
  not_stores_of_full (full_new pageNum created row) c now

/-- A row of one byte, in page 1. -/
theorem not_stores_byte :
    ¬ ∀ (pageNum created now : UInt32) (row : Row) (c : UInt64),
      1 ≤ row.bytes.length → row.bytes.length ≤ maxRowSize →
        Stores (.new pageNum created) row c now := by
  intro h
  have hstores := h 1 0 0 ⟨[7], by decide⟩ 1 (by decide) (by decide)
  exact not_stores_of_full (full_new 1 0 _) 1 0 hstores

end Dbx4.EnginePage
