import Mathlib.Logic.Function.Iterate
import Dbx4.StorageModel

/-!
The page of `storage_engine_production.cpp`: a header, a directory of slots beside it, and 8192
bytes of data. The checksums are CRC32C, by table.

The header lies in memory as the structure `PageHeader` does, 248 bytes of it:

    0     page_num, page_type, num_slots, free_offset
    12    created_timestamp, modified_timestamp, lsn, checksum
    32    prev_page, next_page, reserved

A slot of the directory takes 32 bytes. The clock `time(nullptr)` is passed to the calls that
read it.
-/

namespace Dbx4.EngineModel

open Dbx4.Word32 Dbx4.Memory
open Dbx4.StorageModel (Row)

def pageSize : ℕ := 8192
def pageHeaderSize : ℕ := 512
def maxSlotsPerPage : ℕ := 1024
def maxRowSize : ℕ := pageSize - 1024
def crc32cPoly : UInt32 := 0x1EDC6F41

def sizeofPageHeader : ℕ := 248
def sizeofSlotHeader : ℕ := 32
def offsetofChecksum : ℕ := 24

/-! ### CRC32C -/

namespace CRC32C

/-- One turn of the inner loop that fills the table. -/
def tableTurn (crc : UInt32) : UInt32 :=
  if crc &&& 1 ≠ 0 then (crc >>> 1) ^^^ crc32cPoly else crc >>> 1

def table (i : UInt32) : UInt32 := tableTurn^[8] i

def turn (crc : UInt32) (b : UInt8) : UInt32 :=
  table ((crc ^^^ b.toUInt32) &&& 0xFF) ^^^ (crc >>> 8)

@[irreducible] def calculate (data : Bytes) : UInt32 := data.foldl turn 0xFFFFFFFF ^^^ 0xFFFFFFFF

def verify (data : Bytes) (expected : UInt32) : Bool := calculate data == expected

end CRC32C

/-! ### Headers -/

structure PageHeader where
  bytes : Mem sizeofPageHeader

namespace PageHeader

def numSlots (h : PageHeader) : UInt16 := UInt16.ofNat (h.bytes.get 8 2)
def freeOffset (h : PageHeader) : UInt16 := UInt16.ofNat (h.bytes.get 10 2)
def createdTimestamp (h : PageHeader) : UInt32 := UInt32.ofNat (h.bytes.get 12 4)
def checksum (h : PageHeader) : UInt32 := UInt32.ofNat (h.bytes.get offsetofChecksum 4)

def setPageNum (h : PageHeader) (v : UInt32) : PageHeader := ⟨h.bytes.set 0 4 v.toNat⟩
def setPageType (h : PageHeader) (v : UInt32) : PageHeader := ⟨h.bytes.set 4 4 v.toNat⟩
def setNumSlots (h : PageHeader) (v : UInt16) : PageHeader := ⟨h.bytes.set 8 2 v.toNat⟩
def setFreeOffset (h : PageHeader) (v : UInt16) : PageHeader := ⟨h.bytes.set 10 2 v.toNat⟩
def setCreatedTimestamp (h : PageHeader) (v : UInt32) : PageHeader := ⟨h.bytes.set 12 4 v.toNat⟩
def setModifiedTimestamp (h : PageHeader) (v : UInt32) : PageHeader := ⟨h.bytes.set 16 4 v.toNat⟩
def setChecksum (h : PageHeader) (v : UInt32) : PageHeader :=
  ⟨h.bytes.set offsetofChecksum 4 v.toNat⟩
def setPrevPage (h : PageHeader) (v : UInt64) : PageHeader := ⟨h.bytes.set 32 8 v.toNat⟩
def setNextPage (h : PageHeader) (v : UInt64) : PageHeader := ⟨h.bytes.set 40 8 v.toNat⟩

end PageHeader

structure SlotHeader where
  offset : UInt16
  length : UInt16
  creatingTxn : UInt64
  expiringTxn : UInt64
  checksum : UInt32
  flags : UInt16

/-! ### Pages -/

structure Page where
  pageNum : UInt32
  header : PageHeader
  slotDirectory : List SlotHeader
  data : Mem pageSize
  isDirty : Bool
  accessCount : UInt64

namespace Page

def new (pageNum now : UInt32) : Page :=
  let header : PageHeader := ⟨Vector.replicate sizeofPageHeader 0⟩
  let header := header.setPageNum pageNum
  let header := header.setPageType 1
  let header := header.setCreatedTimestamp now
  let header := header.setModifiedTimestamp header.createdTimestamp
  let header := header.setFreeOffset
    (UInt16.ofNat (pageHeaderSize + maxSlotsPerPage * sizeofSlotHeader))
  let header := header.setPrevPage 0
  let header := header.setNextPage 0
  { pageNum, header, slotDirectory := [], data := Vector.replicate pageSize 0, isDirty := false,
    accessCount := 0 }

/-- No room for another row of this length. -/
def full (p : Page) (row : Row) : Bool :=
  decide (maxSlotsPerPage ≤ p.header.numSlots.toNat) ||
    decide (pageSize < p.header.freeOffset.toNat + row.len.toNat)

/-- What `insert_row` and `update_row` do with the new version of a row. -/
def addVersion (p : Page) (row : Row) (creatingTxn : UInt64) (now : UInt32) :
    Except Fault Page := do
  let slot : SlotHeader :=
    { offset := p.header.freeOffset, length := row.len, creatingTxn, expiringTxn := 0,
      checksum := CRC32C.calculate row.bytes, flags := 0 }
  let data ← p.data.writeAt p.header.freeOffset.toNat row.bytes
  let header := p.header.setFreeOffset (p.header.freeOffset + row.len)
  let header := header.setNumSlots (header.numSlots + 1)
  let header := header.setModifiedTimestamp now
  return { p with
    header, slotDirectory := p.slotDirectory ++ [slot], data, isDirty := true,
    accessCount := p.accessCount + 1 }

/-- The slot the row was given, when it was taken. -/
def insertRow (p : Page) (row : Row) (creatingTxn : UInt64) (now : UInt32) :
    Except Fault (Option UInt16 × Page) :=
  if p.full row then .ok (none, p)
  else do
    let p ← p.addVersion row creatingTxn now
    return (some (p.header.numSlots - 1), p)

/-- What is returned, the row as the caller's vector has it behind the call, and the page. -/
def readRow (p : Page) (slotId : UInt16) (rowData : Bytes) (readVersion : UInt64) :
    Except Fault ((Bool × Bytes) × Page) :=
  match p.slotDirectory[slotId.toNat]? with
  | none => .ok ((false, rowData), p)
  | some slot =>
    if readVersion < slot.creatingTxn then .ok ((false, rowData), p)
    else if slot.expiringTxn ≠ 0 ∧ slot.expiringTxn ≤ readVersion then .ok ((false, rowData), p)
    else do
      let rowData ← p.data.readAt slot.offset.toNat slot.length.toNat
      if CRC32C.verify rowData slot.checksum then
        return ((true, rowData), { p with accessCount := p.accessCount + 1 })
      else return ((false, rowData), p)

/-- A slot with the transaction from which on its version is gone. -/
def expire (p : Page) (slotId : UInt16) (txn : UInt64) : Page :=
  { p with
    slotDirectory := p.slotDirectory.modify slotId.toNat fun s => { s with expiringTxn := txn } }

def deleteRow (p : Page) (slotId : UInt16) (deletingTxn : UInt64) (now : UInt32) : Bool × Page :=
  if p.slotDirectory.length ≤ slotId.toNat then (false, p)
  else
    let p := p.expire slotId deletingTxn
    (true, { p with
      header := p.header.setModifiedTimestamp now, isDirty := true,
      accessCount := p.accessCount + 1 })

def updateRow (p : Page) (slotId : UInt16) (row : Row) (updatingTxn : UInt64) (now : UInt32) :
    Except Fault (Bool × Page) :=
  if p.slotDirectory.length ≤ slotId.toNat then .ok (false, p)
  else if p.full row then .ok (false, p)
  else do
    let p ← (p.expire slotId updatingTxn).addVersion row updatingTxn now
    return (true, p)

def serialize (p : Page) : Bytes × Page :=
  let serialized : Mem pageSize := Vector.replicate pageSize 0
  let serialized := serialized.write 0 (p.header.bytes.read 0 sizeofPageHeader)
  let serialized := serialized.write pageHeaderSize
    (p.data.read pageHeaderSize (pageSize - pageHeaderSize))
  let header := p.header.setChecksum (CRC32C.calculate (serialized.read 0 (pageSize - 4)))
  let serialized := serialized.set offsetofChecksum 4 header.checksum.toNat
  (serialized.read 0 pageSize, { p with header })

def deserialize (p : Page) (data : Bytes) : Bool × Page :=
  if data.length ≠ pageSize then (false, p)
  else
    let copy : Mem pageSize := p.data.write 0 data
    let storedChecksum := UInt32.ofNat (copy.get offsetofChecksum 4)
    let tempData := copy.set offsetofChecksum 4 0
    if CRC32C.verify (tempData.read 0 pageSize) storedChecksum then
      (true, { p with
        header := ⟨p.header.bytes.write 0 (copy.read 0 sizeofPageHeader)⟩, data := copy,
        isDirty := false })
    else (false, p)

def markClean (p : Page) : Page := { p with isDirty := false }

end Page

end Dbx4.EngineModel
