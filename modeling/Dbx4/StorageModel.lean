import Dbx4.Memory

/-!
The page of `storage_complete.cpp`: 8192 bytes that hold a header, an array of slots and the
rows.

    0     page_num, page_type, num_slots, free_offset, checksum
    256   slots of eight bytes: offset in the payload, length, reserved
    2304  payload
-/

namespace Dbx4.StorageModel

open Dbx4.Word32 Dbx4.Memory

def pageSize : ℕ := 8192
def headerSize : ℕ := 256
def slotAreaSize : ℕ := 2048
def payloadStart : ℕ := headerSize + slotAreaSize
def payloadSize : ℕ := pageSize - payloadStart

/-- A row as it is passed: its length is a 16-bit number. -/
structure Row where
  bytes : Bytes
  fits : bytes.length < 2 ^ 16

def Row.len (row : Row) : UInt16 := UInt16.ofNat row.bytes.length

structure SlotHeader where
  offset : UInt32
  length : UInt16
  reserved : UInt16

structure StoragePage where
  data : Mem pageSize

namespace StoragePage

/-! ### The fields of the header -/

def numSlots (p : StoragePage) : UInt16 := UInt16.ofNat (p.data.get 8 2)
def freeOffset (p : StoragePage) : UInt16 := UInt16.ofNat (p.data.get 10 2)
def checksum (p : StoragePage) : UInt32 := UInt32.ofNat (p.data.get 12 4)

def setPageNum (p : StoragePage) (v : UInt32) : StoragePage := ⟨p.data.set 0 4 v.toNat⟩
def setPageType (p : StoragePage) (v : UInt32) : StoragePage := ⟨p.data.set 4 4 v.toNat⟩
def setNumSlots (p : StoragePage) (v : UInt16) : StoragePage := ⟨p.data.set 8 2 v.toNat⟩
def setFreeOffset (p : StoragePage) (v : UInt16) : StoragePage := ⟨p.data.set 10 2 v.toNat⟩
def setChecksum (p : StoragePage) (v : UInt32) : StoragePage := ⟨p.data.set 12 4 v.toNat⟩

/-! ### Slots and payload -/

/-- Where `slots()[i]` lies. -/
def slotAt (i : ℕ) : ℕ := headerSize + 8 * i

def slot (p : StoragePage) (i : ℕ) : Except Fault SlotHeader :=
  if slotAt i + 8 ≤ pageSize then
    .ok ⟨UInt32.ofNat (p.data.get (slotAt i) 4), UInt16.ofNat (p.data.get (slotAt i + 4) 2),
      UInt16.ofNat (p.data.get (slotAt i + 6) 2)⟩
  else .error .outside

def setSlot (p : StoragePage) (i : ℕ) (s : SlotHeader) : Except Fault StoragePage :=
  if slotAt i + 8 ≤ pageSize then
    let data := p.data.set (slotAt i) 4 s.offset.toNat
    let data := data.set (slotAt i + 4) 2 s.length.toNat
    let data := data.set (slotAt i + 6) 2 s.reserved.toNat
    .ok ⟨data⟩
  else .error .outside

def writePayload (p : StoragePage) (offset : ℕ) (bs : Bytes) : Except Fault StoragePage := do
  let data ← p.data.writeAt (payloadStart + offset) bs
  return ⟨data⟩

def readPayload (p : StoragePage) (offset len : ℕ) : Except Fault Bytes :=
  p.data.readAt (payloadStart + offset) len

/-! ### The operations -/

/-- One turn of the checksum's loop; its own field, at 12, may be left out. -/
def checksumTurn (p : StoragePage) (excludeChecksumField : Bool) (sum : UInt32) (i : ℕ) : UInt32 :=
  if excludeChecksumField && decide (12 ≤ i) && decide (i < 12 + 4) then sum
  else (sum <<< 1) ^^^ (p.data.byte i).toUInt32

@[irreducible] def computeChecksum (p : StoragePage) (excludeChecksumField : Bool := true) :
    UInt32 :=
  (List.range pageSize).foldl (p.checksumTurn excludeChecksumField) 0

def new (pageNumVal : UInt32 := 0) : StoragePage :=
  let p : StoragePage := ⟨Vector.replicate pageSize 0⟩
  let p := p.setPageNum pageNumVal
  let p := p.setPageType 1
  let p := p.setNumSlots 0
  let p := p.setFreeOffset 0
  p.setChecksum 0

/-- Whether the row was taken, and the page behind it. -/
def insertRow (p : StoragePage) (row : Row) : Except Fault (Bool × StoragePage) :=
  if 256 ≤ p.numSlots then .ok (false, p)
  else if payloadSize < p.freeOffset.toNat + row.len.toNat then .ok (false, p)
  else do
    let p ← p.setSlot p.numSlots.toNat ⟨p.freeOffset.toUInt32, row.len, 0⟩
    let p ← p.writePayload p.freeOffset.toNat row.bytes
    let p := p.setFreeOffset (p.freeOffset + row.len)
    let p := p.setNumSlots (p.numSlots + 1)
    return (true, p)

/-- The row, when the slot is there. -/
def readRow (p : StoragePage) (slotIdx : UInt16) : Except Fault (Option Bytes) :=
  if p.numSlots ≤ slotIdx then .ok none
  else do
    let slot ← p.slot slotIdx.toNat
    let row ← p.readPayload slot.offset.toNat slot.length.toNat
    return some row

def serialize (p : StoragePage) : Bytes × StoragePage :=
  let p := p.setChecksum 0
  let p := p.setChecksum (p.computeChecksum true)
  (p.data.read 0 pageSize, p)

def deserialize (p : StoragePage) (serialized : Bytes) : Bool × StoragePage :=
  if serialized.length ≠ pageSize then (false, p)
  else
    let p : StoragePage := ⟨p.data.write 0 serialized⟩
    let storedChecksum := p.checksum
    let p := p.setChecksum 0
    let computed := p.computeChecksum true
    (storedChecksum == computed, p)

def verify (p : StoragePage) : Bool :=
  let expected := p.computeChecksum true
  p.checksum == expected

end StoragePage

end Dbx4.StorageModel
