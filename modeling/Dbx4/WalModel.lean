import Std.Data.ExtTreeMap
import Dbx4.Frames
import Dbx4.Word32

/-!
The write-ahead log of `recovery_wal.cpp`.

The log is a file of entries, each a header of three 32-bit words and a payload. Recovery
reads the file twice: the first pass collects the COMMIT and ABORT markers, the second the
data of the transactions that are marked committed.
-/

namespace Dbx4.WalModel

open Dbx4.Loops Dbx4.Frames Dbx4.Word32

/-- An entry of type `1` is DATA, of type `2` a COMMIT marker, of type `3` an ABORT marker. -/
structure WALEntry where
  txnId : Int32
  entryType : Int32
  data : Bytes
  deriving DecidableEq

/-- What the language leaves undefined: a read outside of a buffer. -/
inductive Fault
  | outOfBounds
  deriving DecidableEq

def encodeEntry (e : WALEntry) : Bytes :=
  le32 e.txnId.toUInt32 ++ (le32 e.entryType.toUInt32 ++
    (le32 (UInt32.ofNat e.data.length) ++ e.data))

/-- The third word of a header. -/
def lenField (buf : Bytes) : UInt32 := ofLe32 (buf.drop 8)

/-- The entry at the front of a buffer, and the number of bytes consumed. -/
def decodeEntry (buf : Bytes) : Except Fault (Option (ℕ × WALEntry)) :=
  if buf.length < 12 then .ok none
  else
    let txnId := (ofLe32 buf).toInt32
    let entryType := (ofLe32 (buf.drop 4)).toInt32
    let len := lenField buf
    -- `12 + len` is a sum of 32-bit words
    if buf.length < (12 + len).toNat then .ok none
    else if buf.length < 12 + len.toNat then .error .outOfBounds
    else .ok (some ((12 + len).toNat, ⟨txnId, entryType, (buf.drop 12).take len.toNat⟩))

/-- The manager, with the file at its path; the file is absent before the first write. -/
structure WALManager where
  wal : Option Bytes := none
  committedTxns : Std.ExtTreeMap Int32 Bool := ∅

namespace WALManager

def append (w : WALManager) (e : WALEntry) : WALManager :=
  { w with wal := some (w.wal.getD [] ++ encodeEntry e) }

def writeData (w : WALManager) (txnId : Int32) (data : Bytes) : WALManager :=
  w.append ⟨txnId, 1, data⟩

def writeCommit (w : WALManager) (txnId : Int32) : WALManager :=
  let w := w.append ⟨txnId, 2, []⟩
  { w with committedTxns := w.committedTxns.insert txnId true }

def writeAbort (w : WALManager) (txnId : Int32) : WALManager :=
  let w := w.append ⟨txnId, 3, []⟩
  { w with committedTxns := w.committedTxns.insert txnId false }

end WALManager

/-- What the first pass does with an entry. -/
def noteMarker (committedTxns : Std.ExtTreeMap Int32 Bool) (e : WALEntry) :
    Std.ExtTreeMap Int32 Bool :=
  if e.entryType = 2 then committedTxns.insert e.txnId true
  else if e.entryType = 3 then committedTxns.insert e.txnId false
  else committedTxns

/-- What the second pass does with an entry. -/
def noteData (committedTxns : Std.ExtTreeMap Int32 Bool) (recovered : List WALEntry)
    (e : WALEntry) : List WALEntry :=
  if e.entryType = 1 ∧ committedTxns[e.txnId]? = some true then recovered ++ [e] else recovered

def firstPass (buffer : Bytes) :=
  turn decodeEntry noteMarker buffer

def secondPass (committedTxns : Std.ExtTreeMap Int32 Bool) (buffer : Bytes) :=
  turn decodeEntry (noteData committedTxns) buffer

/-- Recovery, each of whose passes may take `fuel` turns. -/
def WALManager.recover (w : WALManager) (fuel : ℕ) :
    Outcome Fault (List WALEntry × WALManager) :=
  match w.wal with
  | none => .done ([], { w with committedTxns := ∅ })
  | some buffer =>
    (loop (firstPass buffer) fuel (0, ∅)).bind fun s =>
      (loop (secondPass s.2 buffer) fuel (0, [])).bind fun r =>
        .done (r.2, { w with committedTxns := s.2 })

/-- A call that writes to the log. -/
inductive Call
  | data (txnId : Int32) (payload : Bytes)
  | commit (txnId : Int32)
  | abort (txnId : Int32)
  deriving DecidableEq

def Call.apply (w : WALManager) : Call → WALManager
  | .data txnId payload => w.writeData txnId payload
  | .commit txnId => w.writeCommit txnId
  | .abort txnId => w.writeAbort txnId

/-- The entry a call writes. -/
def Call.entry : Call → WALEntry
  | .data txnId payload => ⟨txnId, 1, payload⟩
  | .commit txnId => ⟨txnId, 2, []⟩
  | .abort txnId => ⟨txnId, 3, []⟩

@[simp] lemma Call.apply_wal (w : WALManager) (c : Call) :
    (c.apply w).wal = some (w.wal.getD [] ++ encodeEntry c.entry) := by
  cases c <;> rfl

end Dbx4.WalModel
