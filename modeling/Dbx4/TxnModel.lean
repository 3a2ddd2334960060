import Dbx4.Maps

/-!
The transaction manager of `transaction_manager.cpp`.

A transaction keeps its writes, and for every write an entry of the undo log. The calls after
`begin` ask only whether the record is there; none of them looks at the flags `active` and
`committed`.
-/

namespace Dbx4.TxnModel

open Std Dbx4.Maps

structure VersionedRow where
  versionId : Int32 := 0
  isDeleted : Bool := false
  data : ExtTreeMap String String := ∅

inductive Operation
  | insert | update | delete
  deriving DecidableEq

structure UndoLogEntry where
  tableName : String
  rowId : String
  oldVersion : VersionedRow := {}
  operation : Operation

structure Transaction where
  txnId : Int32 := 0
  active : Bool := false
  committed : Bool := false
  localWrites : ExtTreeMap String VersionedRow := ∅
  undoLog : List UndoLogEntry := []
  readSet : ExtTreeSet String := ∅
  writeSet : ExtTreeSet String := ∅

structure TransactionManager where
  transactions : ExtTreeMap Int32 Transaction := ∅

def key (table rowId : String) : String := table ++ ":" ++ rowId

def UndoLogEntry.key (undo : UndoLogEntry) : String := TxnModel.key undo.tableName undo.rowId

/-- A local write, with the entry that undoes it. -/
def Transaction.write (undo : UndoLogEntry) (row : VersionedRow) (txn : Transaction) :
    Transaction :=
  { txn with
    undoLog := txn.undoLog ++ [undo]
    localWrites := txn.localWrites.insert undo.key row
    writeSet := txn.writeSet.insert undo.key }

def Transaction.insert (table rowId : String) (row : VersionedRow) : Transaction → Transaction :=
  Transaction.write ⟨table, rowId, { isDeleted := true }, .insert⟩ row

def Transaction.update (table rowId : String) (oldVersion newVersion : VersionedRow) :
    Transaction → Transaction :=
  Transaction.write ⟨table, rowId, oldVersion, .update⟩ newVersion

def Transaction.deleteRow (table rowId : String) (oldVersion : VersionedRow) :
    Transaction → Transaction :=
  Transaction.write ⟨table, rowId, oldVersion, .delete⟩ { oldVersion with isDeleted := true }

def Transaction.commit (txn : Transaction) : Transaction :=
  { txn with active := false, committed := true }

def undo (localWrites : ExtTreeMap String VersionedRow) (entry : UndoLogEntry) :
    ExtTreeMap String VersionedRow :=
  match entry.operation with
  | .insert => localWrites.erase entry.key
  | .update => localWrites.insert entry.key entry.oldVersion
  | .delete => localWrites.insert entry.key entry.oldVersion

def Transaction.rollback (txn : Transaction) : Transaction :=
  let undone := txn.undoLog.reverse.foldl undo txn.localWrites
  -- what the undo log restored is cleared at once
  { { txn with localWrites := undone } with
    active := false
    committed := false
    localWrites := ∅
    undoLog := [] }

namespace TransactionManager

/-- The record of a transaction is changed in place, when there is one. -/
def onTxn (m : TransactionManager) (txnId : Int32) (f : Transaction → Transaction) :
    Bool × TransactionManager :=
  if txnId ∈ m.transactions then
    (true, { m with transactions := m.transactions.modify txnId f })
  else (false, m)

def begin (m : TransactionManager) (txnId : Int32) : Bool × TransactionManager :=
  if txnId ∈ m.transactions then (false, m)
  else (true, { m with
    transactions := m.transactions.insert txnId
      { txnId := txnId, active := true, committed := false } })

def insert (m : TransactionManager) (txnId : Int32) (table rowId : String) (row : VersionedRow) :
    Bool × TransactionManager :=
  m.onTxn txnId (Transaction.insert table rowId row)

def update (m : TransactionManager) (txnId : Int32) (table rowId : String)
    (oldVersion newVersion : VersionedRow) : Bool × TransactionManager :=
  m.onTxn txnId (Transaction.update table rowId oldVersion newVersion)

def deleteRow (m : TransactionManager) (txnId : Int32) (table rowId : String)
    (oldVersion : VersionedRow) : Bool × TransactionManager :=
  m.onTxn txnId (Transaction.deleteRow table rowId oldVersion)

/-- Whether the row was found, the row it left in `outRow`, and the manager. -/
def read (m : TransactionManager) (txnId : Int32) (table rowId : String)
    (outRow : VersionedRow) : Bool × VersionedRow × TransactionManager :=
  match m.transactions[txnId]? with
  | none => (false, outRow, m)
  | some txn =>
    let m := (m.onTxn txnId fun txn =>
      { txn with readSet := txn.readSet.insert (key table rowId) }).2
    match txn.localWrites[key table rowId]? with
    | some row => (true, row, m)
    | none => (false, outRow, m)

def commit (m : TransactionManager) (txnId : Int32) : Bool × TransactionManager :=
  m.onTxn txnId Transaction.commit

def rollback (m : TransactionManager) (txnId : Int32) : Bool × TransactionManager :=
  m.onTxn txnId Transaction.rollback

end TransactionManager

inductive Call
  | begin (txnId : Int32)
  | insert (txnId : Int32) (table rowId : String) (row : VersionedRow)
  | update (txnId : Int32) (table rowId : String) (oldVersion newVersion : VersionedRow)
  | deleteRow (txnId : Int32) (table rowId : String) (oldVersion : VersionedRow)
  | read (txnId : Int32) (table rowId : String) (outRow : VersionedRow)
  | commit (txnId : Int32)
  | rollback (txnId : Int32)

namespace Call

def txnId : Call → Int32
  | .begin txnId | .insert txnId .. | .update txnId .. | .deleteRow txnId .. | .read txnId ..
  | .commit txnId | .rollback txnId => txnId

/-- What the call returns, and the manager behind it. -/
def apply (m : TransactionManager) : Call → Bool × TransactionManager
  | .begin txnId => m.begin txnId
  | .insert txnId table rowId row => m.insert txnId table rowId row
  | .update txnId table rowId old new => m.update txnId table rowId old new
  | .deleteRow txnId table rowId old => m.deleteRow txnId table rowId old
  | .read txnId table rowId outRow =>
    let (found, _, m) := m.read txnId table rowId outRow
    (found, m)
  | .commit txnId => m.commit txnId
  | .rollback txnId => m.rollback txnId

/-- The calls that change a record that is there: all but `begin` and `read`. -/
def isChange : Call → Bool
  | .begin _ | .read .. => false
  | _ => true

/-- What the call makes of the record of its transaction. -/
def onRecord : Call → Transaction → Transaction
  | .begin _ => fun txn => txn
  | .insert _ table rowId row => Transaction.insert table rowId row
  | .update _ table rowId old new => Transaction.update table rowId old new
  | .deleteRow _ table rowId old => Transaction.deleteRow table rowId old
  | .read _ table rowId _ => fun txn =>
    { txn with readSet := txn.readSet.insert (key table rowId) }
  | .commit _ => Transaction.commit
  | .rollback _ => Transaction.rollback

/-- The record the call makes when there is none. -/
def newRecord : Call → Option Transaction
  | .begin txnId => some { txnId := txnId, active := true }
  | _ => none

end Call

def step (m : TransactionManager) (call : Call) : TransactionManager := (call.apply m).2

/-! ### One call -/

lemma getElem?_onTxn (m : TransactionManager) (id t : Int32) (f : Transaction → Transaction) :
    (m.onTxn id f).2.transactions[t]? =
      if id = t then m.transactions[t]?.map f else m.transactions[t]? := by
  unfold TransactionManager.onTxn
  split_ifs with hid ht ht
  · rw [getElem?_modify, if_pos ht]
  · rw [getElem?_modify, if_neg ht]
  · subst ht
    rw [ExtTreeMap.getElem?_eq_none hid, Option.map_none]
  · rfl

/-- **The record of a transaction after a call**: only the call's own transaction changes. -/
theorem getElem?_step (m : TransactionManager) (call : Call) (t : Int32) :
    (step m call).transactions[t]? =
      if call.txnId = t then (m.transactions[t]?.map call.onRecord).or call.newRecord
      else m.transactions[t]? := by
  cases call with
  | begin id =>
    simp only [step, Call.apply, TransactionManager.begin, Call.txnId, Call.newRecord,
      Call.onRecord, Option.map_id']
    by_cases ht : id = t
    · subst ht
      rcases htxn : m.transactions[id]? with _ | txn
      · have hid := not_mem_of_getElem? htxn
        simp [hid]
      · have hid := mem_of_getElem? htxn
        rw [if_pos hid, if_pos rfl, htxn, Option.some_or]
    · rw [if_neg ht]
      split_ifs
      · rfl
      · exact getElem?_insert_of_ne _ ht _
  | read id table rowId outRow =>
    have hread : step m (.read id table rowId outRow) =
        (m.onTxn id fun txn => { txn with readSet := txn.readSet.insert (key table rowId) }).2 := by
      simp only [step, Call.apply, TransactionManager.read]
      rcases htxn : m.transactions[id]? with _ | txn
      · have hid := not_mem_of_getElem? htxn
        rw [TransactionManager.onTxn, if_neg hid]
      · dsimp only
        split <;> rfl
    rw [hread, getElem?_onTxn]
    simp [Call.newRecord, Call.txnId, Call.onRecord]
  | _ =>
    refine (getElem?_onTxn m _ t _).trans ?_
    simp [Call.newRecord, Call.txnId, Call.onRecord]

/-- A changing call returns true exactly when the record is there. -/
theorem apply_eq_true {call : Call} (hcall : call.isChange) (m : TransactionManager) :
    (call.apply m).1 = true ↔ call.txnId ∈ m.transactions := by
  have honTxn : ∀ id f, (m.onTxn id f).1 = true ↔ id ∈ m.transactions := by
    intro id f
    unfold TransactionManager.onTxn
    split_ifs with hid <;> simp [hid]
  cases call with
  | begin id => cases hcall
  | read id table rowId outRow => cases hcall
  | _ => exact honTxn _ _

end Dbx4.TxnModel
