import Dbx4.Maps

/-!
Snapshots, versions and row locks of `mvcc_locks.cpp`.

A version carries the value of the coordinator's counter at its write; a snapshot reads, in
every row, the last version whose stamp is not above its own.
-/

namespace Dbx4.MvccModel

open Std Dbx4.Maps

structure Snapshot where
  snapshotId : UInt64
  snapshotVersion : UInt64
  timestamp : UInt64
  activeTransactions : ExtTreeSet UInt64

structure Version where
  versionId : UInt64
  rowId : UInt64
  txnId : UInt64
  snapshotVersion : UInt64
  data : List UInt8
  isDeleted : Bool
  deriving DecidableEq

structure SnapshotManager where
  snapshots : ExtTreeMap UInt64 Snapshot := ∅
  nextSnapshotId : UInt64 := 0

namespace SnapshotManager

def createSnapshot (m : SnapshotManager) (snapshotVersion : UInt64)
    (activeTxns : ExtTreeSet UInt64) : UInt64 × SnapshotManager :=
  let snapshotId := m.nextSnapshotId
  (snapshotId, { m with
    nextSnapshotId := m.nextSnapshotId + 1
    snapshots := m.snapshots.insert snapshotId ⟨snapshotId, snapshotVersion, 0, activeTxns⟩ })

def getSnapshot (m : SnapshotManager) (snapshotId : UInt64) : Option Snapshot :=
  m.snapshots[snapshotId]?

end SnapshotManager

structure VersionManager where
  /-- The versions of a row in the order they were created. -/
  versions : ExtTreeMap UInt64 (List Version) := ∅
  nextVersionId : UInt64 := 0

namespace VersionManager

def createVersion (m : VersionManager) (rowId txnId snapshotVersion : UInt64)
    (data : List UInt8) : UInt64 × VersionManager :=
  let versionId := m.nextVersionId
  let v : Version := ⟨versionId, rowId, txnId, snapshotVersion, data, false⟩
  (versionId, { m with
    nextVersionId := m.nextVersionId + 1
    versions := m.versions.insert rowId (m.versions[rowId]?.getD [] ++ [v]) })

/-- The scan of one row. -/
def latest (snapshotVersion : UInt64) (versions : List Version) : Option Version :=
  versions.foldl (fun result v => if v.snapshotVersion ≤ snapshotVersion then some v else result)
    none

def getVersion (m : VersionManager) (rowId snapshotVersion : UInt64) : Option Version :=
  match m.versions[rowId]? with
  | none => none
  | some versions => latest snapshotVersion versions

def getVersionCount (m : VersionManager) (rowId : UInt64) : ℕ :=
  match m.versions[rowId]? with
  | some versions => versions.length
  | none => 0

end VersionManager

structure LockManager where
  rowLocks : ExtTreeMap UInt64 (ExtTreeSet UInt64) := ∅
  lockWaiters : ExtTreeMap UInt64 (List UInt64) := ∅

namespace LockManager

def acquireLock (m : LockManager) (rowId txnId : UInt64) (blocking : Bool := true) :
    Bool × LockManager :=
  let lockers := m.rowLocks[rowId]?.getD ∅
  if lockers.isEmpty then
    (true, { m with rowLocks := m.rowLocks.insert rowId (lockers.insert txnId) })
  else if blocking then
    (false, { m with
      lockWaiters := m.lockWaiters.insert rowId (m.lockWaiters[rowId]?.getD [] ++ [txnId]) })
  else (false, m)

def releaseLock (m : LockManager) (rowId txnId : UInt64) : LockManager :=
  match m.rowLocks[rowId]? with
  | none => m
  | some lockers =>
    let lockers := lockers.erase txnId
    if lockers.isEmpty then { m with rowLocks := m.rowLocks.erase rowId }
    else { m with rowLocks := m.rowLocks.insert rowId lockers }

def isLocked (m : LockManager) (rowId txnId : UInt64) : Bool :=
  match m.rowLocks[rowId]? with
  | none => false
  | some lockers => txnId ∈ lockers

def getLockCount (m : LockManager) (rowId : UInt64) : ℕ :=
  match m.rowLocks[rowId]? with
  | some lockers => lockers.size
  | none => 0

end LockManager

structure MVCCCoordinator where
  snapshotManager : SnapshotManager := {}
  versionManager : VersionManager := {}
  lockManager : LockManager := {}
  nextVersion : UInt64 := 0

namespace MVCCCoordinator

def getSnapshotVersion (m : MVCCCoordinator) : UInt64 := m.nextVersion

def incrementVersion (m : MVCCCoordinator) : MVCCCoordinator :=
  { m with nextVersion := m.nextVersion + 1 }

def readRow (m : MVCCCoordinator) (rowId txnId : UInt64) : Option (List UInt8) := do
  let snapshot ← m.snapshotManager.getSnapshot txnId
  let version ← m.versionManager.getVersion rowId snapshot.snapshotVersion
  if version.isDeleted then none else some version.data

def writeRow (m : MVCCCoordinator) (rowId txnId : UInt64) (data : List UInt8) :
    Bool × MVCCCoordinator :=
  if m.lockManager.isLocked rowId txnId then
    (true, { m with
      versionManager := (m.versionManager.createVersion rowId txnId m.nextVersion data).2 })
  else (false, m)

def deleteRow (m : MVCCCoordinator) (rowId txnId : UInt64) : Bool × MVCCCoordinator :=
  if m.lockManager.isLocked rowId txnId then
    -- a version without data, which is not marked deleted
    let emptyData : List UInt8 := []
    (true, { m with
      versionManager := (m.versionManager.createVersion rowId txnId m.nextVersion emptyData).2 })
  else (false, m)

def acquireLock (m : MVCCCoordinator) (rowId txnId : UInt64) : Bool × MVCCCoordinator :=
  let (acquired, lockManager) := m.lockManager.acquireLock rowId txnId false
  (acquired, { m with lockManager := lockManager })

def releaseLock (m : MVCCCoordinator) (rowId txnId : UInt64) : MVCCCoordinator :=
  { m with lockManager := m.lockManager.releaseLock rowId txnId }

def getVersionCount (m : MVCCCoordinator) (rowId : UInt64) : ℕ :=
  m.versionManager.getVersionCount rowId

def getLockCount (m : MVCCCoordinator) (rowId : UInt64) : ℕ := m.lockManager.getLockCount rowId

/-- A snapshot registered with the version of the moment. -/
def takeSnapshot (m : MVCCCoordinator) (activeTxns : ExtTreeSet UInt64) :
    UInt64 × MVCCCoordinator :=
  let (snapshotId, snapshotManager) :=
    m.snapshotManager.createSnapshot m.getSnapshotVersion activeTxns
  (snapshotId, { m with snapshotManager := snapshotManager })

end MVCCCoordinator

inductive Call
  | incrementVersion
  | acquireLock (rowId txnId : UInt64)
  | releaseLock (rowId txnId : UInt64)
  | writeRow (rowId txnId : UInt64) (data : List UInt8)
  | deleteRow (rowId txnId : UInt64)
  | takeSnapshot (activeTxns : ExtTreeSet UInt64)

def step (m : MVCCCoordinator) : Call → MVCCCoordinator
  | .incrementVersion => m.incrementVersion
  | .acquireLock rowId txnId => (m.acquireLock rowId txnId).2
  | .releaseLock rowId txnId => m.releaseLock rowId txnId
  | .writeRow rowId txnId data => (m.writeRow rowId txnId data).2
  | .deleteRow rowId txnId => (m.deleteRow rowId txnId).2
  | .takeSnapshot activeTxns => (m.takeSnapshot activeTxns).2

/-! ### What a call appends -/

lemma latest_append (s : UInt64) (versions : List Version) (v : Version) :
    VersionManager.latest s (versions ++ [v]) =
      if v.snapshotVersion ≤ s then some v else VersionManager.latest s versions := by
  simp [VersionManager.latest]

lemma getVersion_createVersion (m : VersionManager) (rowId txnId stamp row s : UInt64)
    (data : List UInt8) :
    (m.createVersion rowId txnId stamp data).2.getVersion row s =
      if rowId = row ∧ stamp ≤ s then some ⟨m.nextVersionId, rowId, txnId, stamp, data, false⟩
      else m.getVersion row s := by
  unfold VersionManager.createVersion VersionManager.getVersion
  by_cases hrow : rowId = row
  · subst hrow
    simp only [ExtTreeMap.getElem?_insert_self, latest_append, true_and]
    rcases m.versions[rowId]? with _ | versions <;> rfl
  · rw [if_neg fun h => hrow h.1]
    simp only [getElem?_insert_of_ne _ hrow]

/-- The version a call appends: that of a write or a delete that finds its lock held. -/
def Call.written (m : MVCCCoordinator) : Call → Option Version
  | .writeRow rowId txnId data =>
    if m.lockManager.isLocked rowId txnId then
      some ⟨m.versionManager.nextVersionId, rowId, txnId, m.nextVersion, data, false⟩
    else none
  | .deleteRow rowId txnId =>
    if m.lockManager.isLocked rowId txnId then
      some ⟨m.versionManager.nextVersionId, rowId, txnId, m.nextVersion, [], false⟩
    else none
  | _ => none

lemma versionManager_of_none {m : MVCCCoordinator} {call : Call} (h : call.written m = none) :
    (step m call).versionManager = m.versionManager := by
  cases call with
  | writeRow rowId txnId data =>
    simp only [Call.written] at h
    split_ifs at h with hlock
    simp only [step, MVCCCoordinator.writeRow, if_neg hlock]
  | deleteRow rowId txnId =>
    simp only [Call.written] at h
    split_ifs at h with hlock
    simp only [step, MVCCCoordinator.deleteRow, if_neg hlock]
  | _ => rfl

lemma versionManager_of_some {m : MVCCCoordinator} {call : Call} {v : Version}
    (h : call.written m = some v) :
    v = ⟨m.versionManager.nextVersionId, v.rowId, v.txnId, m.nextVersion, v.data, false⟩ ∧
      (step m call).versionManager =
        (m.versionManager.createVersion v.rowId v.txnId m.nextVersion v.data).2 := by
  cases call with
  | writeRow rowId txnId data =>
    simp only [Call.written] at h
    split_ifs at h with hlock
    cases h
    simp only [step, MVCCCoordinator.writeRow, if_pos hlock, and_self]
  | deleteRow rowId txnId =>
    simp only [Call.written] at h
    split_ifs at h with hlock
    cases h
    simp only [step, MVCCCoordinator.deleteRow, if_pos hlock, and_self]
  | _ => cases h

lemma isLocked_of_written {m : MVCCCoordinator} {call : Call} {v : Version}
    (h : call.written m = some v) : m.lockManager.isLocked v.rowId v.txnId = true := by
  cases call with
  | writeRow rowId txnId data =>
    simp only [Call.written] at h
    split_ifs at h with hlock
    cases h
    exact hlock
  | deleteRow rowId txnId =>
    simp only [Call.written] at h
    split_ifs at h with hlock
    cases h
    exact hlock
  | _ => cases h

/-- **One call and what a snapshot reads**: what is appended is read when its stamp is not
above the snapshot's. -/
theorem getVersion_of_some {m : MVCCCoordinator} {call : Call} {v : Version}
    (h : call.written m = some v) (row s : UInt64) :
    (step m call).versionManager.getVersion row s =
      if v.rowId = row ∧ m.nextVersion ≤ s then some v
      else m.versionManager.getVersion row s := by
  obtain ⟨hv, hstep⟩ := versionManager_of_some h
  rw [hstep, getVersion_createVersion, ← hv]

end Dbx4.MvccModel
