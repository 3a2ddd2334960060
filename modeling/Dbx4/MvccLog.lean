import Dbx4.MvccVersions

/-!
The coordinator is a log under locks.

What is written goes to the end of one log, under a lock that has one holder. A row is read by
looking for the last entry of the row that a snapshot sees. Every answer of the coordinator is
the log's, and rows have nothing to do with each other.
-/

namespace Dbx4.MvccLog

open Std Dbx4.Maps Dbx4.Runs Dbx4.LockTable Dbx4.MvccModel Dbx4.MvccLocks Dbx4.MvccReads
  Dbx4.MvccVersions

/-! ### What is asked -/

/-- A call of the coordinator, with those that change nothing. -/
inductive Ask
  | call (c : Call)
  | readRow (rowId txnId : UInt64)
  | getVersionCount (rowId : UInt64)
  | getLockCount (rowId : UInt64)
  | getSnapshotVersion

inductive Answer
  | done
  | returned (b : Bool)
  | row (data : Option (List UInt8))
  | count (n : ℕ)
  | version (v : UInt64)

def serve (m : MVCCCoordinator) : Ask → MVCCCoordinator
  | .call c => step m c
  | _ => m

def answer (m : MVCCCoordinator) : Ask → Answer
  | .call (.acquireLock rowId txnId) => .returned (m.acquireLock rowId txnId).1
  | .call (.writeRow rowId txnId data) => .returned (m.writeRow rowId txnId data).1
  | .call (.deleteRow rowId txnId) => .returned (m.deleteRow rowId txnId).1
  | .call (.takeSnapshot activeTxns) => .version (m.takeSnapshot activeTxns).1
  | .call _ => .done
  | .readRow rowId txnId => .row (m.readRow rowId txnId)
  | .getVersionCount rowId => .count (m.getVersionCount rowId)
  | .getLockCount rowId => .count (m.getLockCount rowId)
  | .getSnapshotVersion => .version m.getSnapshotVersion

/-! ### The log -/

structure Entry where
  rowId : UInt64
  stamp : UInt64
  data : List UInt8

structure Log where
  entries : List Entry := []
  holder : Table UInt64 UInt64 := fun _ => none
  clock : UInt64 := 0
  /-- The stamp of each snapshot. -/
  snapshots : UInt64 → Option UInt64 := fun _ => none
  nextSnapshot : UInt64 := 0

namespace Log

/-- An entry at the end, by the holder of the row. -/
def write (l : Log) (rowId txnId : UInt64) (data : List UInt8) : Log :=
  if l.holder rowId = some txnId then { l with entries := l.entries ++ [⟨rowId, l.clock, data⟩] }
  else l

def step (l : Log) : Call → Log
  | .incrementVersion => { l with clock := l.clock + 1 }
  | .acquireLock rowId txnId => { l with holder := (Op.acquire rowId txnId).apply l.holder }
  | .releaseLock rowId txnId => { l with holder := (Op.release rowId txnId).apply l.holder }
  | .writeRow rowId txnId data => l.write rowId txnId data
  | .deleteRow rowId txnId => l.write rowId txnId []
  | .takeSnapshot _ => { l with
      snapshots := Function.update l.snapshots l.nextSnapshot (some l.clock)
      nextSnapshot := l.nextSnapshot + 1 }

def serve (l : Log) : Ask → Log
  | .call c => l.step c
  | _ => l

def ofRow (l : Log) (rowId : UInt64) : List Entry := l.entries.filter fun e => e.rowId = rowId

/-- The data of the last entry of the row that the snapshot sees. -/
def read (l : Log) (rowId txnId : UInt64) : Option (List UInt8) :=
  (l.snapshots txnId).bind fun stamp =>
    ((l.ofRow rowId).filter fun e => e.stamp ≤ stamp).getLast?.map Entry.data

def answer (l : Log) : Ask → Answer
  | .call (.acquireLock rowId _) => .returned (l.holder rowId = none)
  | .call (.writeRow rowId txnId _) => .returned (l.holder rowId = some txnId)
  | .call (.deleteRow rowId txnId) => .returned (l.holder rowId = some txnId)
  | .call (.takeSnapshot _) => .version l.nextSnapshot
  | .call _ => .done
  | .readRow rowId txnId => .row (l.read rowId txnId)
  | .getVersionCount rowId => .count (l.ofRow rowId).length
  | .getLockCount rowId => .count (if (l.holder rowId).isSome then 1 else 0)
  | .getSnapshotVersion => .version l.clock

end Log

/-! ### The log and the coordinator -/

/-- What a version says in the log. -/
def entryOf (v : Version) : Entry := ⟨v.rowId, v.snapshotVersion, v.data⟩

structure Logs (m : MVCCCoordinator) (l : Log) : Prop where
  entries : ∀ row, (versionsOf m row).map entryOf = l.ofRow row
  live : ∀ row, ∀ v ∈ versionsOf m row, v.isDeleted = false
  holder : Holds m.lockManager l.holder
  clock : m.nextVersion = l.clock
  snapshots : ∀ t, (m.snapshotManager.getSnapshot t).map Snapshot.snapshotVersion = l.snapshots t
  nextSnapshot : m.snapshotManager.nextSnapshotId = l.nextSnapshot

lemma logs_empty : Logs {} {} where
  entries row := by
    rw [versionsOf_empty]
    rfl
  live row v hv := by
    rw [versionsOf_empty] at hv
    cases hv
  holder := holds_empty
  clock := rfl
  snapshots t := by
    rw [SnapshotManager.getSnapshot, ExtTreeMap.getElem?_empty]
    rfl
  nextSnapshot := rfl

section Sim

variable {m : MVCCCoordinator} {l : Log} (h : Logs m l)

include h

lemma Logs.isLocked_iff (row t : UInt64) :
    m.lockManager.isLocked row t = true ↔ l.holder row = some t :=
  MvccLocks.isLocked_iff h.holder row t

/-- A version, and an entry. -/
lemma Logs.append {c : Call} {v : Version} (hw : c.written m = some v)
    (hsnapshots : (step m c).snapshotManager = m.snapshotManager)
    (hlocks : (step m c).lockManager = m.lockManager)
    (hclock : (step m c).nextVersion = m.nextVersion) :
    Logs (step m c) { l with entries := l.entries ++ [⟨v.rowId, l.clock, v.data⟩] } := by
  have hv := (versionManager_of_some hw).1
  have hentry : entryOf v = ⟨v.rowId, l.clock, v.data⟩ := by
    rw [hv, entryOf, h.clock]
  refine ⟨fun row => ?_, fun row w hmem => ?_, hlocks ▸ h.holder, hclock ▸ h.clock,
    hsnapshots ▸ h.snapshots, hsnapshots ▸ h.nextSnapshot⟩
  · rw [versionsOf_of_some hw, List.map_append, h.entries, Log.ofRow, Log.ofRow,
      List.filter_append]
    by_cases hrow : v.rowId = row
    · simp [hrow, hentry]
    · simp [hrow]
  · rw [versionsOf_of_some hw] at hmem
    rcases List.mem_append.mp hmem with hmem | hmem
    · exact h.live row w hmem
    · split_ifs at hmem
      · rw [List.mem_singleton.mp hmem, hv]
      · cases hmem

/-- A write, and an entry by the holder of the row. -/
lemma Logs.write {c : Call} {row t : UInt64} {data : List UInt8}
    (hwritten : c.written m = if m.lockManager.isLocked row t then
      some ⟨m.versionManager.nextVersionId, row, t, m.nextVersion, data, false⟩ else none)
    (hsame : step m c = if m.lockManager.isLocked row t then
      { m with versionManager := (step m c).versionManager } else m) :
    Logs (step m c) (l.write row t data) := by
  unfold Log.write
  by_cases hlock : m.lockManager.isLocked row t = true
  · rw [if_pos hlock] at hwritten hsame
    rw [if_pos ((h.isLocked_iff row t).mp hlock)]
    exact h.append hwritten (by rw [hsame]) (by rw [hsame]) (by rw [hsame])
  · rw [if_neg hlock] at hsame
    rw [if_neg (mt (h.isLocked_iff row t).mpr hlock), hsame]
    exact h

lemma Logs.takeSnapshot (activeTxns : ExtTreeSet UInt64) :
    Logs (m.takeSnapshot activeTxns).2 (l.step (.takeSnapshot activeTxns)) := by
  refine { h with
    snapshots := fun t => ?_
    nextSnapshot := congrArg (· + 1) h.nextSnapshot }
  by_cases ht : m.snapshotManager.nextSnapshotId = t
  · subst ht
    rw [SnapshotManager.getSnapshot]
    refine (congrArg (Option.map _) ExtTreeMap.getElem?_insert_self).trans ?_
    rw [Option.map_some, h.nextSnapshot, Log.step]
    dsimp only
    rw [Function.update_self]
    exact congrArg some h.clock
  · have hne : t ≠ l.nextSnapshot := fun he => ht (h.nextSnapshot.trans he.symm)
    refine (congrArg (Option.map _) (getElem?_insert_of_ne _ ht _)).trans ?_
    rw [Log.step]
    dsimp only
    rw [Function.update_of_ne hne]
    exact h.snapshots t

/-- **One call** of the coordinator is one of the log. -/
theorem Logs.step (c : Call) : Logs (MvccModel.step m c) (l.step c) := by
  cases c with
  | incrementVersion => exact { h with clock := congrArg (· + 1) h.clock }
  | acquireLock row t => exact { h with holder := holds_acquireLock h.holder row t false }
  | releaseLock row t => exact { h with holder := holds_releaseLock h.holder row t }
  | writeRow row t data =>
    refine h.write rfl ?_
    rw [MvccModel.step, MVCCCoordinator.writeRow]
    split_ifs <;> rfl
  | deleteRow row t =>
    refine h.write rfl ?_
    rw [MvccModel.step, MVCCCoordinator.deleteRow]
    split_ifs <;> rfl
  | takeSnapshot activeTxns => exact h.takeSnapshot activeTxns

/-! ### Answers -/

/-- **A read** finds the last entry of the row that the snapshot sees. -/
lemma Logs.readRow (row t : UInt64) : m.readRow row t = l.read row t := by
  rw [MVCCCoordinator.readRow, Log.read, ← h.snapshots]
  rcases m.snapshotManager.getSnapshot t with _ | snap
  · rfl
  have hlatest : m.versionManager.getVersion row snap.snapshotVersion =
      ((versionsOf m row).filter fun v => v.snapshotVersion ≤ snap.snapshotVersion).getLast? := by
    rw [getVersion_eq_latest, latest_eq_find?, List.getLast?_filter]
  have hentries : ((l.ofRow row).filter fun e => e.stamp ≤ snap.snapshotVersion).getLast? =
      (m.versionManager.getVersion row snap.snapshotVersion).map entryOf := by
    rw [hlatest, ← h.entries, List.filter_map, List.getLast?_map]
    rfl
  rw [Option.map_some, Option.bind_some, hentries, Option.map_map, Option.bind_eq_bind,
    Option.bind_some]
  rcases hversion : m.versionManager.getVersion row snap.snapshotVersion with _ | v
  · rfl
  · rw [hlatest] at hversion
    have hlive := h.live row v (List.mem_of_mem_filter (List.mem_of_getLast? hversion))
    simp [hlive, entryOf]

lemma Logs.getVersionCount (row : UInt64) : m.getVersionCount row = (l.ofRow row).length := by
  rw [← h.entries, List.length_map, versionsOf, MVCCCoordinator.getVersionCount,
    VersionManager.getVersionCount]
  rcases m.versionManager.versions[row]? with _ | versions <;> rfl

lemma Logs.getLockCount (row : UInt64) :
    m.getLockCount row = if (l.holder row).isSome then 1 else 0 := by
  rw [MVCCCoordinator.getLockCount, LockManager.getLockCount, h.holder row]
  rcases l.holder row with _ | t
  · rfl
  · rw [Option.map_some]
    dsimp only [only]
    rw [ExtTreeSet.size_insert]
    simp

/-- **Every answer** of the coordinator is the log's. -/
theorem Logs.answer (a : Ask) : MvccLog.answer m a = l.answer a := by
  cases a with
  | readRow row t => exact congrArg Answer.row (h.readRow row t)
  | getVersionCount row => exact congrArg Answer.count (h.getVersionCount row)
  | getLockCount row => exact congrArg Answer.count (h.getLockCount row)
  | getSnapshotVersion => exact congrArg Answer.version h.clock
  | call c =>
    cases c with
    | incrementVersion => rfl
    | releaseLock row t => rfl
    | takeSnapshot activeTxns => exact congrArg Answer.version h.nextSnapshot
    | acquireLock row t =>
      refine congrArg Answer.returned (Bool.eq_iff_iff.mpr ?_)
      rw [decide_eq_true_iff]
      exact acquireLock_fst h.holder row t false
    | writeRow row t data =>
      refine congrArg Answer.returned (Bool.eq_iff_iff.mpr ?_)
      rw [decide_eq_true_iff, ← h.isLocked_iff, MVCCCoordinator.writeRow]
      split_ifs with hlock
      · exact iff_of_true rfl hlock
      · exact iff_of_false id hlock
    | deleteRow row t =>
      refine congrArg Answer.returned (Bool.eq_iff_iff.mpr ?_)
      rw [decide_eq_true_iff, ← h.isLocked_iff, MVCCCoordinator.deleteRow]
      split_ifs with hlock
      · exact iff_of_true rfl hlock
      · exact iff_of_false id hlock

lemma Logs.serve (a : Ask) : Logs (MvccLog.serve m a) (l.serve a) := by
  cases a with
  | call c => exact h.step c
  | _ => exact h

end Sim

lemma answers_of_logs (mine : Ask → Bool) {m : MVCCCoordinator} {l : Log} (h : Logs m l)
    (asks : List Ask) : answers serve mine answer m asks = answers Log.serve mine Log.answer l asks
    := by
  induction asks generalizing m l with
  | nil => rfl
  | cons a asks ih => rw [answers, answers, h.answer, ih (h.serve a)]

/-- **The coordinator is a log under locks**: in every run, every call is answered as the log
answers it. -/
theorem answers_eq (asks : List Ask) :
    answers serve (fun _ => true) answer {} asks =
      answers Log.serve (fun _ => true) Log.answer {} asks :=
  answers_of_logs _ logs_empty asks

/-! ### Rows -/

/-- The row that a call is about; none where it is about all of them. -/
def rowOf : Ask → Option UInt64
  | .call (.acquireLock rowId _) => some rowId
  | .call (.releaseLock rowId _) => some rowId
  | .call (.writeRow rowId _ _) => some rowId
  | .call (.deleteRow rowId _) => some rowId
  | .call _ => none
  | .readRow rowId _ => some rowId
  | .getVersionCount rowId => some rowId
  | .getLockCount rowId => some rowId
  | .getSnapshotVersion => none

/-- What is about the row, or about no row. -/
def isOn (row : UInt64) (a : Ask) : Bool := rowOf a = some row || rowOf a = none

lemma isOn_iff {row rowId : UInt64} {a : Ask} (h : rowOf a = some rowId) :
    isOn row a = true ↔ rowId = row := by
  simp [isOn, h]

/-- What the log knows of a row. -/
structure View where
  entries : List Entry
  holder : Option UInt64
  clock : UInt64
  snapshots : UInt64 → Option UInt64
  nextSnapshot : UInt64

def Log.view (row : UInt64) (l : Log) : View :=
  ⟨l.ofRow row, l.holder row, l.clock, l.snapshots, l.nextSnapshot⟩

section Rows

variable {row : UInt64} {l l' : Log}

lemma ofRow_write (l : Log) (rowId t row : UInt64) (data : List UInt8) :
    (l.write rowId t data).ofRow row = l.ofRow row ++
      if rowId = row ∧ l.holder rowId = some t then [⟨rowId, l.clock, data⟩] else [] := by
  unfold Log.write
  by_cases hholder : l.holder rowId = some t
  · rw [if_pos hholder, Log.ofRow, Log.ofRow, List.filter_append]
    by_cases hrow : rowId = row
    · subst hrow
      simp [hholder]
    · simp [hrow]
  · simp [hholder]

/-- A write as the row sees it. -/
lemma view_write (l : Log) (rowId t row : UInt64) (data : List UInt8) :
    (l.write rowId t data).view row = { l.view row with
      entries := l.ofRow row ++
        if rowId = row ∧ l.holder rowId = some t then [⟨rowId, l.clock, data⟩] else [] } := by
  rw [← ofRow_write, Log.view]
  unfold Log.write
  split_ifs <;> rfl

lemma view_write_of_ne {rowId : UInt64} (hrow : rowId ≠ row) (t : UInt64) (data : List UInt8) :
    (l.write rowId t data).view row = l.view row := by
  rw [view_write, if_neg fun h => hrow h.1, List.append_nil]
  rfl

/-- A call about another row. -/
lemma view_serve_of_other {a : Ask} (h : isOn row a = false) :
    (l.serve a).view row = l.view row := by
  have hne : ∀ {rowId}, rowOf a = some rowId → row ≠ rowId := by
    rintro rowId ha rfl
    rw [(isOn_iff ha).mpr rfl] at h
    cases h
  cases a with
  | call c =>
    cases c with
    | incrementVersion => simp [isOn, rowOf] at h
    | takeSnapshot activeTxns => simp [isOn, rowOf] at h
    | acquireLock rowId t =>
      exact congrArg (fun o => { l.view row with holder := o })
        (acquire_apply_of_ne l.holder (hne rfl) t)
    | releaseLock rowId t =>
      exact congrArg (fun o => { l.view row with holder := o })
        (release_apply_of_ne l.holder (hne rfl) t)
    | writeRow rowId t data => exact view_write_of_ne (hne rfl).symm t data
    | deleteRow rowId t => exact view_write_of_ne (hne rfl).symm t []
  | _ => rfl

lemma view_write_congr (h : l.view row = l'.view row) (t : UInt64) (data : List UInt8) :
    (l.write row t data).view row = (l'.write row t data).view row := by
  have hview := h
  simp only [Log.view, View.mk.injEq] at h
  obtain ⟨hentries, hholder, hclock, -, -⟩ := h
  rw [view_write, view_write, hview, hentries, hholder, hclock]

/-- A call about the row, or about all of them. -/
lemma view_serve_congr {a : Ask} (ha : isOn row a = true) (h : l.view row = l'.view row) :
    (l.serve a).view row = (l'.serve a).view row := by
  have hrow : ∀ {rowId}, rowOf a = some rowId → rowId = row := fun h => (isOn_iff h).mp ha
  have hview := h
  simp only [Log.view, View.mk.injEq] at h
  obtain ⟨hentries, hholder, hclock, hsnapshots, hnext⟩ := h
  cases a with
  | call c =>
    cases c with
    | incrementVersion => exact congrArg (fun w : View => { w with clock := w.clock + 1 }) hview
    | takeSnapshot activeTxns =>
      exact congrArg (fun w : View => { w with
        snapshots := Function.update w.snapshots w.nextSnapshot (some w.clock)
        nextSnapshot := w.nextSnapshot + 1 }) hview
    | acquireLock rowId t =>
      obtain rfl := hrow rfl
      simp only [Log.serve, Log.step, Log.view, Log.ofRow, acquire_apply_self, hholder, hclock,
        hsnapshots, hnext, View.mk.injEq, and_true]
      exact hentries
    | releaseLock rowId t =>
      obtain rfl := hrow rfl
      simp only [Log.serve, Log.step, Log.view, Log.ofRow, release_apply_self, hholder, hclock,
        hsnapshots, hnext, View.mk.injEq, and_true]
      exact hentries
    | writeRow rowId t data =>
      obtain rfl := hrow rfl
      exact view_write_congr hview t data
    | deleteRow rowId t =>
      obtain rfl := hrow rfl
      exact view_write_congr hview t []
  | _ => exact hview

/-- What a call about the row is answered depends on what the log knows of the row. -/
lemma answer_congr {a : Ask} (ha : isOn row a = true) (h : l.view row = l'.view row) :
    l.answer a = l'.answer a := by
  have hrow : ∀ {rowId}, rowOf a = some rowId → rowId = row := fun h => (isOn_iff h).mp ha
  simp only [Log.view, View.mk.injEq] at h
  obtain ⟨hentries, hholder, hclock, hsnapshots, hnext⟩ := h
  cases a with
  | call c =>
    cases c with
    | incrementVersion => rfl
    | releaseLock rowId t => rfl
    | takeSnapshot activeTxns => exact congrArg Answer.version hnext
    | acquireLock rowId t =>
      obtain rfl := hrow rfl
      simp only [Log.answer, hholder]
    | writeRow rowId t data =>
      obtain rfl := hrow rfl
      simp only [Log.answer, hholder]
    | deleteRow rowId t =>
      obtain rfl := hrow rfl
      simp only [Log.answer, hholder]
  | readRow rowId t =>
    obtain rfl := hrow rfl
    simp only [Log.answer, Log.read, hentries, hsnapshots]
  | getVersionCount rowId =>
    obtain rfl := hrow rfl
    simp only [Log.answer, hentries]
  | getLockCount rowId =>
    obtain rfl := hrow rfl
    simp only [Log.answer, hholder]
  | getSnapshotVersion => exact congrArg Answer.version hclock

end Rows

/-- **Rows are apart**: in every run, the calls about one row and those about all of them are
answered as if no other row were ever called for. -/
theorem rows_apart (row : UInt64) (asks : List Ask) :
    answers serve (isOn row) answer {} asks =
      answers serve (isOn row) answer {} (asks.filter (isOn row)) := by
  have h0 : Log.view row {} = Log.view row {} := rfl
  rw [answers_of_logs _ logs_empty, answers_of_logs _ logs_empty]
  exact answers_filter (fun _ _ => view_serve_of_other) (fun _ _ _ => view_serve_congr)
    (fun _ _ _ => answer_congr) h0 asks

end Dbx4.MvccLog
