import Mathlib.Algebra.Group.Nat.Defs
import Dbx4.MvccLocks

/-!
What a row reads as, under a snapshot.

A read finds its snapshot under the id of the transaction, and gives the data of the last
version whose stamp is not above the snapshot's. No operation of the coordinator registers a
snapshot. A delete leaves a version like any other, with no data, so a deleted row reads as an
empty one; and the transactions that a snapshot lists as active are read all the same.
-/

namespace Dbx4.MvccReads

open Std Dbx4.Maps Dbx4.Runs Dbx4.MvccModel Dbx4.MvccLocks

/-! ### Successful operations -/

/-- A write or a delete that returned true, with the stamp it gave; a delete has no data. -/
structure Success where
  rowId : UInt64
  stamp : UInt64
  data : Option (List UInt8)

/-- The success of a call. -/
def success (m : MVCCCoordinator) : Call → Option Success
  | .writeRow rowId txnId data =>
    if (m.writeRow rowId txnId data).1 then some ⟨rowId, m.nextVersion, some data⟩ else none
  | .deleteRow rowId txnId =>
    if (m.deleteRow rowId txnId).1 then some ⟨rowId, m.nextVersion, none⟩ else none
  | _ => none

/-- The successes of a run, the newest last. -/
def successes (m : MVCCCoordinator) : List Call → List Success
  | [] => []
  | call :: calls => (success m call).toList ++ successes (step m call) calls

/-- The newest success on a row that is stamped no higher than the snapshot. -/
def newest (row s : UInt64) (hist : List Success) : Option Success :=
  (hist.filter fun e => e.rowId = row ∧ e.stamp ≤ s).getLast?

lemma successes_concat (m : MVCCCoordinator) (calls : List Call) (call : Call) :
    successes m (calls ++ [call]) =
      successes m calls ++ (success (run step m calls) call).toList := by
  induction calls generalizing m with
  | nil => simp [successes]
  | cons call' calls ih =>
    rw [List.cons_append, successes, ih, successes, run_cons, List.append_assoc]

lemma newest_concat (row s : UInt64) (hist : List Success) (e : Success) :
    newest row s (hist ++ [e]) =
      if e.rowId = row ∧ e.stamp ≤ s then some e else newest row s hist := by
  simpa only [newest, decide_eq_true_eq] using
    getLast?_filter_concat (fun e => decide (e.rowId = row ∧ e.stamp ≤ s)) hist e

lemma written_of_success_none {m : MVCCCoordinator} {call : Call} (h : success m call = none) :
    call.written m = none := by
  cases call with
  | writeRow rowId txnId data =>
    by_cases hlock : m.lockManager.isLocked rowId txnId
    · simp [success, MVCCCoordinator.writeRow, hlock] at h
    · rw [Call.written, if_neg hlock]
  | deleteRow rowId txnId =>
    by_cases hlock : m.lockManager.isLocked rowId txnId
    · simp [success, MVCCCoordinator.deleteRow, hlock] at h
    · rw [Call.written, if_neg hlock]
  | _ => rfl

/-- A success leaves a version that is not marked deleted; that of a delete is empty. -/
lemma written_of_success {m : MVCCCoordinator} {call : Call} {e : Success}
    (h : success m call = some e) :
    e.stamp = m.nextVersion ∧ ∃ v, call.written m = some v ∧ v.rowId = e.rowId ∧
      v.data = e.data.getD [] ∧ v.isDeleted = false := by
  cases call with
  | writeRow rowId txnId data =>
    by_cases hlock : m.lockManager.isLocked rowId txnId
    · simp [success, MVCCCoordinator.writeRow, hlock] at h
      subst h
      exact ⟨rfl, _, if_pos hlock, rfl, rfl, rfl⟩
    · simp [success, MVCCCoordinator.writeRow, hlock] at h
  | deleteRow rowId txnId =>
    by_cases hlock : m.lockManager.isLocked rowId txnId
    · simp [success, MVCCCoordinator.deleteRow, hlock] at h
      subst h
      exact ⟨rfl, _, if_pos hlock, rfl, rfl, rfl⟩
    · simp [success, MVCCCoordinator.deleteRow, hlock] at h
  | _ => cases h

/-! ### Reading under a snapshot -/

/-- The version that a snapshot with the stamp `s` selects, marks and data alone. -/
def selected (m : MVCCCoordinator) (row s : UInt64) : Option (Bool × List UInt8) :=
  (m.versionManager.getVersion row s).map fun v => (v.isDeleted, v.data)

lemma readRow_eq {m : MVCCCoordinator} {t : UInt64} {snap : Snapshot}
    (h : m.snapshotManager.getSnapshot t = some snap) (row : UInt64) :
    m.readRow row t = (selected m row snap.snapshotVersion).bind fun v =>
      if v.1 then none else some v.2 := by
  rw [MVCCCoordinator.readRow, h, selected, Option.bind_map]
  rfl

lemma selected_step_of_none {m : MVCCCoordinator} {call : Call} (h : success m call = none)
    (row s : UInt64) : selected (step m call) row s = selected m row s := by
  rw [selected, versionManager_of_none (written_of_success_none h), selected]

/-- **One call**: a success on the row, stamped no higher than the snapshot, is selected. -/
lemma selected_step_of_some {m : MVCCCoordinator} {call : Call} {e : Success}
    (h : success m call = some e) (row s : UInt64) :
    selected (step m call) row s =
      if e.rowId = row ∧ e.stamp ≤ s then some (false, e.data.getD []) else selected m row s := by
  obtain ⟨hstamp, v, hv, hrow, hdata, hlive⟩ := written_of_success h
  rw [selected, getVersion_of_some hv, hrow, hstamp]
  split_ifs
  · rw [Option.map_some, hdata, hlive]
  · rfl

/-- **A run** selects the newest success, from whatever snapshots it starts with. -/
theorem selected_run (snapshots : SnapshotManager) (calls : List Call) (row s : UInt64) :
    selected (run step { snapshotManager := snapshots } calls) row s =
      (newest row s (successes { snapshotManager := snapshots } calls)).map fun e =>
        (false, e.data.getD []) := by
  induction calls using List.reverseRecOn with
  | nil =>
    simp [selected, VersionManager.getVersion, successes, newest]
  | append_singleton calls call ih =>
    rw [run_append, run_cons, run_nil, successes_concat]
    rcases he : success (run step { snapshotManager := snapshots } calls) call with _ | e
    · rw [selected_step_of_none he, Option.toList_none, List.append_nil]
      exact ih
    · rw [selected_step_of_some he, Option.toList_some, newest_concat]
      split_ifs
      · rfl
      · exact ih

/-- **When a read is right**: exactly when the newest success on the row, as far as the
snapshot sees, is not a delete. -/
theorem readRow_eq_newest_iff (snapshots : SnapshotManager) (calls : List Call) {t : UInt64}
    {snap : Snapshot}
    (hsnap : (run step { snapshotManager := snapshots } calls).snapshotManager.getSnapshot t =
      some snap) (row : UInt64) :
    let hist := successes { snapshotManager := snapshots } calls
    (run step { snapshotManager := snapshots } calls).readRow row t =
        (newest row snap.snapshotVersion hist).bind Success.data ↔
      ∀ e, newest row snap.snapshotVersion hist = some e → e.data ≠ none := by
  intro hist
  rw [readRow_eq hsnap, selected_run]
  rcases newest row snap.snapshotVersion hist with _ | e
  · simp
  · rcases hdata : e.data with _ | data <;> simp [hdata]

/-- A write, read under the snapshot 0. -/
theorem readRow_eq_newest_write :
    let calls : List Call := [.takeSnapshot ∅, .acquireLock 1 0, .writeRow 1 0 [7]]
    let hist := successes {} calls
    (run step {} calls).readRow 1 0 = (newest 1 0 hist).bind Success.data := by
  have hsnap : (run step {} [.takeSnapshot ∅, .acquireLock 1 0,
      .writeRow 1 0 [7]]).snapshotManager.getSnapshot 0 = some ⟨0, 0, 0, ∅⟩ := rfl
  refine (readRow_eq_newest_iff {} _ hsnap 1).mpr fun e he => ?_
  cases he
  exact Option.some_ne_none [7]

/-- A deleted row reads as an empty one. -/
theorem readRow_ne_newest_delete :
    let calls : List Call :=
      [.takeSnapshot ∅, .acquireLock 1 0, .writeRow 1 0 [7], .deleteRow 1 0]
    let hist := successes {} calls
    ¬ (run step {} calls).readRow 1 0 = (newest 1 0 hist).bind Success.data := by
  decide

/-! ### Reading one's own writes -/

/-- The operations of the coordinator: it has none that registers a snapshot. -/
def isOperation : Call → Bool
  | .takeSnapshot _ => false
  | _ => true

/-- After a write that returned true, and no success on the row since, the transaction reads
what it wrote. -/
def ReadsOwnWrites (calls : List Call) : Prop :=
  ∀ pre row t data mid post, calls = pre ++ .writeRow row t data :: (mid ++ post) →
    ((run step {} pre).writeRow row t data).1 = true →
      (∀ e ∈ successes (run step {} (pre ++ [.writeRow row t data])) mid, e.rowId ≠ row) →
        (run step {} (pre ++ .writeRow row t data :: mid)).readRow row t = some data

/-- No operation registers a snapshot. -/
lemma snapshotManager_step {call : Call} (hcall : isOperation call) (m : MVCCCoordinator) :
    (step m call).snapshotManager = m.snapshotManager := by
  cases call with
  | takeSnapshot activeTxns => cases hcall
  | writeRow row t data =>
    simp only [step, MVCCCoordinator.writeRow]
    split_ifs <;> rfl
  | deleteRow row t =>
    simp only [step, MVCCCoordinator.deleteRow]
    split_ifs <;> rfl
  | _ => rfl

lemma snapshotManager_run {calls : List Call} (hcalls : ∀ call ∈ calls, isOperation call)
    (m : MVCCCoordinator) : (run step m calls).snapshotManager = m.snapshotManager := by
  induction calls generalizing m with
  | nil => rfl
  | cons call calls ih =>
    rw [List.forall_mem_cons] at hcalls
    rw [run_cons, ih hcalls.2, snapshotManager_step hcalls.1]

/-- So nothing is ever read. -/
lemma readRow_eq_none {calls : List Call} (hcalls : ∀ call ∈ calls, isOperation call)
    (row t : UInt64) : (run step {} calls).readRow row t = none := by
  rw [MVCCCoordinator.readRow, snapshotManager_run hcalls, SnapshotManager.getSnapshot]
  simp

lemma writeRow_fst (m : MVCCCoordinator) (row t : UInt64) (data : List UInt8) :
    (m.writeRow row t data).1 = m.lockManager.isLocked row t := by
  rw [MVCCCoordinator.writeRow]
  split_ifs with hlock
  · exact hlock.symm
  · exact (Bool.eq_false_iff.mpr hlock).symm

/-- **When one's own writes are read**: in the runs where no write finds its row locked by the
transaction, so that there is nothing to read, and in no other. -/
theorem readsOwnWrites_iff {calls : List Call} (hcalls : ∀ call ∈ calls, isOperation call) :
    ReadsOwnWrites calls ↔ ∀ pre row t data post, calls = pre ++ .writeRow row t data :: post →
      (run step {} pre).lockManager.isLocked row t = false := by
  constructor
  · intro h pre row t data post he
    by_contra hlock
    have hwritten : ((run step {} pre).writeRow row t data).1 = true := by
      rw [writeRow_fst]
      exact Bool.not_eq_false _ ▸ hlock
    -- right after the write the transaction reads nothing
    have hread := h pre row t data [] post he hwritten fun e hmem => by cases hmem
    rw [readRow_eq_none] at hread
    · cases hread
    · intro call hcall
      refine hcalls call ?_
      rw [he, List.append_cons]
      exact List.mem_append_left _ hcall
  · intro h pre row t data mid post he hwritten
    rw [writeRow_fst, h pre row t data _ he] at hwritten
    cases hwritten

/-- A write without the lock. -/
theorem readsOwnWrites_unlocked : ReadsOwnWrites [.acquireLock 1 1, .writeRow 1 2 [7]] := by
  refine (readsOwnWrites_iff (by decide)).mpr fun pre row t data post he => ?_
  rcases pre with _ | ⟨first, _ | ⟨second, pre⟩⟩
  · cases he
  · cases he
    decide
  · simp at he

/-- A transaction locks a row, writes it, and reads nothing. -/
theorem not_readsOwnWrites : ¬ ReadsOwnWrites [.acquireLock 1 1, .writeRow 1 1 [7]] := by
  intro h
  have hread := h [.acquireLock 1 1] 1 1 [7] [] [] rfl (by decide) fun e he => by cases he
  revert hread
  decide

/-! ### The transactions a snapshot lists as active -/

lemma latest_eq_find? (s : UInt64) (versions : List Version) :
    VersionManager.latest s versions =
      versions.reverse.find? fun v => decide (v.snapshotVersion ≤ s) := by
  induction versions using List.reverseRecOn with
  | nil => rfl
  | append_singleton versions v ih =>
    rw [latest_append, List.reverse_concat, ih]
    by_cases hv : v.snapshotVersion ≤ s
    · rw [if_pos hv, List.find?_cons_of_pos (by simpa using hv)]
    · rw [if_neg hv, List.find?_cons_of_neg (by simpa using hv)]

/-- The version that a snapshot selects, and those behind it. -/
lemma latest_eq_some_iff {s : UInt64} {versions : List Version} {v : Version} :
    VersionManager.latest s versions = some v ↔
      ∃ pre post, versions = pre ++ v :: post ∧ v.snapshotVersion ≤ s ∧
        ∀ w ∈ post, ¬ w.snapshotVersion ≤ s := by
  rw [latest_eq_find?, List.find?_eq_some_iff_append]
  constructor
  · rintro ⟨hv, post, pre, he, hpost⟩
    refine ⟨pre.reverse, post.reverse, ?_, of_decide_eq_true hv, fun w hw => ?_⟩
    · rw [← List.reverse_reverse versions, he]
      simp
    · simpa using hpost w (List.mem_reverse.mp hw)
  · rintro ⟨pre, post, rfl, hv, hpost⟩
    refine ⟨decide_eq_true hv, post.reverse, pre.reverse, by simp, fun w hw => ?_⟩
    simpa using hpost w (List.mem_reverse.mp hw)

lemma getVersion_eq_latest (m : MVCCCoordinator) (row s : UInt64) :
    m.versionManager.getVersion row s = VersionManager.latest s (versionsOf m row) := by
  rw [VersionManager.getVersion, versionsOf]
  rcases m.versionManager.versions[row]? with _ | versions <;> rfl

/-- The version that is read is of no transaction that the snapshot lists as active. -/
def ReadsInactive (m : MVCCCoordinator) (row t : UInt64) (snap : Snapshot) : Prop :=
  ∀ v, m.versionManager.getVersion row snap.snapshotVersion = some v →
    m.readRow row t = some v.data → v.txnId ∉ snap.activeTransactions

/-- Behind every live version of an active transaction, as far as the snapshot sees, comes
another that the snapshot sees. -/
def ActiveCovered (snap : Snapshot) (versions : List Version) : Prop :=
  ∀ pre v post, versions = pre ++ v :: post → v.snapshotVersion ≤ snap.snapshotVersion →
    v.isDeleted = false → v.txnId ∈ snap.activeTransactions →
      ∃ w ∈ post, w.snapshotVersion ≤ snap.snapshotVersion

/-- **When reads keep away from active transactions**: only the order of the versions can
hide one; the list of the snapshot is not looked at. -/
theorem readsInactive_iff {m : MVCCCoordinator} {t : UInt64} {snap : Snapshot}
    (hsnap : m.snapshotManager.getSnapshot t = some snap) (row : UInt64) :
    ReadsInactive m row t snap ↔ ActiveCovered snap (versionsOf m row) := by
  have hread : ∀ v, m.versionManager.getVersion row snap.snapshotVersion = some v →
      (m.readRow row t = some v.data ↔ v.isDeleted = false) := by
    intro v hv
    rw [readRow_eq hsnap, selected, hv, Option.map_some, Option.bind_some]
    rcases v.isDeleted with _ | _ <;> simp
  constructor
  · intro h pre v post he hv hlive hactive
    by_contra hpost
    have hselected : m.versionManager.getVersion row snap.snapshotVersion = some v := by
      rw [getVersion_eq_latest]
      exact latest_eq_some_iff.mpr
        ⟨pre, post, he, hv, fun w hw hle => hpost ⟨w, hw, hle⟩⟩
    exact h v hselected ((hread v hselected).mpr hlive) hactive
  · intro h v hselected hdata hactive
    have hlive := (hread v hselected).mp hdata
    rw [getVersion_eq_latest] at hselected
    obtain ⟨pre, post, he, hv, hpost⟩ := latest_eq_some_iff.mp hselected
    obtain ⟨w, hw, hle⟩ := h pre v post he hv hlive hactive
    exact hpost w hw hle

theorem readsInactive_two :
    ReadsInactive (run step {} [.takeSnapshot (only 5), .acquireLock 1 6, .writeRow 1 6 [7]])
      1 0 ⟨0, 0, 0, only 5⟩ := by
  refine (readsInactive_iff rfl 1).mpr fun pre v post he _ _ hactive => ?_
  have hversions : [(⟨0, 1, 6, 0, [7], false⟩ : Version)] = pre ++ v :: post := he
  have hv : v ∈ [(⟨0, 1, 6, 0, [7], false⟩ : Version)] := by
    rw [hversions]
    simp
  rw [List.mem_singleton.mp hv, mem_only] at hactive
  cases hactive

/-- The snapshot lists the transaction 5 as active, and reads what it writes. -/
theorem not_readsInactive :
    ¬ ReadsInactive (run step {} [.takeSnapshot (only 5), .acquireLock 1 5, .writeRow 1 5 [7]])
      1 0 ⟨0, 0, 0, only 5⟩ :=
  fun h => h ⟨0, 1, 5, 0, [7], false⟩ (by decide) (by decide) (mem_only.mpr rfl)

end Dbx4.MvccReads
