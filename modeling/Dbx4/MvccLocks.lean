import Dbx4.LockTable
import Dbx4.Runs
import Dbx4.MvccModel

/-!
Row locks exclude.

The lock manager keeps a set of lockers for each row, and no row ever has more than one: it is
a table of exclusive locks. Whoever has acquired a row keeps it until its own release, and
until then no other transaction writes a version of the row.
-/

namespace Dbx4.MvccLocks

open Std Dbx4.Maps Dbx4.Runs Dbx4.LockTable Dbx4.MvccModel

/-- The set of one locker. -/
def only (t : UInt64) : ExtTreeSet UInt64 := (∅ : ExtTreeSet UInt64).insert t

lemma mem_only {t x : UInt64} : x ∈ only t ↔ t = x := by
  simp [only, ExtTreeSet.mem_insert]

lemma isEmpty_only (t : UInt64) : (only t).isEmpty = false := by simp [only]

lemma empty_insert (t : UInt64) : (∅ : ExtTreeSet UInt64).insert t = only t := rfl

lemma only_erase_self (t : UInt64) : (only t).erase t = ∅ := by
  apply ExtTreeSet.ext_mem
  intro x
  simp [ExtTreeSet.mem_erase, mem_only]

lemma only_erase_of_ne {t t' : UInt64} (h : t ≠ t') : (only t).erase t' = only t := by
  apply ExtTreeSet.ext_mem
  intro x
  rw [ExtTreeSet.mem_erase, mem_only, ne_eq, LawfulEqOrd.compare_eq_iff_eq]
  refine ⟨And.right, fun hx => ⟨fun hx' => h (hx.trans hx'.symm), hx⟩⟩

/-- The lockers of a row are its holder in the table, if there is one. -/
def Holds (m : LockManager) (h : Table UInt64 UInt64) : Prop :=
  ∀ row, m.rowLocks[row]? = (h row).map only

lemma holds_empty : Holds {} fun _ => none := by
  intro row
  simp

lemma isLocked_iff {m : LockManager} {h : Table UInt64 UInt64} (hm : Holds m h)
    (row t : UInt64) : m.isLocked row t = true ↔ h row = some t := by
  rw [LockManager.isLocked, hm row]
  rcases h row with _ | holder
  · simp
  · simp [mem_only]

/-- Asking for a row succeeds when the row is free. -/
lemma acquireLock_fst {m : LockManager} {h : Table UInt64 UInt64} (hm : Holds m h)
    (row t : UInt64) (blocking : Bool) :
    (m.acquireLock row t blocking).1 = true ↔ h row = none := by
  rw [LockManager.acquireLock, hm row]
  rcases h row with _ | holder
  · simp
  · simp only [Option.map_some, Option.getD_some, isEmpty_only]
    cases blocking <;> simp

lemma holds_acquireLock {m : LockManager} {h : Table UInt64 UInt64} (hm : Holds m h)
    (row t : UInt64) (blocking : Bool) :
    Holds (m.acquireLock row t blocking).2 ((Op.acquire row t).apply h) := by
  rw [LockManager.acquireLock, hm row]
  rcases hrow : h row with _ | holder
  · rw [acquire_of_free hrow]
    intro row'
    simp only [Option.map_none, Option.getD_none, ExtTreeSet.isEmpty_empty, if_true, empty_insert]
    by_cases hne : row = row'
    · subst hne
      simp
    · rw [getElem?_insert_of_ne _ hne, Function.update_of_ne (Ne.symm hne)]
      exact hm row'
  · rw [acquire_of_held (by simp [hrow])]
    simp only [Option.map_some, Option.getD_some, isEmpty_only]
    cases blocking <;> exact hm

lemma holds_releaseLock {m : LockManager} {h : Table UInt64 UInt64} (hm : Holds m h)
    (row t : UInt64) : Holds (m.releaseLock row t) ((Op.release row t).apply h) := by
  rw [LockManager.releaseLock, hm row]
  rcases hrow : h row with _ | holder
  · rw [release_of_other (by simp [hrow])]
    exact hm
  · by_cases ht : holder = t
    · subst ht
      rw [release_of_holder hrow]
      intro row'
      simp only [Option.map_some, only_erase_self, ExtTreeSet.isEmpty_empty, if_true]
      by_cases hne : row = row'
      · subst hne
        simp
      · rw [getElem?_erase_of_ne _ hne, Function.update_of_ne (Ne.symm hne)]
        exact hm row'
    · rw [release_of_other (by simp [hrow, ht])]
      intro row'
      simp only [Option.map_some, only_erase_of_ne ht, isEmpty_only]
      by_cases hne : row = row'
      · subst hne
        simp [hrow]
      · exact (getElem?_insert_of_ne _ hne _).trans (hm row')

/-! ### Runs of the coordinator -/

/-- What a call asks of the lock table. -/
def lockOp : Call → Option (Op UInt64 UInt64)
  | .acquireLock rowId txnId => some (.acquire rowId txnId)
  | .releaseLock rowId txnId => some (.release rowId txnId)
  | _ => none

def tableStep (h : Table UInt64 UInt64) (call : Call) : Table UInt64 UInt64 :=
  match lockOp call with
  | none => h
  | some op => op.apply h

lemma holds_step {m : MVCCCoordinator} {h : Table UInt64 UInt64} (hm : Holds m.lockManager h)
    (call : Call) : Holds (step m call).lockManager (tableStep h call) := by
  cases call with
  | acquireLock row t => exact holds_acquireLock hm row t false
  | releaseLock row t => exact holds_releaseLock hm row t
  | writeRow row t data =>
    simp only [step, MVCCCoordinator.writeRow]
    split_ifs <;> exact hm
  | deleteRow row t =>
    simp only [step, MVCCCoordinator.deleteRow]
    split_ifs <;> exact hm
  | incrementVersion => exact hm
  | takeSnapshot activeTxns => exact hm

lemma holds_run (calls : List Call) :
    Holds (run step {} calls).lockManager (run tableStep (fun _ => none) calls) :=
  run_sim (R := fun (m : MVCCCoordinator) h => Holds m.lockManager h)
    (fun _ _ call hm => holds_step hm call) holds_empty calls

lemma held_tableStep {h : Table UInt64 UInt64} {row t : UInt64} (hrow : h row = some t)
    {call : Call} (hcall : call ≠ .releaseLock row t) : tableStep h call row = some t := by
  cases call with
  | acquireLock row' t' => exact held_apply hrow (show Op.acquire row' t' ≠ .release row t by simp)
  | releaseLock row' t' =>
    have hop : Op.release row' t' ≠ .release row t := by
      rintro h
      cases h
      exact hcall rfl
    exact held_apply hrow hop
  | _ => exact hrow

/-- The versions of a row, in the order they were created. -/
def versionsOf (m : MVCCCoordinator) (row : UInt64) : List Version :=
  m.versionManager.versions[row]?.getD []

/-- What a call writes in a row: nothing, or one version of a transaction that holds it. -/
lemma versionsOf_step {m : MVCCCoordinator} {h : Table UInt64 UInt64}
    (hm : Holds m.lockManager h) (call : Call) (row : UInt64) :
    versionsOf (step m call) row = versionsOf m row ∨
      ∃ v, versionsOf (step m call) row = versionsOf m row ++ [v] ∧ h row = some v.txnId := by
  rcases hw : call.written m with _ | v
  · rw [versionsOf, versionManager_of_none hw]
    exact Or.inl rfl
  · obtain ⟨hv, hstep⟩ := versionManager_of_some hw
    have hlocked : h v.rowId = some v.txnId := (isLocked_iff hm _ _).mp (isLocked_of_written hw)
    rw [versionsOf, hstep, VersionManager.createVersion, ← hv]
    by_cases hrow : v.rowId = row
    · subst hrow
      exact Or.inr ⟨v, by simp [versionsOf], hlocked⟩
    · exact Or.inl (by simp only [versionsOf, getElem?_insert_of_ne _ hrow])

/-- Row locks exclude in a run of the coordinator. -/
structure Excludes (calls : List Call) : Prop where
  atMostOne : ∀ row t t', (run step {} calls).lockManager.isLocked row t = true →
    (run step {} calls).lockManager.isLocked row t' = true → t = t'
  /-- Between an acquire that returned true and the release, the others' writes fail. -/
  refused : ∀ pre row t mid post, calls = pre ++ .acquireLock row t :: (mid ++ post) →
    ((run step {} pre).acquireLock row t).1 = true → .releaseLock row t ∉ mid →
      ∀ t', t' ≠ t → (∀ data,
        ((run step {} (pre ++ .acquireLock row t :: mid)).writeRow row t' data).1 = false) ∧
        ((run step {} (pre ++ .acquireLock row t :: mid)).deleteRow row t').1 = false
  /-- In between, the row gets versions of the holder only. -/
  grown : ∀ pre row t mid post, calls = pre ++ .acquireLock row t :: (mid ++ post) →
    ((run step {} pre).acquireLock row t).1 = true → .releaseLock row t ∉ mid →
      ∃ vs, versionsOf (run step {} (pre ++ .acquireLock row t :: mid)) row =
        versionsOf (run step {} pre) row ++ vs ∧ ∀ v ∈ vs, v.txnId = t

/-- From its acquire to its release a transaction holds the row, and the versions the row gets
are its own. -/
lemma held_run {pre mid : List Call} {row t : UInt64}
    (hacq : ((run step {} pre).acquireLock row t).1 = true) (hmid : .releaseLock row t ∉ mid) :
    run tableStep (fun _ => none) (pre ++ .acquireLock row t :: mid) row = some t ∧
      ∃ vs, versionsOf (run step {} (pre ++ .acquireLock row t :: mid)) row =
        versionsOf (run step {} pre) row ++ vs ∧ ∀ v ∈ vs, v.txnId = t := by
  induction mid using List.reverseRecOn with
  | nil =>
    have hfree := (acquireLock_fst (holds_run pre) row t false).mp hacq
    refine ⟨?_, [], ?_, by simp⟩
    · rw [run_append, run_cons, run_nil]
      refine (congrFun (acquire_of_free hfree t) row).trans ?_
      simp
    · rw [run_append, run_cons, run_nil, List.append_nil]
      rfl
  | append_singleton mid call ih =>
    simp only [List.mem_append, List.mem_singleton, not_or] at hmid
    obtain ⟨hheld, vs, hvs, hown⟩ := ih hmid.1
    rw [← List.cons_append, ← List.append_assoc, run_append _ _ (pre ++ _),
      run_append _ _ (pre ++ _)]
    refine ⟨held_tableStep hheld (Ne.symm hmid.2), ?_⟩
    rcases versionsOf_step (holds_run _) call row with hsame | ⟨v, hv, hholder⟩
    · exact ⟨vs, hsame.trans hvs, hown⟩
    · refine ⟨vs ++ [v], ?_, ?_⟩
      · rw [run_cons, run_nil, hv, hvs, List.append_assoc]
      · intro w hw
        rcases List.mem_append.mp hw with hw | hw
        · exact hown w hw
        · rw [List.mem_singleton.mp hw]
          exact Option.some_inj.mp (hholder.symm.trans hheld)

/-- **Row locks exclude** in every interleaving of the coordinator's calls. -/
theorem excludes (calls : List Call) : Excludes calls := by
  refine ⟨fun row t t' ht ht' => ?_, fun pre row t mid post _ hacq hmid t' ht' => ?_,
    fun pre row t mid post _ hacq hmid => (held_run hacq hmid).2⟩
  · have hholder := (isLocked_iff (holds_run calls) row t).mp ht
    have hholder' := (isLocked_iff (holds_run calls) row t').mp ht'
    exact Option.some_inj.mp (hholder.symm.trans hholder')
  · have hheld := (held_run hacq hmid).1
    have hother : ¬ (run step {} (pre ++ .acquireLock row t :: mid)).lockManager.isLocked row t'
        = true := by
      rw [isLocked_iff (holds_run _), hheld, Option.some_inj]
      exact Ne.symm ht'
    refine ⟨fun data => ?_, ?_⟩
    · rw [MVCCCoordinator.writeRow, if_neg hother]
    · rw [MVCCCoordinator.deleteRow, if_neg hother]

end Dbx4.MvccLocks
