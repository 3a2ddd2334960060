import Dbx4.TxnAlone

/-!
What a transaction of the manager has on record about its writes.

The writes to all tables share one map, under the text `table:row`: a read finds the last
write under its text, which may have been one to another row. The write set, the undo log and
that map are kept in step, up to a rollback, which leaves the write set as it is.
-/

namespace Dbx4.TxnWrites

open Std Dbx4.Maps Dbx4.Runs Dbx4.TxnModel Dbx4.TxnAlone

/-! ### Writes -/

/-- A row, and the version that a write leaves there. -/
structure Write where
  table : String
  rowId : String
  version : VersionedRow

def Write.key (w : Write) : String := TxnModel.key w.table w.rowId

/-- What a call writes. -/
def write? : Call → Option Write
  | .insert _ table rowId row => some ⟨table, rowId, row⟩
  | .update _ table rowId _ new => some ⟨table, rowId, new⟩
  | .deleteRow _ table rowId old => some ⟨table, rowId, { old with isDeleted := true }⟩
  | _ => none

/-- A write, or a read. -/
def isAccess : Call → Bool
  | .insert .. | .update .. | .deleteRow .. | .read .. => true
  | _ => false

/-- The writes of a transaction, in the order of the calls. -/
def writes (t : Int32) (calls : List Call) : List Write := (calls.filter (own t)).filterMap write?

/-- The last write to exactly this row. -/
def lastTo (table rowId : String) (ws : List Write) : Option Write :=
  (ws.filter fun w => w.table = table ∧ w.rowId = rowId).getLast?

/-- The last write under a text. -/
def lastUnder (k : String) (ws : List Write) : Option Write :=
  (ws.filter fun w => w.key = k).getLast?

lemma writes_concat (t : Int32) (calls : List Call) (call : Call) :
    writes t (calls ++ [call]) =
      writes t calls ++ if own t call then (write? call).toList else [] := by
  unfold writes
  rw [List.filter_append, List.filterMap_append]
  split_ifs with h
  · rw [List.filter_cons_of_pos h, List.filter_nil]
    rcases hw : write? call with _ | w <;> simp [hw]
  · rw [List.filter_cons_of_neg h]
    rfl

lemma lastUnder_nil (k : String) : lastUnder k [] = none := rfl

lemma lastUnder_concat (k : String) (ws : List Write) (w : Write) :
    lastUnder k (ws ++ [w]) = if w.key = k then some w else lastUnder k ws := by
  simpa only [lastUnder, decide_eq_true_eq] using
    getLast?_filter_concat (fun w => decide (w.key = k)) ws w

lemma lastTo_eq_none_of_lastUnder {table rowId : String} {ws : List Write}
    (h : lastUnder (key table rowId) ws = none) : lastTo table rowId ws = none := by
  unfold lastUnder at h
  unfold lastTo
  rw [List.getLast?_eq_none_iff, List.filter_eq_nil_iff] at h ⊢
  intro w hw hto
  have hpair := of_decide_eq_true hto
  refine h w hw (decide_eq_true ?_)
  rw [Write.key, hpair.1, hpair.2]

/-! ### Reading one's own writes -/

/-- What a call leaves under a text. -/
lemma localWrites_onRecord {call : Call} (h : isAccess call) (txn : Transaction) (k : String) :
    (call.onRecord txn).localWrites[k]? =
      match write? call with
      | some w => if w.key = k then some w.version else txn.localWrites[k]?
      | none => txn.localWrites[k]? := by
  have hwrite (undo : UndoLogEntry) (row : VersionedRow) :
      (txn.write undo row).localWrites[k]? =
        if undo.key = k then some row else txn.localWrites[k]? := by
    show (txn.localWrites.insert undo.key row)[k]? = _
    split_ifs with hk
    · rw [hk, ExtTreeMap.getElem?_insert_self]
    · exact getElem?_insert_of_ne _ hk row
  cases call with
  | insert id table rowId row => exact hwrite _ row
  | update id table rowId old new => exact hwrite _ new
  | deleteRow id table rowId old => exact hwrite _ _
  | read id table rowId outRow => rfl
  | _ => cases h

/-- The record of a transaction holds, under every text, the version of the last write. -/
def Holds (ws : List Write) (record : Option Transaction) : Prop :=
  ∃ txn, record = some txn ∧
    ∀ k, txn.localWrites[k]? = (lastUnder k ws).map Write.version

lemma holds_step {m : TransactionManager} {t : Int32} {ws : List Write} {call : Call}
    (h : Holds ws m.transactions[t]?) (hcall : own t call → isAccess call) :
    Holds (ws ++ if own t call then (write? call).toList else [])
      (step m call).transactions[t]? := by
  obtain ⟨txn, htxn, hwrites⟩ := h
  by_cases hown : own t call
  · have ht : call.txnId = t := of_decide_eq_true hown
    refine ⟨call.onRecord txn, ?_, fun k => ?_⟩
    · rw [getElem?_step, if_pos ht, htxn, Option.map_some, Option.some_or]
    · rw [localWrites_onRecord (hcall hown), if_pos hown]
      rcases write? call with _ | w
      · rw [Option.toList_none, List.append_nil]
        exact hwrites k
      · rw [Option.toList_some, lastUnder_concat]
        dsimp only
        split_ifs
        · rfl
        · exact hwrites k
  · rw [if_neg hown, List.append_nil, record_step_of_other m (Bool.eq_false_iff.mpr hown)]
    exact ⟨txn, htxn, hwrites⟩

/-- **The local writes of a transaction** that only writes and reads, among whatever calls of
others. -/
theorem holds_run {m : TransactionManager} {t : Int32} (ht : t ∉ m.transactions)
    {calls : List Call} (hcalls : ∀ call ∈ calls, own t call → isAccess call) :
    Holds (writes t calls) (run step (m.begin t).2 calls).transactions[t]? := by
  induction calls using List.reverseRecOn with
  | nil =>
    refine ⟨{ txnId := t, active := true }, ?_, fun k => ?_⟩
    · simp [TransactionManager.begin, ht]
    · rw [show writes t [] = [] from rfl, lastUnder_nil]
      exact ExtTreeMap.getElem?_empty
  | append_singleton calls call ih =>
    rw [run_append, run_cons, run_nil, writes_concat]
    refine holds_step (ih fun c hc => hcalls c (List.mem_append_left _ hc)) ?_
    exact hcalls call (List.mem_append_right _ (List.mem_singleton_self call))

/-- A transaction that begins and makes the calls among those of others reads its own last
write to the row, and finds nothing where it has made none. -/
def ReadsOwn (m : TransactionManager) (t : Int32) (calls : List Call) (table rowId : String) :
    Prop :=
  ∀ outRow,
    let result := (run step (m.begin t).2 calls).read t table rowId outRow
    match lastTo table rowId (writes t calls) with
    | some w => result.1 = true ∧ result.2.1 = w.version
    | none => result.1 = false

/-- The last write under the text of the row was one to the row, or left the same version
there as the last one to the row. -/
def Unconfused (t : Int32) (calls : List Call) (table rowId : String) : Prop :=
  ∀ w, lastUnder (key table rowId) (writes t calls) = some w →
    ∃ w', lastTo table rowId (writes t calls) = some w' ∧ w'.version = w.version

/-- **When a transaction reads its own writes**. -/
theorem readsOwn_iff {m : TransactionManager} {t : Int32} (ht : t ∉ m.transactions)
    {calls : List Call} (hcalls : ∀ call ∈ calls, own t call → isAccess call)
    (table rowId : String) :
    ReadsOwn m t calls table rowId ↔ Unconfused t calls table rowId := by
  obtain ⟨txn, htxn, hwrites⟩ := holds_run ht hcalls
  have hkey := hwrites (key table rowId)
  unfold ReadsOwn Unconfused
  simp only [TransactionManager.read, htxn]
  rcases hunder : lastUnder (key table rowId) (writes t calls) with _ | w
  · rw [hunder, Option.map_none] at hkey
    simp only [hkey, lastTo_eq_none_of_lastUnder hunder]
    exact iff_of_true (fun _ => trivial) fun w hw => by cases hw
  · rw [hunder, Option.map_some] at hkey
    simp only [hkey, Option.some.injEq, forall_eq']
    rcases lastTo table rowId (writes t calls) with _ | w'
    · exact iff_of_false (fun h => absurd (h {}) (by simp)) (by simp)
    · simp only [Option.some.injEq, exists_eq_left', true_and]
      exact ⟨fun h => (h {}).symm, fun h _ => h.symm⟩

theorem readsOwn_oneRow : ReadsOwn {} 1 [.insert 1 "t" "r" { versionId := 1 }] "t" "r" := by
  have hto : lastTo "t" "r" (writes 1 [.insert 1 "t" "r" { versionId := 1 }]) =
      lastUnder (key "t" "r") (writes 1 [.insert 1 "t" "r" { versionId := 1 }]) := rfl
  refine (readsOwn_iff (by simp) (fun call hcall _ => ?_) "t" "r").mpr fun w hw => ⟨w, ?_, rfl⟩
  · rw [List.mem_singleton.mp hcall]
    rfl
  · rw [hto, hw]

/-- The row `c` of a table `a:b` is read as the row `b:c` of the table `a`. -/
theorem not_readsOwn_colon :
    ¬ ReadsOwn {} 1 [.insert 1 "a:b" "c" { versionId := 1 }] "a" "b:c" := by
  intro h
  have hnone : lastTo "a" "b:c" (writes 1 [.insert 1 "a:b" "c" { versionId := 1 }]) = none := by
    decide
  have hfound := h {}
  rw [hnone] at hfound
  revert hfound
  decide

/-! ### The three records of a transaction -/

/-- Local writes, write set and undo log name the same texts. -/
structure InStep (txn : Transaction) : Prop where
  localWrites : ∀ k, k ∈ txn.localWrites ↔ k ∈ txn.writeSet
  undoLog : ∀ k, k ∈ txn.writeSet ↔ k ∈ txn.undoLog.map UndoLogEntry.key

def AllInStep (m : TransactionManager) : Prop :=
  ∀ (t : Int32) (txn : Transaction), m.transactions[t]? = some txn → InStep txn

/-- A rollback finds nothing written. -/
def RollsBackUnwritten (m : TransactionManager) : Call → Prop
  | .rollback t => ∀ txn, m.transactions[t]? = some txn → ∀ k, k ∉ txn.writeSet
  | _ => True

lemma InStep.write {txn : Transaction} (h : InStep txn) (undo : UndoLogEntry)
    (row : VersionedRow) : InStep (txn.write undo row) where
  localWrites k := by
    show k ∈ txn.localWrites.insert undo.key row ↔ k ∈ txn.writeSet.insert undo.key
    rw [mem_insert_iff, ExtTreeSet.mem_insert, LawfulEqOrd.compare_eq_iff_eq, h.localWrites]
  undoLog k := by
    show k ∈ txn.writeSet.insert undo.key ↔ k ∈ (txn.undoLog ++ [undo]).map UndoLogEntry.key
    rw [ExtTreeSet.mem_insert, LawfulEqOrd.compare_eq_iff_eq, h.undoLog, List.map_append,
      List.mem_append, List.map_singleton, List.mem_singleton, or_comm, eq_comm]

lemma inStep_rollback_iff (txn : Transaction) :
    InStep txn.rollback ↔ ∀ k, k ∉ txn.writeSet := by
  refine ⟨fun h k hk => ?_, fun h => ⟨fun k => ?_, fun k => ?_⟩⟩
  · have hmem : k ∈ txn.rollback.localWrites := (h.localWrites k).mpr hk
    exact ExtTreeMap.not_mem_empty hmem
  · exact iff_of_false ExtTreeMap.not_mem_empty (h k)
  · exact iff_of_false (h k) List.not_mem_nil

lemma inStep_onRecord {txn : Transaction} (h : InStep txn) {call : Call}
    (hcall : ∀ t, call ≠ .rollback t) : InStep (call.onRecord txn) := by
  cases call with
  | rollback t => exact absurd rfl (hcall t)
  | insert id table rowId row => exact h.write _ row
  | update id table rowId old new => exact h.write _ new
  | deleteRow id table rowId old => exact h.write _ _
  | _ => exact ⟨h.localWrites, h.undoLog⟩

lemma inStep_newRecord {call : Call} {txn : Transaction} (h : call.newRecord = some txn) :
    InStep txn := by
  cases call with
  | begin t =>
    cases h
    exact ⟨fun k => iff_of_false ExtTreeMap.not_mem_empty ExtTreeSet.not_mem_empty,
      fun k => iff_of_false ExtTreeSet.not_mem_empty List.not_mem_nil⟩
  | _ => cases h

/-- **One call** keeps the records in step exactly when it is no rollback of writes. -/
lemma allInStep_step_iff {m : TransactionManager} (h : AllInStep m) (call : Call) :
    AllInStep (step m call) ↔ RollsBackUnwritten m call := by
  have hrecord (hcall : ∀ txn, m.transactions[call.txnId]? = some txn →
      InStep (call.onRecord txn)) : AllInStep (step m call) := by
    intro t txn htxn
    rw [getElem?_step] at htxn
    split_ifs at htxn with ht
    · subst ht
      rcases hold : m.transactions[call.txnId]? with _ | old <;> rw [hold] at htxn
      · exact inStep_newRecord htxn
      · cases htxn
        exact hcall old hold
    · exact h t txn htxn
  cases call with
  | rollback t =>
    refine ⟨fun hafter txn htxn => ?_, fun hempty => hrecord fun txn htxn => ?_⟩
    · have hrolled : (step m (.rollback t)).transactions[t]? = some txn.rollback := by
        rw [getElem?_step, show (Call.rollback t).txnId = t from rfl, if_pos rfl, htxn]
        rfl
      exact (inStep_rollback_iff txn).mp (hafter t _ hrolled)
    · exact (inStep_rollback_iff txn).mpr (hempty txn htxn)
  | _ =>
    refine iff_of_true (hrecord fun txn htxn => ?_) trivial
    exact inStep_onRecord (h _ txn htxn) (by simp)

/-- **When the three records stay in step**: exactly in the runs that roll back no transaction
with writes. -/
theorem always_allInStep_iff (calls : List Call) :
    Always step AllInStep {} calls ↔ Along step RollsBackUnwritten {} calls := by
  have hstep : ∀ m call, AllInStep m →
      (AllInStep (step m call) ↔ RollsBackUnwritten m call) :=
    fun m call h => allInStep_step_iff h call
  refine always_iff_along hstep fun t txn htxn => ?_
  simp at htxn

/-- A rolled back insert stays in the write set. -/
theorem not_always_allInStep : ¬ Always step AllInStep {}
    [.begin 1, .insert 1 "t" "r" {}, .rollback 1] := by
  intro h
  have hinStep := h _ [] (List.append_nil _).symm 1
  revert hinStep
  generalize hm : run step {} _ = m
  have hkept : (m.transactions[(1 : Int32)]?.any fun txn =>
      decide ("t:r" ∈ txn.writeSet) && !decide ("t:r" ∈ txn.localWrites)) = true := by
    rw [← hm]
    decide
  intro hinStep
  rcases htxn : m.transactions[(1 : Int32)]? with _ | txn <;> rw [htxn] at hkept
  · cases hkept
  · obtain ⟨hset, hwrites⟩ := Bool.and_eq_true_iff.mp hkept
    have hmem := ((hinStep txn htxn).localWrites "t:r").mpr (of_decide_eq_true hset)
    simp [hmem] at hwrites

end Dbx4.TxnWrites
