import Dbx4.TxnWrites

/-!
The undo log of a transaction takes its writes back.

The loop of a rollback runs through the log from its end, so the first entry under a key has
the last word. That entry was logged before the transaction had written there: it erases the
local write, or puts back what the base store has.
-/

namespace Dbx4.TxnUndo

open Std Dbx4.Maps Dbx4.Runs Dbx4.TxnModel Dbx4.TxnAlone Dbx4.TxnWrites

/-! ### The undo loop -/

/-- The local writes behind the undo loop of `rollback`, before they are cleared. -/
def undone (txn : Transaction) : ExtTreeMap String VersionedRow :=
  txn.undoLog.reverse.foldl undo txn.localWrites

/-- What an entry leaves under its key. -/
def restored (entry : UndoLogEntry) : Option VersionedRow :=
  match entry.operation with
  | .insert => none
  | .update | .delete => some entry.oldVersion

/-- The first entry under a key. -/
def firstUnder (k : String) (log : List UndoLogEntry) : Option UndoLogEntry :=
  log.find? fun entry => entry.key = k

lemma getElem?_undo (localWrites : ExtTreeMap String VersionedRow) (entry : UndoLogEntry)
    (k : String) :
    (undo localWrites entry)[k]? = if entry.key = k then restored entry else localWrites[k]? := by
  obtain ⟨table, rowId, old, op⟩ := entry
  split_ifs with hk
  · subst hk
    cases op <;> simp [undo, restored]
  · cases op with
    | insert => exact getElem?_erase_of_ne _ hk
    | update => exact getElem?_insert_of_ne _ hk old
    | delete => exact getElem?_insert_of_ne _ hk old

/-- **The undo loop**: the first entry under a key has the last word. -/
theorem getElem?_foldl_undo (log : List UndoLogEntry)
    (localWrites : ExtTreeMap String VersionedRow) (k : String) :
    (log.reverse.foldl undo localWrites)[k]? =
      (firstUnder k log).elim localWrites[k]? restored := by
  induction log with
  | nil => rfl
  | cons entry log ih =>
    rw [List.reverse_cons, List.foldl_append, List.foldl_cons, List.foldl_nil, getElem?_undo]
    by_cases hk : entry.key = k
    · have hfirst : firstUnder k (entry :: log) = some entry :=
        List.find?_cons_of_pos (decide_eq_true hk)
      rw [if_pos hk, hfirst, Option.elim_some]
    · have hfirst : firstUnder k (entry :: log) = firstUnder k log :=
        List.find?_cons_of_neg (by simpa using hk)
      rw [if_neg hk, hfirst, ih]

lemma firstUnder_concat (k : String) (log : List UndoLogEntry) (entry : UndoLogEntry) :
    firstUnder k (log ++ [entry]) =
      (firstUnder k log).or (if entry.key = k then some entry else none) := by
  unfold firstUnder
  rw [List.find?_append, List.find?_singleton]
  simp only [decide_eq_true_eq]

/-! ### What the log keeps -/

section Base

variable (S : String → Option VersionedRow)

/-- What the transaction sees: its local write, else the base store. -/
def view (txn : Transaction) (k : String) : Option VersionedRow := txn.localWrites[k]?.or (S k)

/-- The first entry under a key erases or puts back the base store's version, and a key with
no entry has no local write. -/
structure Undoes (txn : Transaction) : Prop where
  logged : ∀ k entry, firstUnder k txn.undoLog = some entry → (restored entry).or (S k) = S k
  unlogged : ∀ k, firstUnder k txn.undoLog = none → txn.localWrites[k]? = none

variable {S}

/-- **A write** whose entry erases, or puts back what the transaction saw, can be undone. -/
lemma Undoes.write {txn : Transaction} (h : Undoes S txn) (entry : UndoLogEntry)
    (hentry : restored entry = none ∨ restored entry = view S txn entry.key)
    (row : VersionedRow) : Undoes S (txn.write entry row) where
  logged k first hfirst := by
    replace hfirst : firstUnder k (txn.undoLog ++ [entry]) = some first := hfirst
    rw [firstUnder_concat] at hfirst
    rcases hold : firstUnder k txn.undoLog with _ | old <;> rw [hold] at hfirst
    · rw [Option.none_or] at hfirst
      split_ifs at hfirst with hk
      obtain rfl := Option.some.inj hfirst
      subst hk
      rcases hentry with hnone | hview
      · rw [hnone, Option.none_or]
      · -- nothing was written there before, so the base store was seen
        rw [hview, view, h.unlogged _ hold, Option.none_or, Option.or_self]
    · rw [Option.some_or] at hfirst
      exact h.logged k first (hold.trans hfirst)
  unlogged k hfirst := by
    replace hfirst : firstUnder k (txn.undoLog ++ [entry]) = none := hfirst
    rw [firstUnder_concat, Option.or_eq_none_iff] at hfirst
    have hk : entry.key ≠ k := by
      intro hk
      rw [if_pos hk] at hfirst
      cases hfirst.2
    exact (getElem?_insert_of_ne _ hk row).trans (h.unlogged k hfirst.1)

/-- What the log keeps is what the loop needs. -/
theorem Undoes.view_undone {txn : Transaction} (h : Undoes S txn) (k : String) :
    (undone txn)[k]?.or (S k) = S k := by
  rw [undone, getElem?_foldl_undo]
  rcases hfirst : firstUnder k txn.undoLog with _ | entry
  · rw [Option.elim_none, h.unlogged k hfirst, Option.none_or]
  · exact h.logged k entry hfirst

end Base

/-! ### Runs -/

/-- The version that an update or a delete is given is the one that the transaction sees. -/
def GivenSeen (S : String → Option VersionedRow) (txn : Transaction) : Call → Prop
  | .update _ table rowId old _ => view S txn (key table rowId) = some old
  | .deleteRow _ table rowId old => view S txn (key table rowId) = some old
  | _ => True

/-- The transaction is on record, and its log undoes its writes. -/
def Undoable (S : String → Option VersionedRow) (t : Int32) (m : TransactionManager) : Prop :=
  ∃ txn, m.transactions[t]? = some txn ∧ Undoes S txn

/-- An own call of the transaction writes or reads, and is given what the transaction sees. -/
def Honest (S : String → Option VersionedRow) (t : Int32) (m : TransactionManager)
    (call : Call) : Prop :=
  own t call → isAccess call ∧
    ∀ txn, m.transactions[t]? = some txn → GivenSeen S txn call

lemma undoes_onRecord {S : String → Option VersionedRow} {txn : Transaction} (h : Undoes S txn)
    {call : Call} (hcall : isAccess call) (hgiven : GivenSeen S txn call) :
    Undoes S (call.onRecord txn) := by
  cases call with
  | insert id table rowId row =>
    exact h.write ⟨table, rowId, { isDeleted := true }, .insert⟩ (Or.inl rfl) row
  | update id table rowId old new =>
    exact h.write ⟨table, rowId, old, .update⟩ (Or.inr hgiven.symm) new
  | deleteRow id table rowId old =>
    exact h.write ⟨table, rowId, old, .delete⟩ (Or.inr hgiven.symm) _
  | read id table rowId outRow => exact ⟨h.logged, h.unlogged⟩
  | _ => cases hcall

lemma undoable_step {S : String → Option VersionedRow} {t : Int32} {m : TransactionManager}
    {call : Call} (h : Undoable S t m) (hcall : Honest S t m call) :
    Undoable S t (step m call) := by
  obtain ⟨txn, htxn, hundoes⟩ := h
  by_cases hown : own t call
  · have ht : call.txnId = t := of_decide_eq_true hown
    obtain ⟨haccess, hgiven⟩ := hcall hown
    refine ⟨call.onRecord txn, ?_, undoes_onRecord hundoes haccess (hgiven txn htxn)⟩
    rw [getElem?_step, if_pos ht, htxn, Option.map_some, Option.some_or]
  · rw [Undoable, record_step_of_other m (Bool.eq_false_iff.mpr hown)]
    exact ⟨txn, htxn, hundoes⟩

/-- A new transaction has nothing to undo. -/
lemma undoable_begin (S : String → Option VersionedRow) {m : TransactionManager} {t : Int32}
    (ht : t ∉ m.transactions) : Undoable S t (m.begin t).2 := by
  refine ⟨{ txnId := t, active := true }, ?_, fun k entry h => ?_, fun k _ => ?_⟩
  · simp [TransactionManager.begin, ht]
  · cases h
  · exact ExtTreeMap.getElem?_empty

/-- **The undo log is correct**: behind the undo loop, a transaction that was given what it saw
sees the base store again, whatever other transactions do in between. An insert need not
find its key free. -/
theorem view_undone_run {m : TransactionManager} {t : Int32} (ht : t ∉ m.transactions)
    (S : String → Option VersionedRow) {calls : List Call}
    (hcalls : Along step (Honest S t) (m.begin t).2 calls) :
    ∃ txn, (run step (m.begin t).2 calls).transactions[t]? = some txn ∧
      ∀ k, (undone txn)[k]?.or (S k) = S k := by
  obtain ⟨txn, htxn, hundoes⟩ :=
    run_inv_along (fun m call h hcall => undoable_step h hcall) (undoable_begin S ht) hcalls
  exact ⟨txn, htxn, fun k => hundoes.view_undone k⟩

/-- An update, a delete of what it wrote, and an insert where another transaction writes. -/
theorem view_undone_run_three :
    ∃ txn, (run step (({} : TransactionManager).begin 1).2
        [.update 1 "t" "r" {} { versionId := 1 }, .deleteRow 1 "t" "r" { versionId := 1 },
          .insert 2 "t" "q" {}, .insert 1 "t" "q" {}]).transactions[(1 : Int32)]? = some txn ∧
      ∀ k, (undone txn)[k]?.or (if k = "t:r" then some {} else none) =
        if k = "t:r" then some {} else none := by
  refine view_undone_run (by simp) (fun k => if k = "t:r" then some {} else none)
    ⟨fun _ => ⟨rfl, fun txn htxn => ?_⟩, fun _ => ⟨rfl, fun txn htxn => ?_⟩,
      fun h => absurd h (by decide), fun _ => ⟨rfl, fun txn htxn => trivial⟩, trivial⟩
  · simp [TransactionManager.begin] at htxn
    subst htxn
    rfl
  · simp [getElem?_step, TransactionManager.begin, Call.txnId] at htxn
    subst htxn
    rfl

end Dbx4.TxnUndo
