import Dbx4.TxnWrites
import Mathlib.Logic.Function.Basic

/-!
The transaction manager keeps books of the calls it takes.

Everything in the record of a transaction can be read off its calls since it began: the local
writes and the undo log off those behind its last rollback, the two sets off all of them. No
call is refused for coming behind a commit or a rollback.
-/

namespace Dbx4.TxnHistory

open Std Dbx4.Maps Dbx4.Runs Dbx4.TxnModel Dbx4.TxnAlone Dbx4.TxnWrites

/-! ### The books -/

/-- The calls of every transaction since it began. -/
abbrev Books := Int32 → Option (List Call)

/-- A transaction begins once. -/
def noted : Option (List Call) → Call → Option (List Call)
  | none, .begin _ => some []
  | none, _ => none
  | some calls, .begin _ => some calls
  | some calls, call => some (calls ++ [call])

def note (b : Books) (call : Call) : Books :=
  Function.update b call.txnId (noted (b call.txnId) call)

def isRollback : Call → Bool
  | .rollback _ => true
  | _ => false

def isCommit : Call → Bool
  | .commit _ => true
  | _ => false

def isEnd (call : Call) : Bool := isCommit call || isRollback call

/-- The calls behind the last rollback. -/
def standing (calls : List Call) : List Call :=
  (calls.reverse.takeWhile fun call => !isRollback call).reverse

/-- The entry that a call puts into the undo log. -/
def undo? : Call → Option UndoLogEntry
  | .insert _ table rowId _ => some ⟨table, rowId, { isDeleted := true }, .insert⟩
  | .update _ table rowId old _ => some ⟨table, rowId, old, .update⟩
  | .deleteRow _ table rowId old => some ⟨table, rowId, old, .delete⟩
  | _ => none

def readKey? : Call → Option String
  | .read _ table rowId _ => some (key table rowId)
  | _ => none

/-- What the transaction has written under a text since its last rollback. -/
def written (calls : List Call) (k : String) : Option VersionedRow :=
  (lastUnder k ((standing calls).filterMap write?)).map Write.version

/-- What the books say to a call. -/
def answer (b : Books) : Call → Bool × Option VersionedRow
  | .begin txnId => ((b txnId).isNone, none)
  | .read txnId table rowId outRow =>
    match (b txnId).bind fun calls => written calls (key table rowId) with
    | some row => (true, some row)
    | none => (false, some outRow)
  | call => ((b call.txnId).isSome, none)

/-! ### One transaction -/

/-- The record shows the calls. -/
structure Shows (t : Int32) (calls : List Call) (txn : Transaction) : Prop where
  txnId : txn.txnId = t
  active : txn.active = !calls.any isEnd
  committed : txn.committed = (calls.filter isEnd).getLast?.any isCommit
  localWrites : ∀ k, txn.localWrites[k]? = written calls k
  undoLog : txn.undoLog = (standing calls).filterMap undo?
  readSet : ∀ k, k ∈ txn.readSet ↔ k ∈ calls.filterMap readKey?
  writeSet : ∀ k, k ∈ txn.writeSet ↔ k ∈ (calls.filterMap write?).map Write.key

lemma standing_concat (calls : List Call) (call : Call) :
    standing (calls ++ [call]) = if isRollback call then [] else standing calls ++ [call] := by
  unfold standing
  rw [List.reverse_concat]
  rcases hcall : isRollback call with _ | _
  · rw [List.takeWhile_cons_of_pos (by simp [hcall]), List.reverse_cons]
    rfl
  · rw [List.takeWhile_cons_of_neg (by simp [hcall])]
    rfl

lemma shows_new (t : Int32) : Shows t [] { txnId := t, active := true } where
  txnId := rfl
  active := rfl
  committed := rfl
  localWrites _ := ExtTreeMap.getElem?_empty
  undoLog := rfl
  readSet _ := iff_of_false ExtTreeSet.not_mem_empty List.not_mem_nil
  writeSet _ := iff_of_false ExtTreeSet.not_mem_empty List.not_mem_nil

section Call

variable {t : Int32} {calls : List Call} {txn : Transaction} (h : Shows t calls txn)

/-- A call that is not the end of the transaction. -/
lemma ends_concat {c : Call} (hcall : isEnd c = false) (calls : List Call) :
    (calls ++ [c]).any isEnd = calls.any isEnd ∧
      ((calls ++ [c]).filter isEnd).getLast? = (calls.filter isEnd).getLast? := by
  rw [getLast?_filter_concat, hcall]
  simp [hcall]

lemma standing_of_not_end {c : Call} (hcall : isEnd c = false) (calls : List Call) :
    standing (calls ++ [c]) = standing calls ++ [c] := by
  rw [standing_concat, if_neg]
  exact fun hrollback => by simp [isEnd, hrollback] at hcall

include h

/-- **A write**, and the entry that undoes it. -/
lemma Shows.write {c : Call} {w : Write} {undo : UndoLogEntry} (hcall : isEnd c = false)
    (hw : write? c = some w) (hundo : undo? c = some undo) (hkey : undo.key = w.key)
    (hread : readKey? c = none) : Shows t (calls ++ [c]) (txn.write undo w.version) := by
  obtain ⟨hany, hlast⟩ := ends_concat hcall calls
  have hstanding := standing_of_not_end hcall calls
  constructor
  case txnId => exact h.txnId
  case active =>
    rw [hany]
    exact h.active
  case committed =>
    rw [hlast]
    exact h.committed
  case localWrites =>
    intro k
    rw [written, hstanding, filterMap_concat_of_some hw, lastUnder_concat]
    show (txn.localWrites.insert undo.key w.version)[k]? = _
    rw [hkey]
    split_ifs with hk
    · rw [hk, ExtTreeMap.getElem?_insert_self, Option.map_some]
    · exact (getElem?_insert_of_ne _ hk _).trans (h.localWrites k)
  case undoLog =>
    rw [hstanding, filterMap_concat_of_some hundo]
    exact congrArg (· ++ [undo]) h.undoLog
  case readSet =>
    intro k
    rw [filterMap_concat_of_none hread]
    exact h.readSet k
  case writeSet =>
    intro k
    rw [filterMap_concat_of_some hw, List.map_append, List.mem_append, ← h.writeSet,
      List.map_singleton, List.mem_singleton, or_comm, eq_comm, ← hkey]
    exact ExtTreeSet.mem_insert.trans (or_congr_left LawfulEqOrd.compare_eq_iff_eq)

lemma Shows.read (id : Int32) (table rowId : String) (outRow : VersionedRow) :
    Shows t (calls ++ [.read id table rowId outRow])
      ((Call.read id table rowId outRow).onRecord txn) := by
  set c := Call.read id table rowId outRow
  have hcall : isEnd c = false := rfl
  obtain ⟨hany, hlast⟩ := ends_concat hcall calls
  have hstanding := standing_of_not_end hcall calls
  have hwrite := filterMap_concat_of_none (show write? c = none from rfl)
  have hundo := filterMap_concat_of_none (show undo? c = none from rfl)
  have hread := filterMap_concat_of_some (show readKey? c = some (key table rowId) from rfl)
  constructor
  case txnId => exact h.txnId
  case active =>
    rw [hany]
    exact h.active
  case committed =>
    rw [hlast]
    exact h.committed
  case localWrites =>
    intro k
    rw [written, hstanding, hwrite]
    exact h.localWrites k
  case undoLog =>
    rw [hstanding, hundo]
    exact h.undoLog
  case readSet =>
    intro k
    rw [hread, List.mem_append, ← h.readSet, List.mem_singleton, or_comm, eq_comm]
    exact ExtTreeSet.mem_insert.trans (or_congr_left LawfulEqOrd.compare_eq_iff_eq)
  case writeSet =>
    intro k
    rw [hwrite]
    exact h.writeSet k

/-- The end of the transaction, with what is left of its writes. -/
lemma Shows.finish {c : Call} {txn' : Transaction} (hcall : isEnd c = true)
    (hsame : txn'.txnId = txn.txnId ∧ txn'.readSet = txn.readSet ∧ txn'.writeSet = txn.writeSet)
    (hflags : txn'.active = false ∧ txn'.committed = isCommit c)
    (hleft : (∀ k, txn'.localWrites[k]? = written (calls ++ [c]) k) ∧
      txn'.undoLog = (standing (calls ++ [c])).filterMap undo?) :
    Shows t (calls ++ [c]) txn' := by
  have hwrite : write? c = none := by
    cases c <;> first | rfl | cases hcall
  have hread : readKey? c = none := by
    cases c <;> first | rfl | cases hcall
  constructor
  case txnId => exact hsame.1.trans h.txnId
  case active =>
    rw [hflags.1, List.any_append]
    simp [hcall]
  case committed =>
    rw [hflags.2, getLast?_filter_concat, if_pos hcall, Option.any_some]
  case localWrites => exact hleft.1
  case undoLog => exact hleft.2
  case readSet =>
    intro k
    rw [hsame.2.1, filterMap_concat_of_none hread]
    exact h.readSet k
  case writeSet =>
    intro k
    rw [hsame.2.2, filterMap_concat_of_none hwrite]
    exact h.writeSet k

lemma Shows.commit (id : Int32) : Shows t (calls ++ [.commit id]) txn.commit := by
  have hstanding : standing (calls ++ [.commit id]) = standing calls ++ [.commit id] := by
    rw [standing_concat, if_neg (by simp [isRollback])]
  refine h.finish rfl ⟨rfl, rfl, rfl⟩ ⟨rfl, rfl⟩ ⟨fun k => ?_, ?_⟩
  · rw [written, hstanding, filterMap_concat_of_none rfl]
    exact h.localWrites k
  · rw [hstanding, filterMap_concat_of_none rfl]
    exact h.undoLog

/-- **A rollback** leaves no write, and both sets as they are. -/
lemma Shows.rollback (id : Int32) : Shows t (calls ++ [.rollback id]) txn.rollback := by
  have hstanding : standing (calls ++ [.rollback id]) = [] := by
    rw [standing_concat, if_pos (by simp [isRollback])]
  refine h.finish rfl ⟨rfl, rfl, rfl⟩ ⟨rfl, rfl⟩ ⟨fun k => ?_, ?_⟩
  · rw [written, hstanding]
    exact ExtTreeMap.getElem?_empty
  · rw [hstanding]
    rfl

/-- **One call** of a transaction that has begun. -/
theorem Shows.call (call : Call) : ∃ calls', noted (some calls) call = some calls' ∧
    Shows t calls' (call.onRecord txn) := by
  cases call with
  | begin id => exact ⟨calls, rfl, h⟩
  | insert id table rowId row =>
    exact ⟨_, rfl, h.write (c := .insert id table rowId row) rfl rfl rfl rfl rfl⟩
  | update id table rowId old new =>
    exact ⟨_, rfl, h.write (c := .update id table rowId old new) rfl rfl rfl rfl rfl⟩
  | deleteRow id table rowId old =>
    exact ⟨_, rfl, h.write (c := .deleteRow id table rowId old) rfl rfl rfl rfl rfl⟩
  | read id table rowId outRow => exact ⟨_, rfl, h.read id table rowId outRow⟩
  | commit id => exact ⟨_, rfl, h.commit id⟩
  | rollback id => exact ⟨_, rfl, h.rollback id⟩

end Call

/-! ### The manager -/

/-- The books and the manager know the same transactions, and every record shows its calls. -/
def Kept (m : TransactionManager) (b : Books) : Prop :=
  ∀ t, Option.Rel (Shows t) (b t) m.transactions[t]?

lemma kept_empty : Kept {} fun _ => none := by
  intro t
  rw [show ({} : TransactionManager).transactions[t]? = none from ExtTreeMap.getElem?_empty]
  exact .none

theorem Kept.step {m : TransactionManager} {b : Books} (h : Kept m b) (call : Call) :
    Kept (step m call) (note b call) := by
  intro t
  rw [getElem?_step, note]
  by_cases ht : call.txnId = t
  · subst ht
    rw [if_pos rfl, Function.update_self]
    have hown := h call.txnId
    generalize b call.txnId = books, m.transactions[call.txnId]? = record at hown ⊢
    cases hown with
    | none =>
      cases call with
      | begin id => exact .some (shows_new id)
      | _ => exact .none
    | some hshows =>
      obtain ⟨calls', hnoted, hshows'⟩ := hshows.call call
      rw [hnoted, Option.map_some, Option.some_or]
      exact .some hshows'
  · rw [if_neg ht, Function.update_of_ne (Ne.symm ht)]
    exact h t

/-- **Every answer** of the manager is in the books. -/
theorem Kept.answer {m : TransactionManager} {b : Books} (h : Kept m b) (call : Call) :
    reply m call = answer b call := by
  have hmem : ∀ t, t ∈ m.transactions ↔ (b t).isSome := by
    intro t
    rw [ExtTreeMap.mem_iff_isSome_getElem?]
    have ht := h t
    generalize b t = books, m.transactions[t]? = record at ht ⊢
    cases ht with
    | none => rfl
    | some _ => rfl
  have hchange : ∀ call : Call, call.isChange → (call.apply m).1 = (b call.txnId).isSome := by
    intro call hcall
    rw [Bool.eq_iff_iff, apply_eq_true hcall, hmem]
  cases call with
  | begin id =>
    refine congrArg (·, none) ?_
    rw [Call.apply, TransactionManager.begin]
    split_ifs with hid <;> rw [hmem] at hid
    · exact (Option.isNone_eq_false_iff.mpr hid).symm
    · exact (Option.isNone_iff_eq_none.mpr (Option.not_isSome_iff_eq_none.mp hid)).symm
  | read id table rowId outRow =>
    have hown := h id
    simp only [reply, TransactionManager.read, TxnHistory.answer]
    generalize b id = books, m.transactions[id]? = record at hown ⊢
    cases hown with
    | none => rfl
    | @some calls txn hshows =>
      rw [Option.bind_some, ← hshows.localWrites]
      dsimp only
      rcases txn.localWrites[key table rowId]? with _ | row <;> rfl
  | _ => exact congrArg (·, none) (hchange _ rfl)

/-! ### Runs -/

/-- **The manager is its books**: in every run of calls by whatever transactions, every call is
answered as the books say, and every record shows the calls that its transaction has made. -/
theorem kept_run (calls : List Call) :
    answers step (fun _ => true) reply {} calls =
        answers note (fun _ => true) answer (fun _ => none) calls ∧
      Kept (run step {} calls) (run note (fun _ => none) calls) := by
  have hanswers : ∀ {m b}, Kept m b → answers step (fun _ => true) reply m calls =
      answers note (fun _ => true) answer b calls := by
    induction calls with
    | nil => exact fun _ => rfl
    | cons call calls ih =>
      intro m b h
      rw [answers, answers, h.answer call]
      exact congrArg (TxnHistory.answer b call :: ·) (ih (h.step call))
  exact ⟨hanswers kept_empty, run_sim (fun _ _ call h => h.step call) kept_empty calls⟩

end Dbx4.TxnHistory
