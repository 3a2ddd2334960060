import Std.Data.ExtTreeMap
import Mathlib.Data.List.Induction
import Dbx4.Maps
import Dbx4.Runs
import Dbx4.Word32

/-!
Rows that have to be approved: `DeclaredIntentTable` of `advanced_features.cpp`.

A row is meant to pass a rep, a manager and a director, in this order. A director's approval
is taken whatever came before it.
-/

namespace Dbx4.ApprovalOrder

open Std Dbx4.Word32 Dbx4.Maps Dbx4.Runs

inductive TableIntent
  | NONE | TRACEABLE | APPROVAL_GATED | EVENT_MANAGED

def TableIntent.value : TableIntent → UInt8
  | .NONE => 0
  | .TRACEABLE => 1
  | .APPROVAL_GATED => 2
  | .EVENT_MANAGED => 4

structure AuditTrail where
  rowId : UInt64
  timestamp : UInt64
  performerId : UInt32
  operationType : UInt8
  afterImage : Bytes

structure ApprovalState where
  rowId : UInt64
  approvalLevel : UInt8 := 0
  approvers : List UInt32 := []
  approvalTimestamps : List UInt64 := []
  isApproved : Bool := false

structure DeclaredIntentTable where
  intents : UInt8
  auditLog : List AuditTrail := []
  approvalStates : ExtTreeMap UInt64 ApprovalState := ∅
  totalOperations : UInt64 := 0

namespace DeclaredIntentTable

/-- The table was declared with the intent. -/
def has (table : DeclaredIntentTable) (intent : TableIntent) : Bool :=
  table.intents &&& intent.value != 0

/-- `now` is what the clock shows. -/
def insertWithIntent (table : DeclaredIntentTable) (rowId : UInt64) (data : Bytes)
    (performerId : UInt32) (now : UInt64) : Bool × DeclaredIntentTable :=
  let trail : AuditTrail :=
    { rowId := rowId, timestamp := now, performerId := performerId, operationType := 1,
      afterImage := data }
  let approval : ApprovalState := { rowId := rowId }
  (true, { table with
    totalOperations := table.totalOperations + 1
    auditLog := if table.has .TRACEABLE then table.auditLog ++ [trail] else table.auditLog
    approvalStates :=
      if table.has .APPROVAL_GATED then table.approvalStates.insert rowId approval
      else table.approvalStates })

def approveRow (table : DeclaredIntentTable) (rowId : UInt64) (approverId : UInt32)
    (level : UInt8) (now : UInt64) : Bool × DeclaredIntentTable :=
  match table.approvalStates[rowId]? with
  | none => (false, table)
  | some state =>
    let state := { state with
      approvalLevel := max state.approvalLevel level
      approvers := state.approvers ++ [approverId]
      approvalTimestamps := state.approvalTimestamps ++ [now] }
    let state := if 3 ≤ level then { state with isApproved := true } else state
    (true, { table with approvalStates := table.approvalStates.insert rowId state })

def getAuditTrail (table : DeclaredIntentTable) : List AuditTrail := table.auditLog

def getOperationCount (table : DeclaredIntentTable) : UInt64 := table.totalOperations

end DeclaredIntentTable

inductive Call
  | insert (rowId : UInt64) (data : Bytes) (performerId : UInt32) (now : UInt64)
  | approve (rowId : UInt64) (approverId : UInt32) (level : UInt8) (now : UInt64)

def step (table : DeclaredIntentTable) : Call → DeclaredIntentTable
  | .insert rowId data performerId now => (table.insertWithIntent rowId data performerId now).2
  | .approve rowId approverId level now => (table.approveRow rowId approverId level now).2

/-- A new table behind the calls. -/
def after (intents : UInt8) (calls : List Call) : DeclaredIntentTable :=
  run step { intents := intents } calls

def Approved (table : DeclaredIntentTable) (rowId : UInt64) : Prop :=
  ∃ state, table.approvalStates[rowId]? = some state ∧ state.isApproved = true

/-! ### The workflow -/

/-- What a call does to the levels at which a row was approved since its last insert. -/
def record (rowId : UInt64) (levels : List UInt8) : Call → List UInt8
  | .insert id _ _ _ => if id = rowId then [] else levels
  | .approve id _ level _ => if id = rowId then levels ++ [level] else levels

/-- The levels at which a row was approved since its last insert, first to last. -/
def levels (rowId : UInt64) (calls : List Call) : List UInt8 := run (record rowId) [] calls

/-- Some rep, later some manager and later some director approved. -/
def Passed (levels : List UInt8) : Prop := ∃ level, 3 ≤ level ∧ [1, 2, level].Sublist levels

/-- Every approved row has passed the workflow since its last insert. -/
def Followed (intents : UInt8) (calls : List Call) : Prop :=
  ∀ rowId, Approved (after intents calls) rowId → Passed (levels rowId calls)

/-- A director approves only rows that a rep and later a manager have approved, if the row is
there. -/
def InOrder (intents : UInt8) (calls : List Call) : Call → Prop
  | .insert _ _ _ _ => True
  | .approve rowId _ level _ =>
    3 ≤ level → rowId ∈ (after intents calls).approvalStates →
      [1, 2].Sublist (levels rowId calls)

lemma after_concat (intents : UInt8) (calls : List Call) (call : Call) :
    after intents (calls ++ [call]) = step (after intents calls) call := by
  rw [after, run_append]
  rfl

lemma levels_concat (rowId : UInt64) (calls : List Call) (call : Call) :
    levels rowId (calls ++ [call]) = record rowId (levels rowId calls) call := by
  rw [levels, run_append]
  rfl

/-! ### One call -/

lemma intents_after (intents : UInt8) (calls : List Call) :
    (after intents calls).intents = intents := by
  induction calls using List.reverseRecOn with
  | nil => rfl
  | append_singleton calls call ih =>
    rw [after_concat]
    cases call with
    | insert rowId data performerId now => exact ih
    | approve rowId approverId level now =>
      simp only [step, DeclaredIntentTable.approveRow]
      split
      · exact ih
      · exact ih

/-- Only a table that is gated has rows to approve. -/
lemma approvalStates_after {intents : UInt8}
    (h : ({ intents := intents } : DeclaredIntentTable).has .APPROVAL_GATED = false)
    (calls : List Call) : (after intents calls).approvalStates = ∅ := by
  induction calls using List.reverseRecOn with
  | nil => rfl
  | append_singleton calls call ih =>
    rw [after_concat]
    cases call with
    | insert rowId data performerId now =>
      have hgate : (after intents calls).has .APPROVAL_GATED = false := by
        rw [DeclaredIntentTable.has, intents_after]
        exact h
      simpa [step, DeclaredIntentTable.insertWithIntent, hgate] using ih
    | approve rowId approverId level now =>
      simp [step, DeclaredIntentTable.approveRow, ih]

lemma Passed.concat {levels : List UInt8} (h : Passed levels) (level : UInt8) :
    Passed (levels ++ [level]) := by
  obtain ⟨top, htop, hsub⟩ := h
  exact ⟨top, htop, hsub.trans (List.sublist_append_left _ _)⟩

lemma Passed.record {rowId rowId' : UInt64} {levels : List UInt8} (h : Passed levels)
    (approverId : UInt32) (level : UInt8) (now : UInt64) :
    Passed (record rowId levels (.approve rowId' approverId level now)) := by
  unfold ApprovalOrder.record
  dsimp only
  split_ifs
  · exact h.concat level
  · exact h

/-- The last approval is at most the director's. -/
lemma Passed.sublist_of_concat {levels : List UInt8} {level : UInt8}
    (h : Passed (levels ++ [level])) : [1, 2].Sublist levels := by
  obtain ⟨top, -, hsub⟩ := h
  have hrev := hsub.reverse
  rw [List.reverse_concat] at hrev
  simpa using hrev.tail.reverse

/-- An insert leaves its row without an approval. -/
lemma Followed.insert {intents : UInt8} {calls : List Call} (h : Followed intents calls)
    (rowId : UInt64) (data : Bytes) (performerId : UInt32) (now : UInt64) :
    Followed intents (calls ++ [.insert rowId data performerId now]) := by
  rintro rowId' ⟨state, hstate, happroved⟩
  by_cases hgate : ({ intents := intents } : DeclaredIntentTable).has .APPROVAL_GATED = true
  · have hgate' : (after intents calls).has .APPROVAL_GATED = true := by
      rw [DeclaredIntentTable.has, intents_after]
      exact hgate
    simp only [after_concat, step, DeclaredIntentTable.insertWithIntent, hgate', if_true] at hstate
    by_cases hrow : rowId = rowId'
    · subst hrow
      rw [ExtTreeMap.getElem?_insert_self] at hstate
      cases hstate
      cases happroved
    · rw [getElem?_insert_of_ne _ hrow] at hstate
      rw [levels_concat, record, if_neg hrow]
      exact h rowId' ⟨state, hstate, happroved⟩
  · rw [approvalStates_after (Bool.not_eq_true _ ▸ hgate)] at hstate
    simp at hstate

/-- **One call** keeps to the workflow when it is in order. -/
lemma followed_concat_iff {intents : UInt8} {calls : List Call} (call : Call)
    (h : Followed intents calls) :
    Followed intents (calls ++ [call]) ↔ InOrder intents calls call := by
  cases call with
  | insert rowId data performerId now =>
    exact iff_of_true (h.insert rowId data performerId now) trivial
  | approve rowId approverId level now =>
    rcases hrow : (after intents calls).approvalStates[rowId]? with _ | state
    · refine iff_of_true ?_ fun _ hmem => absurd hmem (not_mem_of_getElem? hrow)
      rintro rowId' ⟨state, hstate, happroved⟩
      simp only [after_concat, step, DeclaredIntentTable.approveRow, hrow] at hstate
      rw [levels_concat]
      exact (h rowId' ⟨state, hstate, happroved⟩).record _ _ _
    · have hafter : ∀ rowId',
          Approved (after intents (calls ++ [.approve rowId approverId level now])) rowId' ↔
            rowId' = rowId ∧ 3 ≤ level ∨ Approved (after intents calls) rowId' := by
        intro rowId'
        simp only [Approved, after_concat, step, DeclaredIntentTable.approveRow, hrow]
        by_cases hsame : rowId = rowId'
        · subst hsame
          rw [ExtTreeMap.getElem?_insert_self, hrow]
          split_ifs with hlevel <;> simp [hlevel]
        · rw [getElem?_insert_of_ne _ hsame]
          simp [Ne.symm hsame]
      constructor
      · intro hfollowed hlevel _
        have hpassed := hfollowed rowId ((hafter rowId).mpr (Or.inl ⟨rfl, hlevel⟩))
        rw [levels_concat, record, if_pos rfl] at hpassed
        exact hpassed.sublist_of_concat
      · intro horder rowId' happroved
        rw [levels_concat]
        rcases (hafter rowId').mp happroved with ⟨rfl, hlevel⟩ | happroved
        · rw [record, if_pos rfl]
          exact ⟨level, hlevel, (horder hlevel (mem_of_getElem? hrow)).append_right [level]⟩
        · exact (h rowId' happroved).record _ _ _

/-! ### Runs -/

lemma followed_nil (intents : UInt8) : Followed intents [] := by
  rintro rowId ⟨state, hstate, -⟩
  simp [after] at hstate

/-- **When approved rows have passed the workflow** all along a run: when every director's
approval of a row that is there comes after a rep's and a later manager's. -/
theorem always_followed_iff (intents : UInt8) (calls : List Call) :
    (∀ pre post, calls = pre ++ post → Followed intents pre) ↔
      ∀ pre call post, calls = pre ++ call :: post → InOrder intents pre call := by
  have h : Always (fun calls call => calls ++ [call]) (Followed intents) [] calls ↔
      Along (fun calls call => calls ++ [call]) (InOrder intents) [] calls :=
    always_iff_along (fun _ call h => followed_concat_iff call h) (followed_nil intents)
  rw [along_concat_iff] at h
  simpa only [Always, run_concat, List.nil_append] using h

/-- A director's approval is enough. -/
theorem not_forall_followed : ¬ ∀ (intents : UInt8),
    intents &&& TableIntent.value .APPROVAL_GATED ≠ 0 → ∀ calls, Followed intents calls := by
  intro h
  obtain ⟨level, -, hsub⟩ :=
    h 2 (by decide) [.insert 1 [] 7 0, .approve 1 9 3 0] 1 ⟨_, rfl, rfl⟩
  have hlength : 3 ≤ 1 := hsub.length_le
  exact absurd hlength (by decide)

end Dbx4.ApprovalOrder
