import Dbx4.ApprovalOrder

/-!
What a `DeclaredIntentTable` holds of the calls so far.

The audit log lists every insert, if the table is traceable. A gated table knows of each row
that was inserted the approvals since, and nothing else; rows do not mix.
-/

namespace Dbx4.ApprovalHistory

open Std Dbx4.Word32 Dbx4.Maps Dbx4.Runs Dbx4.ApprovalOrder

/-! ### What the calls say -/

/-- What an insert leaves in the audit log. -/
def trailOf : Call → Option AuditTrail
  | .insert rowId data performerId now =>
    some { rowId := rowId, timestamp := now, performerId := performerId, operationType := 1,
           afterImage := data }
  | .approve _ _ _ _ => none

def trails (calls : List Call) : List AuditTrail := calls.filterMap trailOf

structure Approval where
  approverId : UInt32
  level : UInt8
  now : UInt64

/-- What a call does to the approvals of a row since its last insert; none before the first. -/
def recordApproval (rowId : UInt64) (approvals : Option (List Approval)) :
    Call → Option (List Approval)
  | .insert id _ _ _ => if id = rowId then some [] else approvals
  | .approve id approverId level now =>
    if id = rowId then approvals.map (· ++ [⟨approverId, level, now⟩]) else approvals

def approvals (rowId : UInt64) (calls : List Call) : Option (List Approval) :=
  run (recordApproval rowId) none calls

/-- The state of a row with these approvals: their highest level, and whether a director is
among them. -/
def stateOf (rowId : UInt64) (approvals : List Approval) : ApprovalState where
  rowId := rowId
  approvalLevel := (approvals.map Approval.level).foldl max 0
  approvers := approvals.map Approval.approverId
  approvalTimestamps := approvals.map Approval.now
  isApproved := approvals.any fun a => 3 ≤ a.level

def traceable (intents : UInt8) : Bool := intents &&& TableIntent.value .TRACEABLE != 0

def gated (intents : UInt8) : Bool := intents &&& TableIntent.value .APPROVAL_GATED != 0

/-- The table holds what the calls say. -/
structure Describes (intents : UInt8) (calls : List Call) (table : DeclaredIntentTable) : Prop where
  declared : table.intents = intents
  operations : table.getOperationCount = UInt64.ofNat (trails calls).length
  audit : table.getAuditTrail = if traceable intents then trails calls else []
  states : ∀ rowId, table.approvalStates[rowId]? =
    if gated intents then (approvals rowId calls).map (stateOf rowId) else none

/-! ### One call -/

section Step

variable {intents : UInt8} {calls : List Call} {table : DeclaredIntentTable}

lemma trails_concat (calls : List Call) (call : Call) :
    trails (calls ++ [call]) = trails calls ++ (trailOf call).toList := by
  rw [trails, List.filterMap_append]
  cases call <;> rfl

lemma approvals_concat (rowId : UInt64) (calls : List Call) (call : Call) :
    approvals rowId (calls ++ [call]) = recordApproval rowId (approvals rowId calls) call := by
  rw [approvals, run_append]
  rfl

lemma describes_nil (intents : UInt8) : Describes intents [] { intents := intents } where
  declared := rfl
  operations := rfl
  audit := (ite_self _).symm
  states rowId := by
    rw [ExtTreeMap.getElem?_empty]
    exact (ite_self none).symm

lemma stateOf_concat (rowId : UInt64) (as : List Approval) (a : Approval) :
    stateOf rowId (as ++ [a]) =
      { stateOf rowId as with
        approvalLevel := max (stateOf rowId as).approvalLevel a.level
        approvers := (stateOf rowId as).approvers ++ [a.approverId]
        approvalTimestamps := (stateOf rowId as).approvalTimestamps ++ [a.now]
        isApproved := (stateOf rowId as).isApproved || decide (3 ≤ a.level) } := by
  simp [stateOf]

lemma Describes.has_eq (h : Describes intents calls table) (intent : TableIntent) :
    table.has intent = (intents &&& intent.value != 0) := by
  rw [DeclaredIntentTable.has, h.declared]

lemma Describes.insert (h : Describes intents calls table) (rowId : UInt64) (data : Bytes)
    (performerId : UInt32) (now : UInt64) :
    Describes intents (calls ++ [.insert rowId data performerId now])
      (table.insertWithIntent rowId data performerId now).2 := by
  have htrace : table.has .TRACEABLE = traceable intents := h.has_eq .TRACEABLE
  have hgate : table.has .APPROVAL_GATED = gated intents := h.has_eq .APPROVAL_GATED
  refine ⟨h.declared, ?_, ?_, fun row => ?_⟩
  · change table.getOperationCount + 1 = _
    rw [h.operations, trails_concat, List.length_append, UInt64.ofNat_add]
    rfl
  · change (if table.has .TRACEABLE then table.getAuditTrail ++ _ else table.getAuditTrail) = _
    rw [htrace, h.audit, trails_concat]
    split_ifs <;> rfl
  · change (if table.has .APPROVAL_GATED then table.approvalStates.insert rowId _
      else table.approvalStates)[row]? = _
    rw [hgate, approvals_concat, recordApproval]
    by_cases hg : gated intents
    · rw [if_pos hg, if_pos hg, ExtTreeMap.getElem?_insert, h.states, if_pos hg]
      simp only [LawfulEqOrd.compare_eq_iff_eq]
      split_ifs with hrow
      · subst hrow
        rfl
      · rfl
    · rw [if_neg hg, if_neg hg, h.states, if_neg hg]

/-- An approval of a row that is not there. -/
lemma Describes.approve_none (h : Describes intents calls table) {rowId : UInt64}
    (hrow : table.approvalStates[rowId]? = none) (approverId : UInt32) (level : UInt8)
    (now : UInt64) : Describes intents (calls ++ [.approve rowId approverId level now]) table := by
  refine ⟨h.declared, ?_, ?_, fun row => ?_⟩
  · rw [h.operations, trails_concat, trailOf, Option.toList_none, List.append_nil]
  · rw [h.audit, trails_concat, trailOf, Option.toList_none, List.append_nil]
  · rw [h.states, approvals_concat, recordApproval]
    split_ifs with hg hsame
    · subst hsame
      rw [h.states, if_pos hg, Option.map_eq_none_iff] at hrow
      rw [hrow]
      rfl
    · rfl
    · rfl

lemma Describes.approve (h : Describes intents calls table) (rowId : UInt64) (approverId : UInt32)
    (level : UInt8) (now : UInt64) :
    Describes intents (calls ++ [.approve rowId approverId level now])
      (table.approveRow rowId approverId level now).2 := by
  rw [DeclaredIntentTable.approveRow]
  rcases hrow : table.approvalStates[rowId]? with _ | state
  · exact h.approve_none hrow approverId level now
  · have hstates := h.states rowId
    rw [hrow] at hstates
    by_cases hg : gated intents
    · rw [if_pos hg] at hstates
      obtain ⟨as, has, rfl⟩ := Option.map_eq_some_iff.mp hstates.symm
      refine ⟨h.declared, ?_, ?_, fun row => ?_⟩
      · change table.getOperationCount = _
        rw [h.operations, trails_concat, trailOf, Option.toList_none, List.append_nil]
      · change table.getAuditTrail = _
        rw [h.audit, trails_concat, trailOf, Option.toList_none, List.append_nil]
      · dsimp only
        rw [ExtTreeMap.getElem?_insert, h.states, if_pos hg, if_pos hg, approvals_concat,
          recordApproval]
        simp only [LawfulEqOrd.compare_eq_iff_eq]
        split_ifs with hsame hlevel
        · subst hsame
          rw [has, Option.map_some, Option.map_some, stateOf_concat, decide_eq_true hlevel,
            Bool.or_true]
        · subst hsame
          rw [has, Option.map_some, Option.map_some, stateOf_concat, decide_eq_false hlevel,
            Bool.or_false]
        · rfl
    · rw [if_neg hg] at hstates
      cases hstates

end Step

/-! ### Runs -/

/-- **What the table holds**: after any calls the audit log lists the inserts, if the table is
traceable, each row of a gated table has the state that the approvals since its last insert
give it, and the next approval is taken exactly where such a row is there. -/
theorem history (intents : UInt8) (calls : List Call) :
    Describes intents calls (after intents calls) ∧
      ∀ rowId approverId level now,
        ((after intents calls).approveRow rowId approverId level now).1 =
          (gated intents && (approvals rowId calls).isSome) := by
  have hcalls : Describes intents calls (after intents calls) := by
    induction calls using List.reverseRecOn with
    | nil => exact describes_nil intents
    | append_singleton calls call ih =>
      rw [after_concat]
      cases call with
      | insert rowId data performerId now => exact ih.insert rowId data performerId now
      | approve rowId approverId level now => exact ih.approve rowId approverId level now
  refine ⟨hcalls, fun rowId approverId level now => ?_⟩
  have hstates := hcalls.states rowId
  rw [DeclaredIntentTable.approveRow, hstates]
  rcases hg : gated intents with _ | _
  · rfl
  · rcases approvals rowId calls with _ | as
    · rfl
    · rfl

end Dbx4.ApprovalHistory
