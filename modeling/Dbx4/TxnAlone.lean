import Dbx4.Runs
import Dbx4.TxnModel

/-!
Transactions of the manager do not interfere.

A call looks at the record of its own transaction only, and changes no other. So whatever the
others do in between, a transaction is answered, and ends, as if it had the manager alone.
-/

namespace Dbx4.TxnAlone

open Std Dbx4.Maps Dbx4.Runs Dbx4.TxnModel

/-- What a call returns; for `read` also the row it leaves in `outRow`. -/
def reply (m : TransactionManager) : Call → Bool × Option VersionedRow
  | .read txnId table rowId outRow =>
    let (found, row, _) := m.read txnId table rowId outRow
    (found, some row)
  | call => ((call.apply m).1, none)

/-- The calls of the transaction `t`. -/
def own (t : Int32) (call : Call) : Bool := call.txnId = t

/-- The record of its transaction decides what a call returns. -/
lemma reply_congr {m m' : TransactionManager} {call : Call}
    (h : m.transactions[call.txnId]? = m'.transactions[call.txnId]?) :
    reply m call = reply m' call := by
  have hmem : call.txnId ∈ m.transactions ↔ call.txnId ∈ m'.transactions := by
    rw [ExtTreeMap.mem_iff_isSome_getElem?, ExtTreeMap.mem_iff_isSome_getElem?, h]
  have honTxn : ∀ f, (m.onTxn call.txnId f).1 = (m'.onTxn call.txnId f).1 := by
    intro f
    unfold TransactionManager.onTxn
    by_cases hid : call.txnId ∈ m.transactions
    · rw [if_pos hid, if_pos (hmem.mp hid)]
    · rw [if_neg hid, if_neg (mt hmem.mpr hid)]
  cases call with
  | begin id =>
    simp only [Call.txnId] at hmem
    by_cases hid : id ∈ m.transactions
    · simp [reply, Call.apply, TransactionManager.begin, hid, hmem.mp hid]
    · simp [reply, Call.apply, TransactionManager.begin, hid, mt hmem.mpr hid]
  | read id table rowId outRow =>
    simp only [Call.txnId] at h
    simp only [reply, TransactionManager.read, h]
    rcases m'.transactions[id]? with _ | txn
    · rfl
    · dsimp only
      cases txn.localWrites[key table rowId]? <;> rfl
  | _ => exact congrArg (·, none) (honTxn _)

lemma record_step_of_other {t : Int32} (m : TransactionManager) {call : Call}
    (h : own t call = false) : (step m call).transactions[t]? = m.transactions[t]? := by
  rw [getElem?_step, if_neg (of_decide_eq_false h)]

lemma record_step_congr {t : Int32} {m m' : TransactionManager} {call : Call}
    (h : own t call = true) (hrecord : m.transactions[t]? = m'.transactions[t]?) :
    (step m call).transactions[t]? = (step m' call).transactions[t]? := by
  have ht : call.txnId = t := of_decide_eq_true h
  rw [getElem?_step, getElem?_step, if_pos ht, if_pos ht, hrecord]

/-- **Non-interference**: in every interleaving, the answers to the calls of a transaction and
the record it ends with are those of its calls alone. -/
theorem alone (calls : List Call) (t : Int32) :
    answers step (own t) reply {} calls = answers step (own t) reply {} (calls.filter (own t)) ∧
      (run step {} calls).transactions[t]? =
        (run step {} (calls.filter (own t))).transactions[t]? := by
  let record := fun m : TransactionManager => m.transactions[t]?
  have hother : ∀ m call, own t call = false → record (step m call) = record m :=
    fun m call h => record_step_of_other m h
  have hmine : ∀ m m' call, own t call = true → record m = record m' →
      record (step m call) = record (step m' call) :=
    fun m m' call h hrecord => record_step_congr h hrecord
  have hreply : ∀ m m' call, own t call = true → record m = record m' →
      reply m call = reply m' call := by
    intro m m' call h hrecord
    obtain rfl : call.txnId = t := of_decide_eq_true h
    exact reply_congr hrecord
  exact ⟨answers_filter hother hmine hreply rfl calls, view_run_filter hother hmine rfl calls⟩

end Dbx4.TxnAlone
