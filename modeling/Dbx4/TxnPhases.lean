import Dbx4.Runs
import Dbx4.TxnModel

/-!
When committed and rolled back are absorbing in the transaction manager.

The phase of a transaction runs through a machine of four states. The manager lets a call
take it from committed to rolled back and back, and write into it after its end; in the runs
without such calls both ends absorb, and only in those.
-/

namespace Dbx4.TxnPhases

open Std Dbx4.Maps Dbx4.Runs Dbx4.TxnModel

inductive Phase
  | absent | active | committed | rolledBack
  deriving DecidableEq

def ofRecord : Option Transaction → Phase
  | none => .absent
  | some txn => if txn.active then .active else if txn.committed then .committed else .rolledBack

def phase (m : TransactionManager) (t : Int32) : Phase := ofRecord m.transactions[t]?

/-- The machine of phases, as the calls drive it. -/
def next : Call → Phase → Phase
  | .begin _, p => if p = .absent then .active else p
  | .commit _, p => if p = .absent then .absent else .committed
  | .rollback _, p => if p = .absent then .absent else .rolledBack
  | _, p => p

lemma ofRecord_some_ne_absent (txn : Transaction) : ofRecord (some txn) ≠ .absent := by
  simp only [ofRecord]
  split_ifs <;> simp

/-- **The manager drives the machine of phases**. -/
theorem phase_step (m : TransactionManager) (call : Call) (t : Int32) :
    phase (step m call) t = if call.txnId = t then next call (phase m t) else phase m t := by
  rw [phase, getElem?_step, phase]
  split_ifs with ht
  · rcases m.transactions[t]? with _ | txn
    · cases call <;> rfl
    · have hp := ofRecord_some_ne_absent txn
      cases call with
      | begin id => exact (if_neg hp).symm
      | commit id => exact (if_neg hp).symm
      | rollback id => exact (if_neg hp).symm
      | _ => rfl
  · rfl

lemma phase_eq_absent {m : TransactionManager} {t : Int32} :
    phase m t = .absent ↔ t ∉ m.transactions := by
  rw [phase, ExtTreeMap.mem_iff_isSome_getElem?]
  rcases m.transactions[t]? with _ | txn
  · simp [ofRecord]
  · simpa using ofRecord_some_ne_absent txn

/-- The committed flag and the local writes of a transaction. -/
def view (m : TransactionManager) (t : Int32) : Option (Bool × ExtTreeMap String VersionedRow) :=
  m.transactions[t]?.map fun txn => (txn.committed, txn.localWrites)

/-! ### The claim and its condition -/

/-- The two ends of a transaction absorb in a run from the empty manager. -/
structure Absorbing (calls : List Call) : Prop where
  /-- After a commit that returned true, flag and writes stay. -/
  committed : ∀ pre t mid post, calls = pre ++ .commit t :: (mid ++ post) →
    ((Call.commit t).apply (run step {} pre)).1 = true →
      view (run step {} (pre ++ .commit t :: mid)) t = view (run step {} (pre ++ [.commit t])) t
  /-- After a rollback that returned true, the flag is down. -/
  notCommitted : ∀ pre t mid post, calls = pre ++ .rollback t :: (mid ++ post) →
    ((Call.rollback t).apply (run step {} pre)).1 = true →
      ∀ txn, (run step {} (pre ++ .rollback t :: mid)).transactions[t]? = some txn →
        txn.committed = false
  /-- After a rollback that returned true, every changing call fails. -/
  refused : ∀ pre t mid call post, calls = pre ++ .rollback t :: (mid ++ call :: post) →
    ((Call.rollback t).apply (run step {} pre)).1 = true → call.isChange → call.txnId = t →
      (call.apply (run step {} (pre ++ .rollback t :: mid))).1 = false ∧
        (step (run step {} (pre ++ .rollback t :: mid)) call).transactions[t]? =
          (run step {} (pre ++ .rollback t :: mid)).transactions[t]?

/-- The call stores under its key the row that is there already. -/
def Stored (txn : Transaction) (k : String) (row : VersionedRow) : Prop :=
  txn.localWrites[k]? = some row

/-- What a call may do to a committed transaction. -/
def Harmless (txn : Transaction) : Call → Prop
  | .insert _ table rowId row => Stored txn (key table rowId) row
  | .update _ table rowId _ new => Stored txn (key table rowId) new
  | .deleteRow _ table rowId old => Stored txn (key table rowId) { old with isDeleted := true }
  | .rollback _ => False
  | _ => True

/-- A changing call finds its transaction absent, active, or committed and is harmless there. -/
def CallOk (m : TransactionManager) (call : Call) : Prop :=
  call.isChange → phase m call.txnId ≠ .rolledBack ∧
    (phase m call.txnId = .committed →
      ∀ txn, m.transactions[call.txnId]? = some txn → Harmless txn call)

/-! ### One call after the end -/

/-- The harmless calls are those that keep flag and writes of a committed transaction. -/
lemma harmless_iff {txn : Transaction} (h : txn.committed = true) (call : Call) :
    Harmless txn call ↔
      ((call.onRecord txn).committed, (call.onRecord txn).localWrites) =
        (txn.committed, txn.localWrites) := by
  have hwrite : ∀ (undo : UndoLogEntry) (row : VersionedRow), Stored txn undo.key row ↔
      ((txn.write undo row).committed, (txn.write undo row).localWrites) =
        (txn.committed, txn.localWrites) := by
    intro undo row
    rw [Stored, ← insert_eq_self_iff, Prod.mk.injEq]
    exact ⟨fun h => ⟨rfl, h⟩, And.right⟩
  cases call with
  | insert id table rowId row => exact hwrite ⟨table, rowId, { isDeleted := true }, .insert⟩ row
  | update id table rowId old new => exact hwrite ⟨table, rowId, old, .update⟩ new
  | deleteRow id table rowId old =>
    exact hwrite ⟨table, rowId, old, .delete⟩ { old with isDeleted := true }
  | begin id => simp [Harmless, Call.onRecord]
  | read id table rowId outRow => simp [Harmless, Call.onRecord]
  | commit id => simp [Harmless, Call.onRecord, Transaction.commit, h]
  | rollback id => simp [Harmless, Call.onRecord, Transaction.rollback, h]

lemma committed_of_phase {m : TransactionManager} {t : Int32} {txn : Transaction}
    (h : phase m t = .committed) (htxn : m.transactions[t]? = some txn) :
    txn.committed = true := by
  rw [phase, htxn, ofRecord] at h
  split_ifs at h with _ hc
  exact hc

lemma exists_of_phase {m : TransactionManager} {t : Int32} (h : phase m t = .committed) :
    ∃ txn, m.transactions[t]? = some txn := by
  have hmem : t ∈ m.transactions := by
    by_contra hmem
    rw [phase_eq_absent.mpr hmem] at h
    cases h
  exact Option.isSome_iff_exists.mp (ExtTreeMap.mem_iff_isSome_getElem?.mp hmem)

/-- A committed transaction keeps flag and writes exactly in the calls that are harmless. -/
lemma view_step_iff {m : TransactionManager} {call : Call}
    (h : phase m call.txnId = .committed) {txn : Transaction}
    (htxn : m.transactions[call.txnId]? = some txn) :
    view (step m call) call.txnId = view m call.txnId ↔ Harmless txn call := by
  rw [harmless_iff (committed_of_phase h htxn), view, view, getElem?_step, if_pos rfl, htxn]
  exact Option.some_inj

/-- An allowed call keeps a committed transaction as it is. -/
lemma committed_step {m : TransactionManager} {call : Call} (hok : CallOk m call) {t : Int32}
    (h : phase m t = .committed) :
    phase (step m call) t = .committed ∧ view (step m call) t = view m t := by
  have hview : view (step m call) t = view m t := by
    by_cases ht : call.txnId = t
    · subst ht
      obtain ⟨txn, htxn⟩ := exists_of_phase h
      refine (view_step_iff h htxn).mpr ?_
      by_cases hcall : call.isChange
      · exact (hok hcall).2 h txn htxn
      · cases call <;> trivial
    · rw [view, getElem?_step, if_neg ht, view]
  refine ⟨?_, hview⟩
  rw [phase_step]
  split_ifs with ht
  · subst ht
    cases call with
    | rollback id =>
      obtain ⟨txn, htxn⟩ := exists_of_phase h
      exact ((hok rfl).2 h txn htxn).elim
    | _ => simp [next, h]
  · exact h

/-- An allowed call keeps a transaction rolled back. -/
lemma rolledBack_step {m : TransactionManager} {call : Call} (hok : CallOk m call) {t : Int32}
    (h : phase m t = .rolledBack) : phase (step m call) t = .rolledBack := by
  rw [phase_step]
  split_ifs with ht
  · subst ht
    have hcall : ¬ call.isChange := fun hcall => (hok hcall).1 h
    cases call <;> first | exact absurd rfl hcall | simp [next, h]
  · exact h

/-! ### Runs -/

/-- Whoever is in the phase a call `last` leads to has had that call. -/
lemma exists_last {q : Phase} {last : Int32 → Call} (hq : q ≠ .absent)
    (hlast : ∀ call p, next call p = q → p = q ∨ (call = last call.txnId ∧ p ≠ .absent))
    {calls : List Call} {t : Int32} (h : phase (run step {} calls) t = q) :
    ∃ pre mid, calls = pre ++ last t :: mid ∧ phase (run step {} pre) t ≠ .absent := by
  induction calls using List.reverseRecOn with
  | nil =>
    refine absurd (h.symm.trans (phase_eq_absent.mpr ?_)) hq
    simp
  | append_singleton calls call ih =>
    have hextend : phase (run step {} calls) t = q →
        ∃ pre mid, calls ++ [call] = pre ++ last t :: mid ∧
          phase (run step {} pre) t ≠ .absent := by
      intro hp
      obtain ⟨pre, mid, rfl, hpre⟩ := ih hp
      exact ⟨pre, mid ++ [call], by simp, hpre⟩
    rw [run_append, run_cons, run_nil, phase_step] at h
    split_ifs at h with ht
    · rcases hlast call _ h with hp | ⟨hcall, hp⟩
      · exact hextend hp
      · subst ht
        exact ⟨calls, [], by rw [← hcall], hp⟩
    · exact hextend h

lemma next_committed (call : Call) (p : Phase) (h : next call p = .committed) :
    p = .committed ∨ (call = .commit call.txnId ∧ p ≠ .absent) := by
  cases call with
  | begin id =>
    simp only [next] at h
    split_ifs at h
    exact Or.inl h
  | commit id =>
    simp only [next] at h
    split_ifs at h with hp
    exact Or.inr ⟨rfl, hp⟩
  | rollback id =>
    simp only [next] at h
    split_ifs at h
  | _ => exact Or.inl h

lemma next_rolledBack (call : Call) (p : Phase) (h : next call p = .rolledBack) :
    p = .rolledBack ∨ (call = .rollback call.txnId ∧ p ≠ .absent) := by
  cases call with
  | begin id =>
    simp only [next] at h
    split_ifs at h
    exact Or.inl h
  | commit id =>
    simp only [next] at h
    split_ifs at h
  | rollback id =>
    simp only [next] at h
    split_ifs at h with hp
    exact Or.inr ⟨rfl, hp⟩
  | _ => exact Or.inl h

/-- In a run of allowed calls the two ends of a transaction absorb. -/
lemma absorbing_of_along {calls : List Call} (h : Along step CallOk {} calls) :
    Absorbing calls := by
  have hpresent : ∀ (call : Call) (m : TransactionManager), call.isChange →
      (call.apply m).1 = true → phase m call.txnId ≠ .absent := by
    intro call m hcall hret hp
    exact phase_eq_absent.mp hp ((apply_eq_true hcall m).mp hret)
  have hrolled : ∀ pre t mid post, calls = pre ++ .rollback t :: (mid ++ post) →
      ((Call.rollback t).apply (run step {} pre)).1 = true →
        phase (run step {} (pre ++ .rollback t :: mid)) t = .rolledBack := by
    rintro pre t mid post rfl hret
    have hp := hpresent (.rollback t) _ rfl hret
    have hmid := (along_append.mp (along_append.mp h).2.2).1
    rw [run_append, run_cons]
    refine run_inv_along (P := fun m => phase m t = .rolledBack)
      (fun m call hm hok => rolledBack_step hok hm) ?_ hmid
    exact (phase_step _ _ t).trans ((if_pos rfl).trans (if_neg hp))
  refine ⟨?_, fun pre t mid post he hret txn htxn => ?_,
    fun pre t mid call post he hret hcall ht => ?_⟩
  · rintro pre t mid post rfl hret
    have hp := hpresent (.commit t) _ rfl hret
    have hmid := (along_append.mp (along_append.mp h).2.2).1
    rw [run_append, run_cons, run_append, run_cons, run_nil]
    set m := step (run step {} pre) (.commit t)
    have hstart : phase m t = .committed :=
      (phase_step _ _ t).trans ((if_pos rfl).trans (if_neg hp))
    refine (run_inv_along (P := fun m' => phase m' t = .committed ∧ view m' t = view m t)
      (fun m' call hm' hok => ?_) ⟨hstart, rfl⟩ hmid).2
    exact ⟨(committed_step hok hm'.1).1, (committed_step hok hm'.1).2.trans hm'.2⟩
  · have hp := hrolled pre t mid post he hret
    rw [phase, htxn, ofRecord] at hp
    split_ifs at hp with _ hc
    exact Bool.eq_false_iff.mpr hc
  · -- an allowed run has no such call
    have hp := hrolled pre t mid (call :: post) he hret
    have hok := along_iff.mp h (pre ++ .rollback t :: mid) call post (by simp [he])
    subst ht
    exact absurd hp (hok hcall).1

/-- A run whose ends absorb has allowed calls only. -/
lemma along_of_absorbing {calls : List Call} (h : Absorbing calls) :
    Along step CallOk {} calls := by
  have hreturns : ∀ (call : Call) (m : TransactionManager), call.isChange →
      phase m call.txnId ≠ .absent → (call.apply m).1 = true := by
    intro call m hcall hp
    rw [apply_eq_true hcall]
    exact not_not.mp (fun hmem => hp (phase_eq_absent.mpr hmem))
  refine along_iff.mpr ?_
  rintro pre call post rfl hcall
  refine ⟨fun hp => ?_, fun hp txn htxn => ?_⟩
  · obtain ⟨pre, mid, rfl, hpre⟩ := exists_last (by simp) next_rolledBack hp
    have hret := hreturns (.rollback call.txnId) _ rfl hpre
    obtain ⟨hfalse, -⟩ := h.refused pre call.txnId mid call post (by simp) hret hcall rfl
    have htrue := hreturns call (run step {} (pre ++ .rollback call.txnId :: mid)) hcall
      (by rw [hp]; simp)
    rw [htrue] at hfalse
    cases hfalse
  · obtain ⟨pre, mid, rfl, hpre⟩ := exists_last (by simp) next_committed hp
    have hret := hreturns (.commit call.txnId) _ rfl hpre
    have hbefore := h.committed pre call.txnId mid (call :: post) (by simp) hret
    have hafter := h.committed pre call.txnId (mid ++ [call]) post (by simp) hret
    rw [← view_step_iff hp htxn, hbefore, ← hafter, ← List.cons_append, ← List.append_assoc,
      run_append _ _ (pre ++ _), run_cons, run_nil]

/-- **When both ends of a transaction absorb**: exactly in the runs where no changing call
finds its transaction rolled back, and the calls that find it committed commit again or store
the row that is there. -/
theorem absorbing_iff (calls : List Call) : Absorbing calls ↔ Along step CallOk {} calls :=
  ⟨along_of_absorbing, absorbing_of_along⟩

/-- A rollback takes a commit back. -/
theorem not_absorbing_rollback : ¬ Absorbing [.begin 1, .commit 1, .rollback 1] := by
  intro h
  have hview := h.committed [.begin 1] 1 [.rollback 1] [] rfl rfl
  have hflag := congrArg (Option.map Prod.fst) hview
  revert hflag
  decide

end Dbx4.TxnPhases
