import Dbx4.MvccLocks

/-!
Who waits for a row lock, and who gets it.

A blocking request for a row that is held is queued. A release never looks at the queue: the
row is free behind it, and whoever asks next gets it. The lock passes to the first waiter, and
waiters wait for a row that is held, exactly in the runs where no holder releases a row that
somebody waits for.
-/

namespace Dbx4.LockWaiters

open Std Dbx4.Maps Dbx4.Runs Dbx4.LockTable Dbx4.MvccModel Dbx4.MvccLocks

inductive LockCall
  | acquireLock (rowId txnId : UInt64) (blocking : Bool)
  | releaseLock (rowId txnId : UInt64)

def lockStep (m : LockManager) : LockCall → LockManager
  | .acquireLock rowId txnId blocking => (m.acquireLock rowId txnId blocking).2
  | .releaseLock rowId txnId => m.releaseLock rowId txnId

/-- The transactions queued for a row, the first to come in front. -/
def waiters (m : LockManager) (row : UInt64) : List UInt64 := m.lockWaiters[row]?.getD []

/-- Waiters wait for a row that is held, and the lock passes to the first of them. -/
structure HandsOver (calls : List LockCall) : Prop where
  held : ∀ pre post, calls = pre ++ post → ∀ row, ∀ t ∈ waiters (run lockStep {} pre) row,
    ∃ holder, (run lockStep {} pre).isLocked row holder = true
  passed : ∀ pre row t post, calls = pre ++ .releaseLock row t :: post →
    (run lockStep {} pre).isLocked row t = true →
      ∀ first rest, waiters (run lockStep {} pre) row = first :: rest →
        (run lockStep {} (pre ++ [.releaseLock row t])).isLocked row first = true

/-- No holder releases a row that somebody waits for. -/
def NoneWaiting (m : LockManager) : LockCall → Prop
  | .acquireLock _ _ _ => True
  | .releaseLock row t => m.isLocked row t = true → waiters m row = []

/-! ### One call -/

lemma waiters_releaseLock (m : LockManager) (row t row' : UInt64) :
    waiters (m.releaseLock row t) row' = waiters m row' := by
  rw [LockManager.releaseLock]
  rcases m.rowLocks[row]? with _ | lockers
  · rfl
  · dsimp only
    split_ifs <;> rfl

/-- A queue grows only when its row is held. -/
lemma waiters_acquireLock {m : LockManager} {h : Table UInt64 UInt64} (hm : Holds m h)
    (row t : UInt64) (blocking : Bool) (row' : UInt64) :
    waiters (m.acquireLock row t blocking).2 row' = waiters m row' ∨
      (row' = row ∧ h row ≠ none) := by
  rcases hrow : h row with _ | holder
  · left
    rw [LockManager.acquireLock, hm row, hrow]
    simp [waiters]
  · by_cases hne : row = row'
    · exact Or.inr ⟨hne.symm, by simp⟩
    · left
      rw [LockManager.acquireLock, hm row, hrow]
      simp only [Option.map_some, Option.getD_some, isEmpty_only]
      cases blocking
      · rfl
      · simp only [waiters, Bool.false_eq_true, if_false, if_true, getElem?_insert_of_ne _ hne]

def lockCallOp : LockCall → Op UInt64 UInt64
  | .acquireLock row t _ => .acquire row t
  | .releaseLock row t => .release row t

lemma holds_lockStep {m : LockManager} {h : Table UInt64 UInt64} (hm : Holds m h)
    (call : LockCall) : Holds (lockStep m call) ((lockCallOp call).apply h) := by
  cases call with
  | acquireLock row t blocking => exact holds_acquireLock hm row t blocking
  | releaseLock row t => exact holds_releaseLock hm row t

lemma exists_holds (calls : List LockCall) : ∃ h, Holds (run lockStep {} calls) h := by
  have hstep : ∀ m h call, Holds m h → Holds (lockStep m call) ((lockCallOp call).apply h) :=
    fun _ _ call hm => holds_lockStep hm call
  exact ⟨_, run_sim (R := Holds) hstep holds_empty calls⟩

/-- A lock manager whose waiters wait for rows that are held. -/
def WaitsHeld (m : LockManager) : Prop :=
  ∃ h, Holds m h ∧ ∀ row, waiters m row ≠ [] → h row ≠ none

lemma waitsHeld_step {m : LockManager} (hw : WaitsHeld m) {call : LockCall}
    (hok : NoneWaiting m call) : WaitsHeld (lockStep m call) := by
  obtain ⟨h, hm, hheld⟩ := hw
  refine ⟨_, holds_lockStep hm call, fun row' hrow' => ?_⟩
  cases call with
  | acquireLock row t blocking =>
    have hwait : h row' ≠ none ∨ (row' = row ∧ h row = none) := by
      rcases waiters_acquireLock hm row t blocking row' with hsame | ⟨rfl, hrow⟩
      · exact Or.inl (hheld row' (by rwa [← hsame]))
      · exact Or.inl hrow
    by_cases hrow : h row = none
    · rw [lockCallOp, acquire_of_free hrow]
      by_cases hne : row' = row
      · subst hne
        simp
      · rw [Function.update_of_ne hne]
        rcases hwait with hwait | ⟨rfl, -⟩
        · exact hwait
        · exact absurd rfl hne
    · rw [lockCallOp, acquire_of_held hrow]
      rcases hwait with hwait | ⟨-, hnone⟩
      · exact hwait
      · exact absurd hnone hrow
  | releaseLock row t =>
    rw [lockStep, waiters_releaseLock] at hrow'
    rw [lockCallOp]
    by_cases hholder : h row = some t
    · -- the holder releases a row nobody waits for
      have hnone := hok ((isLocked_iff hm row t).mpr hholder)
      rw [release_of_holder hholder]
      have hne : row' ≠ row := by
        rintro rfl
        exact hrow' hnone
      rw [Function.update_of_ne hne]
      exact hheld row' hrow'
    · rw [release_of_other hholder]
      exact hheld row' hrow'

/-! ### Runs -/

lemma handsOver_of_along {calls : List LockCall} (h : Along lockStep NoneWaiting {} calls) :
    HandsOver calls := by
  refine ⟨?_, fun pre row t post he hlocked first rest hwait => ?_⟩
  · rintro pre post rfl row t ht
    have hw : WaitsHeld (run lockStep {} pre) :=
      run_inv_along (P := WaitsHeld) (fun _ _ hw hok => waitsHeld_step hw hok)
        ⟨_, holds_empty, by simp [waiters]⟩ (along_append.mp h).1
    obtain ⟨table, hm, hheld⟩ := hw
    obtain ⟨holder, hholder⟩ := Option.ne_none_iff_exists'.mp
      (hheld row (List.ne_nil_of_mem ht))
    exact ⟨holder, (isLocked_iff hm row holder).mpr hholder⟩
  · have hnone := along_iff.mp h pre (.releaseLock row t) post he hlocked
    rw [hwait] at hnone
    cases hnone

lemma along_of_handsOver {calls : List LockCall} (h : HandsOver calls) :
    Along lockStep NoneWaiting {} calls := by
  refine along_iff.mpr ?_
  rintro pre call post rfl
  cases call with
  | acquireLock row t blocking => trivial
  | releaseLock row t =>
    intro hlocked
    by_contra hwait
    obtain ⟨first, hfirst⟩ := List.exists_mem_of_ne_nil _ hwait
    -- behind the release the row is free, and the waiter still in the queue
    obtain ⟨table, hm⟩ := exists_holds pre
    have hholder := (isLocked_iff hm row t).mp hlocked
    have hafter := holds_releaseLock hm row t
    rw [release_of_holder hholder] at hafter
    obtain ⟨holder, hheld⟩ := h.held (pre ++ [.releaseLock row t]) post (by simp) row first (by
      rw [run_append, run_cons, run_nil, lockStep, waiters_releaseLock]
      exact hfirst)
    rw [run_append, run_cons, run_nil, lockStep, isLocked_iff hafter, Function.update_self]
      at hheld
    cases hheld

/-- **When the lock passes to the first waiter**: exactly in the runs where no holder releases
a row that somebody waits for. -/
theorem handsOver_iff (calls : List LockCall) :
    HandsOver calls ↔ Along lockStep NoneWaiting {} calls :=
  ⟨along_of_handsOver, handsOver_of_along⟩

/-- The waiter is left behind. -/
theorem not_handsOver_release :
    ¬ HandsOver [.acquireLock 1 1 true, .acquireLock 1 2 true, .releaseLock 1 1] := by
  intro h
  have hpassed := h.passed [.acquireLock 1 1 true, .acquireLock 1 2 true] 1 1 [] rfl rfl 2 [] rfl
  revert hpassed
  decide

end Dbx4.LockWaiters
