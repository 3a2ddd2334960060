import Mathlib.Algebra.Group.Nat.Defs
import Dbx4.Counters
import Dbx4.Runs
import Dbx4.MvccModel

/-!
When what a snapshot reads is stable.

A write is stamped with the counter as it stands, and so is a snapshot; only
`increment_version` moves the counter. A write after a snapshot and before the next increment
has the snapshot's own stamp, and the snapshot reads it. What a snapshot reads is stable in
the runs without such writes, and only in those.
-/

namespace Dbx4.MvccStable

open Std Dbx4.Counters Dbx4.Runs Dbx4.MvccModel

/-- Every snapshot of the run reads the same in every row from its registration on. -/
def Stable (calls : List Call) : Prop :=
  ∀ pre activeTxns mid post, calls = pre ++ .takeSnapshot activeTxns :: (mid ++ post) →
    ∀ row,
      (run step {} (pre ++ .takeSnapshot activeTxns :: mid)).versionManager.getVersion row
          (run step {} pre).getSnapshotVersion =
        (run step {} (pre ++ [.takeSnapshot activeTxns])).versionManager.getVersion row
          (run step {} pre).getSnapshotVersion

/-- Every version written after a snapshot is stamped above it. -/
def StampedAbove (calls : List Call) : Prop :=
  ∀ pre activeTxns mid call post,
    calls = pre ++ .takeSnapshot activeTxns :: (mid ++ call :: post) →
      (call.written (run step {} (pre ++ .takeSnapshot activeTxns :: mid))).isSome →
        (run step {} pre).nextVersion <
          (run step {} (pre ++ .takeSnapshot activeTxns :: mid)).nextVersion

lemma getVersion_step_of_stamped {m : MVCCCoordinator} {call : Call} {s : UInt64}
    (h : (call.written m).isSome → s < m.nextVersion) (row : UInt64) :
    (step m call).versionManager.getVersion row s = m.versionManager.getVersion row s := by
  rcases hw : call.written m with _ | v
  · rw [versionManager_of_none hw]
  · have hs : ¬ m.nextVersion ≤ s := UInt64.not_le.mpr (h (by simp [hw]))
    rw [getVersion_of_some hw, if_neg fun hv => hs hv.2]

lemma stable_of_stampedAbove {calls : List Call} (h : StampedAbove calls) : Stable calls := by
  intro pre activeTxns mid post he row
  induction mid using List.reverseRecOn generalizing post with
  | nil => rfl
  | append_singleton mid call ih =>
    have hcall := getVersion_step_of_stamped
      (h pre activeTxns mid call post (by simpa using he)) row
    rw [← List.cons_append, ← List.append_assoc, run_append _ _ (pre ++ _), run_cons, run_nil]
    exact hcall.trans (ih (call :: post) (by simpa using he))

/-! ### Version ids -/

/-- The ids given out so far are below the counter, which has not come round. -/
def IdsBelow (n : ℕ) (m : MVCCCoordinator) : Prop :=
  m.versionManager.nextVersionId.toNat ≤ n ∧
    ∀ row s v, m.versionManager.getVersion row s = some v →
      v.versionId.toNat < m.versionManager.nextVersionId.toNat

lemma idsBelow_step {n : ℕ} (hn : n + 1 < 2 ^ 64) {m : MVCCCoordinator} (h : IdsBelow n m)
    (call : Call) : IdsBelow (n + 1) (step m call) := by
  obtain ⟨hnext, hids⟩ := h
  rcases hw : call.written m with _ | v
  · rw [IdsBelow, versionManager_of_none hw]
    exact ⟨by omega, hids⟩
  · obtain ⟨hv, hstep⟩ := versionManager_of_some hw
    have hsucc : (step m call).versionManager.nextVersionId.toNat =
        m.versionManager.nextVersionId.toNat + 1 := by
      rw [hstep]
      exact toNat_add_one (by omega)
    have hid : v.versionId.toNat = m.versionManager.nextVersionId.toNat := by rw [hv]
    refine ⟨by omega, fun row s w hread => ?_⟩
    rw [getVersion_of_some hw] at hread
    split_ifs at hread
    · cases hread
      omega
    · have := hids row s w hread
      omega

lemma idsBelow_run (calls : List Call) (h : calls.length < 2 ^ 64) :
    IdsBelow calls.length (run step {} calls) := by
  induction calls using List.reverseRecOn with
  | nil =>
    refine ⟨le_rfl, fun row s v hread => ?_⟩
    simp [VersionManager.getVersion] at hread
  | append_singleton calls call ih =>
    rw [List.length_append, List.length_singleton] at h ⊢
    rw [run_append, run_cons, run_nil]
    exact idsBelow_step h (ih (by omega)) call

/-- A snapshot that reads the same across a write is stamped below it: the version written
has an id no earlier version has. -/
lemma stampedAbove_of_stable {calls : List Call} (hlen : calls.length < 2 ^ 64)
    (h : Stable calls) : StampedAbove calls := by
  intro pre activeTxns mid call post he hwritten
  obtain ⟨v, hv⟩ := Option.isSome_iff_exists.mp hwritten
  have hbefore := h pre activeTxns mid (call :: post) he v.rowId
  have hafter := h pre activeTxns (mid ++ [call]) post (by simpa using he) v.rowId
  rw [← List.cons_append, ← List.append_assoc, run_append _ _ (pre ++ _), run_cons, run_nil,
    ← hbefore, getVersion_of_some hv] at hafter
  set m := run step {} (pre ++ .takeSnapshot activeTxns :: mid) with hm
  by_contra hs
  have hs : m.nextVersion ≤ (run step {} pre).getSnapshotVersion := UInt64.not_lt.mp hs
  rw [if_pos ⟨rfl, hs⟩] at hafter
  have hids : IdsBelow _ m := idsBelow_run _ (by simp [he] at hlen ⊢; omega)
  have hlt := hids.2 _ _ _ hafter.symm
  have hid : v.versionId.toNat = m.versionManager.nextVersionId.toNat := by
    rw [(versionManager_of_some hv).1]
  omega

/-- **When what a snapshot reads is stable**: when every version written after the snapshot is
stamped above it; and only then, unless the run is so long that version ids come round. -/
theorem stable_iff_stampedAbove (calls : List Call) :
    (StampedAbove calls → Stable calls) ∧
      (calls.length < 2 ^ 64 → Stable calls → StampedAbove calls) :=
  ⟨stable_of_stampedAbove, stampedAbove_of_stable⟩

/-- A write before the next increment. -/
theorem not_stable_before_increment :
    ¬ Stable [.acquireLock 1 1, .takeSnapshot ∅, .writeRow 1 1 [7]] := by
  intro h
  have hread := h [.acquireLock 1 1] ∅ [.writeRow 1 1 [7]] [] rfl 1
  revert hread
  decide

end Dbx4.MvccStable
