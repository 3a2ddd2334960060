import Mathlib.Algebra.Group.Nat.Defs
import Dbx4.Counters
import Dbx4.MvccReads

/-!
The order of the versions of a row.

A version gets the next id and the counter as it stands, and goes to the end of its row. So
stamps do not decrease in a row, and ids increase, until one of the two counters comes round.
-/

namespace Dbx4.MvccVersions

open Std Dbx4.Counters Dbx4.Maps Dbx4.Runs Dbx4.MvccModel Dbx4.MvccLocks Dbx4.MvccReads

/-- The versions of every row in the order of their stamps and of their ids, and no id twice. -/
structure Ordered (m : MVCCCoordinator) : Prop where
  stamps : ∀ row, (versionsOf m row).Pairwise fun v w => v.snapshotVersion ≤ w.snapshotVersion
  ids : ∀ row, (versionsOf m row).Pairwise fun v w => v.versionId < w.versionId
  unique : ∀ row row', ∀ v ∈ versionsOf m row, ∀ w ∈ versionsOf m row',
    v.versionId = w.versionId → row = row'

/-- The version of a row that was created last among those with the greatest stamp that is not
above `s`. -/
def Newest (m : MVCCCoordinator) (row s : UInt64) (v : Version) : Prop :=
  v ∈ versionsOf m row ∧ v.snapshotVersion ≤ s ∧
    ∀ w ∈ versionsOf m row, w.snapshotVersion ≤ s →
      w.snapshotVersion < v.snapshotVersion ∨
        w.snapshotVersion = v.snapshotVersion ∧ w.versionId ≤ v.versionId

/-- In order, versions are read newest first. -/
lemma Ordered.getVersion_iff {m : MVCCCoordinator} (h : Ordered m) (row s : UInt64) (v : Version) :
    m.versionManager.getVersion row s = some v ↔ Newest m row s v := by
  rw [getVersion_eq_latest, latest_eq_some_iff]
  constructor
  · rintro ⟨pre, post, he, hv, hpost⟩
    refine ⟨he ▸ List.mem_append_right _ List.mem_cons_self, hv, fun w hw hws => ?_⟩
    have hstamps := h.stamps row
    have hids := h.ids row
    rw [he] at hw hstamps hids
    rcases List.mem_append.mp hw with hw | hw
    · have hle := (List.pairwise_append.mp hstamps).2.2 w hw v List.mem_cons_self
      have hlt := (List.pairwise_append.mp hids).2.2 w hw v List.mem_cons_self
      rw [UInt64.le_iff_toNat_le] at hle
      rw [UInt64.lt_iff_toNat_lt] at hlt
      rw [UInt64.lt_iff_toNat_lt, UInt64.le_iff_toNat_le, ← UInt64.toNat_inj]
      omega
    · rcases List.mem_cons.mp hw with rfl | hw
      · exact .inr ⟨rfl, UInt64.le_refl _⟩
      · exact absurd hws (hpost w hw)
  · rintro ⟨hmem, hv, hnewest⟩
    obtain ⟨pre, post, he⟩ := List.append_of_mem hmem
    refine ⟨pre, post, he, hv, fun w hw hws => ?_⟩
    have hstamps := h.stamps row
    have hids := h.ids row
    rw [he] at hstamps hids
    have hle := List.rel_of_pairwise_cons (List.pairwise_append.mp hstamps).2.1 hw
    have hlt := List.rel_of_pairwise_cons (List.pairwise_append.mp hids).2.1 hw
    have hnew := hnewest w (he ▸ List.mem_append_right _ (List.mem_cons_of_mem _ hw)) hws
    rw [UInt64.le_iff_toNat_le] at hle
    rw [UInt64.lt_iff_toNat_lt] at hlt
    rw [UInt64.lt_iff_toNat_lt, UInt64.le_iff_toNat_le, ← UInt64.toNat_inj] at hnew
    omega

/-! ### One call -/

section Step

variable {m : MVCCCoordinator} {call : Call} {v : Version}

lemma versionsOf_of_none (h : call.written m = none) (row : UInt64) :
    versionsOf (step m call) row = versionsOf m row := by
  rw [versionsOf, versionManager_of_none h, versionsOf]

lemma versionsOf_of_some (h : call.written m = some v) (row : UInt64) :
    versionsOf (step m call) row = versionsOf m row ++ if v.rowId = row then [v] else [] := by
  obtain ⟨hv, hstep⟩ := versionManager_of_some h
  rw [versionsOf, hstep, VersionManager.createVersion, ← hv, versionsOf]
  dsimp only
  split_ifs with hrow
  · subst hrow
    rw [ExtTreeMap.getElem?_insert_self, Option.getD_some]
  · rw [getElem?_insert_of_ne _ hrow, List.append_nil]

/-- The ids given out so far end before the next one, and start with 0. -/
structure IdsGiven (m : MVCCCoordinator) : Prop where
  le : ∀ row, ∀ v ∈ versionsOf m row, v.versionId ≤ m.versionManager.nextVersionId - 1
  first : (∃ row, versionsOf m row ≠ []) → ∃ row, ∃ v ∈ versionsOf m row, v.versionId = 0
  none : (∀ row, versionsOf m row = []) → m.versionManager.nextVersionId = 0

/-- A version that the call writes is not the first after the ids have come round, and has a
stamp not below those of its row. -/
def Fresh (m : MVCCCoordinator) (call : Call) : Prop :=
  ∀ v, call.written m = some v →
    (m.versionManager.nextVersionId ≠ 0 ∨ ∀ row, versionsOf m row = []) ∧
      ∀ w ∈ versionsOf m v.rowId, w.snapshotVersion ≤ m.nextVersion

lemma written_spec (h : call.written m = some v) :
    v.versionId = m.versionManager.nextVersionId ∧ v.snapshotVersion = m.nextVersion ∧
      (step m call).versionManager.nextVersionId = m.versionManager.nextVersionId + 1 := by
  obtain ⟨hv, hstep⟩ := versionManager_of_some h
  refine ⟨?_, ?_, ?_⟩
  · rw [hv]
  · rw [hv]
  · rw [hstep]
    rfl

lemma mem_versionsOf_step (h : call.written m = some v) {row : UInt64} {w : Version} :
    w ∈ versionsOf (step m call) row ↔ w ∈ versionsOf m row ∨ w = v ∧ v.rowId = row := by
  rw [versionsOf_of_some h, List.mem_append]
  split_ifs with hrow <;> simp [hrow]

/-- Before the ids have come round, the ids given out are below the next one. -/
lemma id_lt_of_fresh (hids : IdsGiven m)
    (hfresh : m.versionManager.nextVersionId ≠ 0 ∨ ∀ row, versionsOf m row = []) {row : UInt64}
    {w : Version} (hw : w ∈ versionsOf m row) :
    w.versionId < m.versionManager.nextVersionId := by
  have hne : m.versionManager.nextVersionId ≠ 0 :=
    hfresh.resolve_right fun h => List.ne_nil_of_mem hw (h row)
  have hle := hids.le row w hw
  rw [← UInt64.toNat_inj.ne, UInt64.toNat_zero] at hne
  have hone : (1 : UInt64) ≤ m.versionManager.nextVersionId := by
    rw [UInt64.le_iff_toNat_le, UInt64.toNat_one]
    omega
  rw [UInt64.le_iff_toNat_le, UInt64.toNat_sub_of_le _ _ hone, UInt64.toNat_one] at hle
  rw [UInt64.lt_iff_toNat_lt]
  omega

/-- What holds between the versions of a row, and between them and the new one. -/
lemma pairwise_step {R : Version → Version → Prop} (hw : call.written m = some v)
    (h : ∀ row, (versionsOf m row).Pairwise R) (hv : ∀ w ∈ versionsOf m v.rowId, R w v)
    (row : UInt64) : (versionsOf (step m call) row).Pairwise R := by
  rw [versionsOf_of_some hw, List.pairwise_append]
  refine ⟨h row, ?_, fun w hwr x hx => ?_⟩
  · split_ifs
    · exact List.pairwise_singleton _ _
    · exact List.Pairwise.nil
  · split_ifs at hx with hrow
    · obtain rfl := List.mem_singleton.mp hx
      exact hv w (hrow ▸ hwr)
    · exact absurd hx List.not_mem_nil

lemma ordered_step_of_fresh (hordered : Ordered m) (hids : IdsGiven m) (hfresh : Fresh m call) :
    Ordered (step m call) := by
  rcases hw : call.written m with _ | v
  · have hsame := versionsOf_of_none hw
    exact ⟨fun row => hsame row ▸ hordered.stamps row, fun row => hsame row ▸ hordered.ids row,
      fun row row' => hsame row ▸ hsame row' ▸ hordered.unique row row'⟩
  · obtain ⟨hid, hstamp, -⟩ := written_spec hw
    obtain ⟨hround, hbelow⟩ := hfresh v hw
    have hlt {row : UInt64} {w : Version} (hwr : w ∈ versionsOf m row) :
        w.versionId < v.versionId := hid ▸ id_lt_of_fresh hids hround hwr
    refine ⟨pairwise_step hw hordered.stamps (hstamp ▸ hbelow),
      pairwise_step hw hordered.ids fun w hwr => hlt hwr, fun row row' w hwr x hx heq => ?_⟩
    rcases (mem_versionsOf_step hw).mp hwr with hwr | ⟨rfl, rfl⟩
    · rcases (mem_versionsOf_step hw).mp hx with hx | ⟨rfl, rfl⟩
      · exact hordered.unique row row' w hwr x hx heq
      · exact absurd (hlt hwr) (heq ▸ UInt64.lt_irrefl _)
    · rcases (mem_versionsOf_step hw).mp hx with hx | ⟨-, hrow⟩
      · exact absurd (hlt hx) (heq ▸ UInt64.lt_irrefl _)
      · exact hrow

lemma fresh_of_ordered_step (hids : IdsGiven m) (hordered : Ordered (step m call)) :
    Fresh m call := by
  intro v hw
  obtain ⟨hid, hstamp, -⟩ := written_spec hw
  have hnew : v ∈ versionsOf (step m call) v.rowId := (mem_versionsOf_step hw).mpr (.inr ⟨rfl, rfl⟩)
  have hsplit : versionsOf (step m call) v.rowId = versionsOf m v.rowId ++ [v] := by
    rw [versionsOf_of_some hw, if_pos rfl]
  constructor
  · by_contra hround
    rw [not_or, not_not, not_forall] at hround
    obtain ⟨row, w, hwr, hzero⟩ := hids.first hround.2
    -- the id 0 is given out once more
    have hsame : w.versionId = v.versionId := by rw [hzero, hid, hround.1]
    have hrow := hordered.unique row v.rowId w ((mem_versionsOf_step hw).mpr (.inl hwr)) v hnew
      hsame
    have hpair := hordered.ids v.rowId
    rw [hsplit] at hpair
    have hlt := (List.pairwise_append.mp hpair).2.2 w (hrow ▸ hwr) v List.mem_cons_self
    exact absurd hlt (hsame ▸ UInt64.lt_irrefl _)
  · intro w hwr
    have hpair := hordered.stamps v.rowId
    rw [hsplit] at hpair
    exact hstamp ▸ (List.pairwise_append.mp hpair).2.2 w hwr v List.mem_cons_self

lemma idsGiven_step_of_fresh (hids : IdsGiven m) (hfresh : Fresh m call) :
    IdsGiven (step m call) := by
  rcases hw : call.written m with _ | v
  · have hsame : versionsOf (step m call) = versionsOf m := funext (versionsOf_of_none hw)
    obtain ⟨hle, hfirst, hnone⟩ := hids
    refine ⟨?_, hsame ▸ hfirst, ?_⟩
    · rwa [hsame, versionManager_of_none hw]
    · rwa [hsame, versionManager_of_none hw]
  · obtain ⟨hid, -, hnext⟩ := written_spec hw
    obtain ⟨hround, -⟩ := hfresh v hw
    have hnew : v ∈ versionsOf (step m call) v.rowId :=
      (mem_versionsOf_step hw).mpr (.inr ⟨rfl, rfl⟩)
    refine ⟨fun row w hwr => ?_, fun _ => ?_, fun hnil => ?_⟩
    · have hback : (step m call).versionManager.nextVersionId - 1 =
          m.versionManager.nextVersionId := by
        rw [hnext, UInt64.add_sub_cancel]
      rw [hback]
      rcases (mem_versionsOf_step hw).mp hwr with hwr | ⟨rfl, -⟩
      · exact UInt64.le_of_lt (id_lt_of_fresh hids hround hwr)
      · exact hid ▸ UInt64.le_refl _
    · by_cases hall : ∀ row, versionsOf m row = []
      · exact ⟨v.rowId, v, hnew, hid.trans (hids.none hall)⟩
      · obtain ⟨row, w, hwr, hzero⟩ := hids.first (not_forall.mp hall)
        exact ⟨row, w, (mem_versionsOf_step hw).mpr (.inl hwr), hzero⟩
    · exact absurd hnew (hnil v.rowId ▸ List.not_mem_nil)

end Step

/-! ### Runs -/

/-- Versions are in order, and read newest first. -/
def InOrder (m : MVCCCoordinator) : Prop :=
  Ordered m ∧ ∀ row s v, m.versionManager.getVersion row s = some v ↔ Newest m row s v

lemma inOrder_iff (m : MVCCCoordinator) : InOrder m ↔ Ordered m :=
  ⟨And.left, fun h => ⟨h, h.getVersion_iff⟩⟩

lemma versionsOf_empty (row : UInt64) : versionsOf {} row = [] := by
  simp [versionsOf]

lemma ordered_empty : Ordered {} := by
  refine ⟨fun row => ?_, fun row => ?_, fun row row' v hv => ?_⟩
  · rw [versionsOf_empty]
    exact List.Pairwise.nil
  · rw [versionsOf_empty]
    exact List.Pairwise.nil
  · rw [versionsOf_empty] at hv
    exact absurd hv List.not_mem_nil

lemma idsGiven_empty : IdsGiven {} := by
  refine ⟨fun row v hv => ?_, fun ⟨row, hrow⟩ => ?_, fun _ => rfl⟩
  · rw [versionsOf_empty] at hv
    exact absurd hv List.not_mem_nil
  · exact absurd (versionsOf_empty row) hrow

/-- Neither counter has come round in `n` calls. -/
structure Short (n : ℕ) (m : MVCCCoordinator) : Prop where
  version : m.nextVersion.toNat ≤ n
  id : m.versionManager.nextVersionId.toNat ≤ n
  stamps : ∀ row, ∀ v ∈ versionsOf m row, v.snapshotVersion ≤ m.nextVersion
  started : m.versionManager.nextVersionId ≠ 0 ∨ ∀ row, versionsOf m row = []

/-- Only `increment_version` moves the counter of stamps. -/
lemma nextVersion_step (m : MVCCCoordinator) (call : Call) :
    (step m call).nextVersion = m.nextVersion ∨
      (step m call).nextVersion = m.nextVersion + 1 ∧ call.written m = none := by
  cases call with
  | incrementVersion => exact .inr ⟨rfl, rfl⟩
  | writeRow row t data =>
    simp only [step, MVCCCoordinator.writeRow]
    split_ifs <;> exact .inl rfl
  | deleteRow row t =>
    simp only [step, MVCCCoordinator.deleteRow]
    split_ifs <;> exact .inl rfl
  | _ => exact .inl rfl

lemma short_step {n : ℕ} (hn : n + 1 < 2 ^ 64) {m : MVCCCoordinator} (h : Short n m)
    (call : Call) : Short (n + 1) (step m call) := by
  obtain ⟨hversion, hid, hstamps, hstarted⟩ := h
  rcases hw : call.written m with _ | v
  · have hsame := versionsOf_of_none hw
    have hgrown : m.nextVersion.toNat ≤ (step m call).nextVersion.toNat ∧
        (step m call).nextVersion.toNat ≤ n + 1 := by
      rcases nextVersion_step m call with hstep | ⟨hstep, -⟩
      · rw [hstep]
        omega
      · rw [hstep, toNat_add_one (by omega)]
        omega
    refine ⟨hgrown.2, ?_, fun row w hwr => ?_, ?_⟩
    · rw [versionManager_of_none hw]
      omega
    · have hle := hstamps row w (hsame row ▸ hwr)
      rw [UInt64.le_iff_toNat_le] at hle ⊢
      omega
    · rw [versionManager_of_none hw]
      exact hstarted.imp_right fun hall row => (hsame row).trans (hall row)
  · obtain ⟨-, hstamp, hnext⟩ := written_spec hw
    have hsame : (step m call).nextVersion = m.nextVersion :=
      (nextVersion_step m call).resolve_right fun h => Option.some_ne_none v (hw.symm.trans h.2)
    have hsucc : (m.versionManager.nextVersionId + 1).toNat =
        m.versionManager.nextVersionId.toNat + 1 := toNat_add_one (by omega)
    refine ⟨by rw [hsame]; omega, by rw [hnext, hsucc]; omega, fun row w hwr => ?_, .inl ?_⟩
    · rw [hsame]
      rcases (mem_versionsOf_step hw).mp hwr with hwr | ⟨rfl, -⟩
      · exact hstamps row w hwr
      · exact hstamp ▸ UInt64.le_refl _
    · rw [hnext, ← UInt64.toNat_inj.ne, hsucc]
      exact Nat.succ_ne_zero _

lemma short_run (calls : List Call) (h : calls.length < 2 ^ 64) :
    Short calls.length (run step {} calls) := by
  induction calls using List.reverseRecOn with
  | nil =>
    refine ⟨le_rfl, le_rfl, fun row v hv => ?_, .inr versionsOf_empty⟩
    exact absurd (versionsOf_empty row ▸ hv) List.not_mem_nil
  | append_singleton calls call ih =>
    rw [List.length_append, List.length_singleton] at h ⊢
    rw [run_append, run_cons, run_nil]
    exact short_step h (ih (by omega)) call

/-- **When versions stay in order**: as long as every write is fresh, and so in every run
before a counter has come round. -/
theorem always_inOrder_iff (calls : List Call) :
    (Always step InOrder {} calls ↔ Along step Fresh {} calls) ∧
      (calls.length < 2 ^ 64 → Always step InOrder {} calls) := by
  have hiff : Always step InOrder {} calls ↔ Along step Fresh {} calls := by
    refine always_iff_along_of_inv (Q := IdsGiven) (fun m call hm hids => ?_)
      (fun m call _ hids hfresh => idsGiven_step_of_fresh hids hfresh)
      ((inOrder_iff _).mpr ordered_empty) idsGiven_empty
    rw [inOrder_iff]
    exact ⟨fresh_of_ordered_step hids,
      ordered_step_of_fresh ((inOrder_iff m).mp hm) hids⟩
  refine ⟨hiff, fun hlength => hiff.mpr (along_iff.mpr ?_)⟩
  rintro pre call post rfl v -
  have hshort := short_run pre (by simp at hlength; omega)
  exact ⟨hshort.started, hshort.stamps v.rowId⟩

/-- Two writes of one row. -/
theorem always_inOrder_two :
    Always step InOrder {} [.acquireLock 1 1, .writeRow 1 1 [], .writeRow 1 1 []] :=
  (always_inOrder_iff _).2 (by decide)

/-! ### A counter that comes round -/

lemma run_increments (m : MVCCCoordinator) (n : ℕ) :
    run step m (List.replicate n .incrementVersion) =
      { m with nextVersion := m.nextVersion + UInt64.ofNat n } := by
  induction n generalizing m with
  | zero =>
    have hzero : m.nextVersion + UInt64.ofNat 0 = m.nextVersion := UInt64.add_zero _
    rw [hzero]
    rfl
  | succ n ih =>
    have hsucc : m.nextVersion + 1 + UInt64.ofNat n = m.nextVersion + UInt64.ofNat (n + 1) := by
      rw [UInt64.ofNat_add, UInt64.add_assoc, UInt64.add_comm 1]
      rfl
    rw [List.replicate_succ, run_cons, ih, ← hsucc]
    rfl

/-- Locked, and written under the stamp 1. -/
def written : MVCCCoordinator :=
  run step {} [.acquireLock 1 1, .incrementVersion, .writeRow 1 1 []]

/-- A write under the stamp 1, and another when the counter has come round to 0. -/
theorem not_always_inOrder : ¬∀ calls, Always step InOrder {} calls := by
  intro h
  obtain ⟨n, hn⟩ : ∃ n, n + 1 = 2 ^ 64 := ⟨2 ^ 64 - 1, rfl⟩
  have hround : (1 : UInt64) + UInt64.ofNat n = 0 := by
    have hsum : UInt64.ofNat (n + 1) = 0 := by rw [hn]; rfl
    rw [UInt64.add_comm, ← hsum, UInt64.ofNat_add]
    rfl
  have hrun : run step written (List.replicate n .incrementVersion) =
      { written with nextVersion := 0 } := by
    rw [run_increments]
    exact congrArg (fun k => { written with nextVersion := k }) hround
  have hordered := (h ([.acquireLock 1 1, .incrementVersion, .writeRow 1 1 []] ++
    (List.replicate n .incrementVersion ++ [.writeRow 1 1 []])) _ [] (List.append_nil _).symm).1
  rw [run_append, run_append, ← written, hrun] at hordered
  have hpair := hordered.stamps 1
  revert hpair
  decide

end Dbx4.MvccVersions
