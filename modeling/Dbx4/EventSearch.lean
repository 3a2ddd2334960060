import Mathlib.Data.Finset.Card
import Mathlib.Data.Finset.Filter
import Dbx4.EventCycle
import Dbx4.PathMeets

/-!
What the search for a cycle answers on any stored events.

The search visits the events of one path at a time, and leaves none of them visited when it
has found no cycle. Below a path there are only so many stored events, whether the path can
come back to itself or not.
-/

namespace Dbx4.EventSearch

open Std Relation Dbx4.Loops Dbx4.EventModel Dbx4.EventModel.EventSystem Dbx4.EventCycle
open Dbx4.PathMeets

variable {W : Type}

/-- `c` is listed as a child of the stored event `id`. -/
def Child (sys : EventSystem W) (id c : UInt64) : Prop := c ∈ childIds sys id

/-- The stored events that are not visited. -/
def unvisited (sys : EventSystem W) (visited : ExtTreeSet UInt64) : Finset UInt64 :=
  sys.events.keys.toFinset.filter (· ∉ visited)

lemma mem_unvisited {sys : EventSystem W} {visited : ExtTreeSet UInt64} {id : UInt64} :
    id ∈ unvisited sys visited ↔ id ∈ sys.events ∧ id ∉ visited := by
  simp [unvisited]

/-- An event with children is stored. -/
lemma mem_of_childIds {sys : EventSystem W} {id c : UInt64} (h : c ∈ childIds sys id) :
    id ∈ sys.events := by
  unfold childIds at h
  rcases hid : sys.events[id]? with _ | event
  · rw [hid] at h
    exact absurd h List.not_mem_nil
  · exact Maps.mem_of_getElem? hid

lemma card_unvisited_insert {sys : EventSystem W} {visited : ExtTreeSet UInt64} {id : UInt64}
    (hid : id ∈ sys.events) (hnew : id ∉ visited) :
    (unvisited sys (visited.insert id)).card < (unvisited sys visited).card := by
  refine Finset.card_lt_card (Finset.ssubset_iff_of_subset (fun id' hid' => ?_) |>.mpr ?_)
  · obtain ⟨hstored, hnot⟩ := mem_unvisited.mp hid'
    exact mem_unvisited.mpr ⟨hstored, fun h => hnot (ExtTreeSet.mem_insert.mpr (Or.inr h))⟩
  · refine ⟨id, mem_unvisited.mpr ⟨hid, hnew⟩, fun h => ?_⟩
    exact (mem_unvisited.mp h).2 ExtTreeSet.mem_insert_self

/-- The search comes back, knows whether `P` holds, and restores what is visited if not. -/
def Answers (o : ℕ → Outcome Empty (Bool × ExtTreeSet UInt64)) (visited : ExtTreeSet UInt64)
    (P : Prop) : Prop :=
  ∃ found visited', Returns o (found, visited') ∧ (found = true ↔ P) ∧
    (found = false → visited' = visited)

lemma anyChild_answers
    {search : ℕ → UInt64 → ExtTreeSet UInt64 → Outcome Empty (Bool × ExtTreeSet UInt64)}
    {visited : ExtTreeSet UInt64} {P : UInt64 → Prop} {ids : List UInt64}
    (h : ∀ id ∈ ids, Answers (fun fuel => search fuel id visited) visited (P id)) :
    Answers (fun fuel => anyChild (search fuel) ids visited) visited (∃ id ∈ ids, P id) := by
  induction ids with
  | nil => exact ⟨false, visited, returns_const _, by simp, fun _ => rfl⟩
  | cons id ids ih =>
    obtain ⟨found, visited', hsearch, hfound, hrestored⟩ := h id List.mem_cons_self
    cases found with
    | true =>
      refine ⟨true, visited', hsearch.bind (returns_const _), ?_, nofun⟩
      exact iff_of_true rfl ⟨id, List.mem_cons_self, hfound.mp rfl⟩
    | false =>
      obtain rfl := hrestored rfl
      obtain ⟨found, visited'', hrest, hiff, hrestored⟩ :=
        ih fun id' hid' => h id' (List.mem_cons_of_mem _ hid')
      have hnot : ¬ P id := fun hP => Bool.false_ne_true (hfound.mpr hP)
      refine ⟨found, visited'', hsearch.bind hrest, ?_, hrestored⟩
      rw [hiff, List.exists_mem_cons_iff, or_iff_right hnot]

/-- Below every path there are fewer stored events left to visit. -/
lemma detectCycle_answers (sys : EventSystem W) (id : UInt64) (visited : ExtTreeSet UInt64) :
    Answers (fun fuel => sys.detectCycle fuel id visited) visited
      (Meets (Child sys) {v | v ∈ visited} id) := by
  induction hleft : (unvisited sys visited).card using Nat.strong_induction_on
    generalizing id visited with
  | h left ih =>
    subst hleft
    by_cases hid : id ∈ visited
    · refine ⟨true, visited, Returns.of_succ ?_, iff_of_true rfl (Meets.here hid), nofun⟩
      simp only [detectCycle_succ, if_pos hid]
      exact returns_const _
    · have hset : {v | v ∈ visited.insert id} = insert id {v | v ∈ visited} := by
        ext v
        simp only [Set.mem_ofPred_eq, ExtTreeSet.mem_insert, LawfulEqOrd.compare_eq_iff_eq,
          Set.mem_insert_iff, @eq_comm _ v id]
      have hchildren : ∀ c ∈ childIds sys id,
          Answers (fun fuel => sys.detectCycle fuel c (visited.insert id)) (visited.insert id)
            (Meets (Child sys) {v | v ∈ visited.insert id} c) := fun c hc =>
        ih _ (card_unvisited_insert (mem_of_childIds hc) hid) c (visited.insert id) rfl
      obtain ⟨found, visited', hany, hfound, hrestored⟩ := anyChild_answers hchildren
      have hmeets : found = true ↔ Meets (Child sys) {v | v ∈ visited} id := by
        rw [hfound, hset, meets_iff_of_notMem (P := {v | v ∈ visited}) hid]
        exact Iff.rfl
      cases found with
      | true =>
        refine ⟨true, visited', Returns.of_succ ?_, hmeets, nofun⟩
        simp only [detectCycle_succ, if_neg hid]
        exact hany.bind (returns_const _)
      | false =>
        obtain rfl := hrestored rfl
        refine ⟨false, visited, Returns.of_succ ?_, hmeets, fun _ => rfl⟩
        simp only [detectCycle_succ, if_neg hid]
        refine hany.bind ?_
        simp only [Bool.false_eq_true, if_false, erase_insert hid]
        exact returns_const _

/-- **The search for a cycle** comes back on any stored events. It finds a cycle when the
children of stored events lead to one, and otherwise leaves nothing visited. -/
theorem detectCycle_returns (sys : EventSystem W) (eventId : UInt64) :
    ∃ found visited, Returns (fun fuel => sys.detectCycle fuel eventId ∅) (found, visited) ∧
      (found = true ↔
        ∃ id, ReflTransGen (Child sys) eventId id ∧ TransGen (Child sys) id id) ∧
      (found = false → visited = ∅) := by
  obtain ⟨found, visited, hreturns, hfound, hrestored⟩ := detectCycle_answers sys eventId ∅
  have hempty : {v : UInt64 | v ∈ (∅ : ExtTreeSet UInt64)} = ∅ := by
    ext v
    simp
  rw [hempty, meets_empty_iff] at hfound
  exact ⟨found, visited, hreturns, hfound, hrestored⟩

end Dbx4.EventSearch
