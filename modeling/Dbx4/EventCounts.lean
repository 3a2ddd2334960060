import Mathlib.Data.Finset.Card
import Mathlib.Data.Finset.Filter
import Dbx4.Counters
import Dbx4.EventModel

/-!
The counters of the event system.

A raise moves the id generator and the total before it meets the cascade limit, and counts the
cascades by the parent that is stored before the event itself. Where every raise is below the
limit and no event names its own id or a later one as its parent, the counters are right.
-/

namespace Dbx4.EventCounts

open Std Dbx4.Counters Dbx4.Maps Dbx4.Runs Dbx4.EventModel Dbx4.EventModel.EventSystem

variable {W : Type}

def getEventCount (sys : EventSystem W) : UInt64 := sys.totalEvents

def getCascadedCount (sys : EventSystem W) : UInt64 := sys.cascadedEvents

/-- The stored events whose parent is stored. -/
def cascades (sys : EventSystem W) : ℕ :=
  sys.events.toList.countP fun entry => (sys.parentOf entry.2.parentEventId).isSome

structure CountsRight (sys : EventSystem W) : Prop where
  events : (getEventCount sys).toNat = sys.events.size
  cascaded : (getCascadedCount sys).toNat = cascades sys

/-- A raise that returns 0 changes nothing, and the counters are right behind every raise. -/
def Faithful (sys : EventSystem W) (r : Raise) : Prop :=
  ((sys.raiseEvent r).1 = 0 → (sys.raiseEvent r).2 = sys) ∧ CountsRight (sys.raiseEvent r).2

/-- The ids have not wrapped, the event is below the cascade limit, and neither it nor a stored
event names the id that it is to have as its parent. -/
structure Keeps (sys : EventSystem W) (r : Raise) : Prop where
  notWrapped : sys.nextEventId ≠ 0
  notRejected : ∀ parent, sys.parentOf r.parentEventId = some parent →
    ¬ maxEventDepth < parent.depth + 1
  notOwn : r.parentEventId ≠ sys.nextEventId
  notNamed : ∀ (id : UInt64) (e : Event), sys.events[id]? = some e →
    e.parentEventId ≠ sys.nextEventId

/-! ### Counting by ids -/

def storedIds (sys : EventSystem W) : Finset UInt64 := sys.events.keys.toFinset

/-- The ids of the stored events whose parent is stored. -/
def cascadedIds (sys : EventSystem W) : Finset UInt64 :=
  (storedIds sys).filter fun id =>
    (sys.events[id]?.bind fun e => sys.parentOf e.parentEventId).isSome

lemma mem_storedIds {sys : EventSystem W} {id : UInt64} :
    id ∈ storedIds sys ↔ (sys.events[id]?.map Event.parentEventId).isSome := by
  rw [storedIds, List.mem_toFinset, ExtTreeMap.mem_keys, ExtTreeMap.mem_iff_isSome_getElem?,
    Option.isSome_map]

lemma card_storedIds (sys : EventSystem W) : (storedIds sys).card = sys.events.size := by
  rw [storedIds, List.toFinset_card_of_nodup sys.events.nodup_keys, ExtTreeMap.length_keys]

lemma isSome_parentOf {sys : EventSystem W} {id : UInt64} :
    (sys.parentOf id).isSome ↔ 0 < id ∧ id ∈ storedIds sys := by
  rw [mem_storedIds, Option.isSome_map, parentOf]
  split_ifs with h <;> simp [h]

lemma mem_cascadedIds {sys : EventSystem W} {id : UInt64} :
    id ∈ cascadedIds sys ↔ ∃ p, sys.events[id]?.map Event.parentEventId = some p ∧
      0 < p ∧ p ∈ storedIds sys := by
  rw [cascadedIds, Finset.mem_filter, mem_storedIds]
  rcases sys.events[id]? with _ | e
  · simp
  · simp [isSome_parentOf]

lemma card_cascadedIds (sys : EventSystem W) : cascades sys = (cascadedIds sys).card := by
  refine countP_toList sys.events (fun e => (sys.parentOf e.parentEventId).isSome) _ fun id => ?_
  rw [cascadedIds, Finset.mem_filter, mem_storedIds]
  rcases sys.events[id]? with _ | e
  · simp
  · simp

/-! ### One raise -/

/-- What an accepted raise does to the counters and to the names of the parents. -/
structure Accepted (sys sys' : EventSystem W) (parentEventId : UInt64) : Prop where
  total : sys'.totalEvents = sys.totalEvents + 1
  cascaded : sys'.cascadedEvents =
    sys.cascadedEvents + if (sys.parentOf parentEventId).isSome then 1 else 0
  parents : ∀ id : UInt64, sys'.events[id]?.map Event.parentEventId =
    if id = sys.nextEventId then some parentEventId
    else sys.events[id]?.map Event.parentEventId

lemma raiseEvent_accepted_or (sys : EventSystem W) (r : Raise) :
    (∃ parent, sys.parentOf r.parentEventId = some parent ∧ maxEventDepth < parent.depth + 1 ∧
      sys.raiseEvent r = (0, sys.counted)) ∨
    (∀ parent, sys.parentOf r.parentEventId = some parent → ¬ maxEventDepth < parent.depth + 1) ∧
      ∃ sys', sys.raiseEvent r = (sys.nextEventId, sys') ∧ Accepted sys sys' r.parentEventId := by
  rcases sys.raiseEvent_cases r with hrejected | ⟨parent, hparent, hdepth, he⟩ | ⟨hnone, he⟩
  · exact Or.inl hrejected
  · refine Or.inr ⟨fun parent' hparent' => ?_, _, he, rfl, ?_, fun id => ?_⟩
    · cases hparent.symm.trans hparent'
      exact hdepth
    · rw [hparent]
      rfl
    · have hstored := getElem?_of_parentOf hparent
      rw [map_getElem?_insert, map_getElem?_children (fun _ _ => rfl) hstored]
      rfl
  · refine Or.inr ⟨fun parent hparent => ?_, _, he, rfl, ?_, fun id => ?_⟩
    · cases hnone.symm.trans hparent
    · rw [hnone]
      exact (UInt64.add_zero _).symm
    · exact map_getElem?_insert _ _ _ _ _

/-- The ids that the counter of cascades takes to have a stored parent. -/
def countedIds (sys : EventSystem W) (parentEventId : UInt64) : Finset UInt64 :=
  if (sys.parentOf parentEventId).isSome then insert sys.nextEventId (cascadedIds sys)
  else cascadedIds sys

namespace Accepted

variable {sys sys' : EventSystem W} {parentEventId : UInt64}

lemma storedIds_eq (h : Accepted sys sys' parentEventId) :
    storedIds sys' = insert sys.nextEventId (storedIds sys) := by
  ext id
  rw [mem_storedIds, h.parents, Finset.mem_insert, mem_storedIds]
  split_ifs with hid <;> simp [hid]

lemma countedIds_subset (h : Accepted sys sys' parentEventId)
    (hfresh : sys.nextEventId ∉ storedIds sys) :
    countedIds sys parentEventId ⊆ cascadedIds sys' := by
  have hkept : cascadedIds sys ⊆ cascadedIds sys' := by
    intro id hid
    obtain ⟨p, hp, hpos, hstored⟩ := mem_cascadedIds.mp hid
    refine mem_cascadedIds.mpr ⟨p, ?_, hpos, ?_⟩
    · have hne : id ≠ sys.nextEventId := by
        rintro rfl
        exact hfresh (mem_storedIds.mpr (by rw [hp]; rfl))
      rw [h.parents, if_neg hne, hp]
    · rw [h.storedIds_eq]
      exact Finset.mem_insert_of_mem hstored
  unfold countedIds
  split_ifs with hparent
  · obtain ⟨hpos, hstored⟩ := isSome_parentOf.mp hparent
    refine Finset.insert_subset (mem_cascadedIds.mpr ⟨parentEventId, ?_, hpos, ?_⟩) hkept
    · rw [h.parents, if_pos rfl]
    · rw [h.storedIds_eq]
      exact Finset.mem_insert_of_mem hstored
  · exact hkept

lemma mem_storedIds_next (h : Accepted sys sys' parentEventId) :
    sys.nextEventId ∈ storedIds sys' := by
  rw [h.storedIds_eq]
  exact Finset.mem_insert_self _ _

/-- An event that names itself as its parent has a stored one now. -/
lemma ne_of_countedIds_eq (h : Accepted sys sys' parentEventId) (hpos : 0 < sys.nextEventId)
    (hfresh : sys.nextEventId ∉ storedIds sys)
    (heq : countedIds sys parentEventId = cascadedIds sys') :
    parentEventId ≠ sys.nextEventId := by
  rintro rfl
  have hmem : sys.nextEventId ∈ cascadedIds sys' :=
    mem_cascadedIds.mpr ⟨_, by rw [h.parents, if_pos rfl], hpos, h.mem_storedIds_next⟩
  rw [← heq, countedIds, if_neg fun hparent => hfresh (isSome_parentOf.mp hparent).2] at hmem
  exact hfresh (Finset.mem_of_mem_filter _ hmem)

/-- So has an earlier event that names the new one. -/
lemma parent_ne_of_countedIds_eq (h : Accepted sys sys' parentEventId)
    (hpos : 0 < sys.nextEventId) (hfresh : sys.nextEventId ∉ storedIds sys)
    (heq : countedIds sys parentEventId = cascadedIds sys') {id : UInt64} {e : Event}
    (he : sys.events[id]? = some e) : e.parentEventId ≠ sys.nextEventId := by
  intro hname
  have hid : id ∈ storedIds sys := mem_storedIds.mpr (by rw [he]; rfl)
  have hne : id ≠ sys.nextEventId := by
    rintro rfl
    exact hfresh hid
  have hmem : id ∈ cascadedIds sys' := by
    refine mem_cascadedIds.mpr ⟨_, ?_, hpos, h.mem_storedIds_next⟩
    rw [h.parents, if_neg hne, he, Option.map_some, hname]
  have hmem' : id ∈ cascadedIds sys := by
    rw [← heq, countedIds] at hmem
    split_ifs at hmem
    · exact Finset.mem_of_mem_insert_of_ne hmem hne
    · exact hmem
  obtain ⟨p, hp, -, hstored⟩ := mem_cascadedIds.mp hmem'
  rw [he, Option.map_some, hname] at hp
  cases hp
  exact hfresh hstored

lemma cascadedIds_subset (h : Accepted sys sys' parentEventId)
    (hown : parentEventId ≠ sys.nextEventId)
    (hnamed : ∀ (id : UInt64) (e : Event), sys.events[id]? = some e →
      e.parentEventId ≠ sys.nextEventId) :
    cascadedIds sys' ⊆ countedIds sys parentEventId := by
  intro id hid
  obtain ⟨p, hp, hpos', hstored⟩ := mem_cascadedIds.mp hid
  rw [h.parents] at hp
  rw [h.storedIds_eq] at hstored
  split_ifs at hp with hid
  · obtain rfl := Option.some.inj hp
    have hparent := isSome_parentOf.mpr ⟨hpos', Finset.mem_of_mem_insert_of_ne hstored hown⟩
    rw [countedIds, if_pos hparent, hid]
    exact Finset.mem_insert_self _ _
  · have hne : p ≠ sys.nextEventId := by
      obtain ⟨e, he, rfl⟩ := Option.map_eq_some_iff.mp hp
      exact hnamed id e he
    have hmem : id ∈ cascadedIds sys :=
      mem_cascadedIds.mpr ⟨p, hp, hpos', Finset.mem_of_mem_insert_of_ne hstored hne⟩
    unfold countedIds
    split_ifs
    · exact Finset.mem_insert_of_mem hmem
    · exact hmem

/-- Besides these, only events that name the new one as their parent have a stored one now. -/
lemma countedIds_eq_iff (h : Accepted sys sys' parentEventId) (hpos : 0 < sys.nextEventId)
    (hfresh : sys.nextEventId ∉ storedIds sys) :
    countedIds sys parentEventId = cascadedIds sys' ↔ parentEventId ≠ sys.nextEventId ∧
      ∀ (id : UInt64) (e : Event), sys.events[id]? = some e →
        e.parentEventId ≠ sys.nextEventId :=
  ⟨fun heq => ⟨h.ne_of_countedIds_eq hpos hfresh heq,
      fun _ _ he => h.parent_ne_of_countedIds_eq hpos hfresh heq he⟩,
    fun ⟨hown, hnamed⟩ =>
      Finset.Subset.antisymm (h.countedIds_subset hfresh) (h.cascadedIds_subset hown hnamed)⟩

end Accepted

/-! ### Runs -/

/-- As after as many raises as there are events, all of them stored. -/
structure Counted (sys : EventSystem W) : Prop where
  numbered : Numbered sys.events.size sys
  room : sys.events.size + 1 ≤ 2 ^ 64
  right : CountsRight sys

namespace Counted

variable {sys : EventSystem W}

lemma empty : Counted ({} : EventSystem W) where
  numbered := numbered_empty
  room := by simp
  right := ⟨rfl, rfl⟩

lemma lt_of_ne_zero (h : Counted sys) (hnext : sys.nextEventId ≠ 0) :
    sys.events.size + 1 < 2 ^ 64 := by
  refine Nat.lt_of_le_of_ne h.room fun hfull => hnext ?_
  rw [h.numbered.next, hfull]
  rfl

lemma notMem_storedIds (h : Counted sys) (hlt : sys.events.size + 1 < 2 ^ 64) :
    sys.nextEventId ∉ storedIds sys := by
  intro hmem
  obtain ⟨e, he⟩ := Option.isSome_iff_exists.mp (Option.isSome_map ▸ mem_storedIds.mp hmem)
  exact h.numbered.ne_next hlt he rfl

/-- The counters behind an accepted raise, as long as the ids do not wrap. -/
lemma toNat_accepted (h : Counted sys) (hlt : sys.events.size + 1 < 2 ^ 64)
    {sys' : EventSystem W} {parentEventId : UInt64} (hacc : Accepted sys sys' parentEventId) :
    sys'.totalEvents.toNat = sys'.events.size ∧
      sys'.cascadedEvents.toNat = (countedIds sys parentEventId).card := by
  have hfresh := h.notMem_storedIds hlt
  have htotal : sys.totalEvents.toNat = sys.events.size := h.right.events
  have hcascaded : sys.cascadedEvents.toNat = (cascadedIds sys).card :=
    h.right.cascaded.trans (card_cascadedIds sys)
  have hle : (cascadedIds sys).card ≤ sys.events.size := by
    rw [← card_storedIds]
    exact Finset.card_filter_le _ _
  constructor
  · rw [hacc.total, ← card_storedIds, hacc.storedIds_eq, Finset.card_insert_of_notMem hfresh,
      card_storedIds, toNat_add_one (htotal ▸ hlt), htotal]
  · rw [hacc.cascaded, countedIds]
    split_ifs
    · have hnot : sys.nextEventId ∉ cascadedIds sys := fun hmem =>
        hfresh (Finset.mem_of_mem_filter _ hmem)
      rw [Finset.card_insert_of_notMem hnot, toNat_add_one, hcascaded]
      rw [hcascaded]
      exact Nat.lt_of_le_of_lt (Nat.succ_le_succ hle) hlt
    · rw [UInt64.add_zero, hcascaded]

/-- **One raise** is faithful when it keeps the counters. -/
lemma faithful_iff (h : Counted sys) (r : Raise) : Faithful sys r ↔ Keeps sys r := by
  rcases raiseEvent_accepted_or sys r with
    ⟨parent, hparent, hdepth, he⟩ | ⟨hdepth, sys', he, hacc⟩
  · refine iff_of_false (fun hf => ?_) fun hk => hk.notRejected parent hparent hdepth
    rw [Faithful, he] at hf
    exact add_one_ne _ (congrArg EventSystem.totalEvents (hf.1 rfl))
  · by_cases hnext : sys.nextEventId = 0
    · refine iff_of_false (fun hf => ?_) fun hk => hk.notWrapped hnext
      rw [Faithful, he] at hf
      have htotal := hacc.total
      rw [show sys' = sys from hf.1 hnext] at htotal
      exact add_one_ne _ htotal.symm
    · have hlt := h.lt_of_ne_zero hnext
      have hfresh := h.notMem_storedIds hlt
      have hpos : 0 < sys.nextEventId := UInt64.pos_iff_ne_zero.mpr hnext
      obtain ⟨htotal, hcascaded⟩ := h.toNat_accepted hlt hacc
      have hcounts : CountsRight sys' ↔ countedIds sys r.parentEventId = cascadedIds sys' := by
        constructor
        · intro hright
          refine Finset.eq_of_subset_of_card_le (hacc.countedIds_subset hfresh) ?_
          rw [← hcascaded, ← card_cascadedIds]
          exact hright.cascaded.ge
        · intro heq
          refine ⟨htotal, hcascaded.trans ?_⟩
          rw [heq, card_cascadedIds]
      rw [Faithful, he, and_iff_right fun hzero => absurd hzero hnext, hcounts,
        hacc.countedIds_eq_iff hpos hfresh]
      exact ⟨fun ⟨hown, hnamed⟩ => ⟨hnext, hdepth, hown, hnamed⟩,
        fun hk => ⟨hk.notOwn, hk.notNamed⟩⟩

lemma raiseEvent (h : Counted sys) {r : Raise} (hf : Faithful sys r) :
    Counted (sys.raiseEvent r).2 := by
  have hk := (h.faithful_iff r).mp hf
  have hlt := h.lt_of_ne_zero hk.notWrapped
  have hnumbered := h.numbered.raiseEvent hlt r
  rcases raiseEvent_accepted_or sys r with
    ⟨parent, hparent, hdepth, -⟩ | ⟨-, sys', he, hacc⟩
  · exact absurd hdepth (hk.notRejected parent hparent)
  · have hsize : sys'.events.size = sys.events.size + 1 := by
      rw [← card_storedIds, hacc.storedIds_eq,
        Finset.card_insert_of_notMem (h.notMem_storedIds hlt), card_storedIds]
    refine ⟨?_, ?_, hf.2⟩
    · rw [he] at hnumbered ⊢
      rwa [hsize]
    · rw [he, hsize]
      exact hlt

end Counted

def raise (sys : EventSystem W) (r : Raise) : EventSystem W := (sys.raiseEvent r).2

/-- **When raises are faithful**: when every raise keeps the counters. -/
theorem along_faithful_iff (raises : List Raise) :
    Along raise Faithful ({} : EventSystem W) raises ↔
      Along raise Keeps ({} : EventSystem W) raises :=
  along_congr (fun _ _ h hf => h.raiseEvent hf) (fun _ r h => h.faithful_iff r) Counted.empty raises

def below (parentEventId : UInt64) : Raise :=
  { type := .INSERT_EVENT, sourceRowId := 1, parentEventId := parentEventId, uninitialised := 0 }

/-- Events each below the one before it. -/
def cascade (n : ℕ) : List Raise := (List.range n).map fun i => below (UInt64.ofNat i)

/-- The raise at the cascade limit returns 0 and is counted. -/
theorem not_along_faithful_cascade :
    ¬ ∀ raises : List Raise, Along raise Faithful ({} : EventSystem Unit) raises := by
  intro h
  have hf := along_iff.mp (h (cascade 17)) (cascade 16) (below 16) [] rfl
  have hzero : ((run raise ({} : EventSystem Unit) (cascade 16)).raiseEvent (below 16)).1 = 0 := by
    decide
  have hsame := congrArg EventSystem.totalEvents (hf.1 hzero)
  revert hsame
  decide

end Dbx4.EventCounts
