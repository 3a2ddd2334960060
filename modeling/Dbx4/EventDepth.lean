import Dbx4.EventModel
import Dbx4.ParentLinks

/-!
The depths of cascading events.

A raise sets the depth of a new event only below a stored parent. Along a run of raises the
depths are right, and capped, exactly when every other event finds the depth 0 in its record
and no event names one as its parent that is raised with it or after it.
-/

namespace Dbx4.EventDepth

open Std Dbx4.Maps Dbx4.ParentLinks Dbx4.Runs Dbx4.EventModel Dbx4.EventModel.EventSystem

variable {W : Type}

/-- What the depths of the stored events are meant to be. -/
structure DepthsRight (sys : EventSystem W) : Prop where
  root : ∀ (id : UInt64) (e : Event), sys.events[id]? = some e →
    sys.parentOf e.parentEventId = none → e.depth = 0
  child : ∀ (id : UInt64) (e parent : Event), sys.events[id]? = some e →
    sys.parentOf e.parentEventId = some parent → e.depth.toNat = parent.depth.toNat + 1
  capped : ∀ (id : UInt64) (e : Event), sys.events[id]? = some e → e.depth ≤ maxEventDepth
  chain : ∀ es : List Event, (∀ e ∈ es, ∃ id : UInt64, sys.events[id]? = some e) →
    es.IsChain (fun e e' => sys.parentOf e.parentEventId = some e') → es.length ≤ 16

/-- An event that is stored under the new id at this depth is no parent of its own, and the
stored events that name it are one level below. -/
def Placed (sys : EventSystem W) (r : Raise) (depth : ℕ) : Prop :=
  0 < sys.nextEventId → r.parentEventId ≠ sys.nextEventId ∧
    ∀ (id : UInt64) (e : Event), id ≠ sys.nextEventId → sys.events[id]? = some e →
      e.parentEventId = sys.nextEventId → e.depth.toNat = depth + 1

/-- Without a stored parent the depth is 0 before it is set; a raise below the cap fits in. -/
def KeepsDepths (sys : EventSystem W) (r : Raise) : Prop :=
  match sys.parentOf r.parentEventId with
  | none => r.uninitialised = 0 ∧ Placed sys r 0
  | some parent => parent.depth < maxEventDepth → Placed sys r (parent.depth.toNat + 1)

/-! ### The stored events as nodes -/

def parentName (id : UInt64) : Option UInt64 := if 0 < id then some id else none

def node (e : Event) : Node UInt64 := ⟨e.depth.toNat, parentName e.parentEventId⟩

def nodes (events : ExtTreeMap UInt64 Event) (id : UInt64) : Option (Node UInt64) :=
  events[id]?.map node

lemma parentName_eq_some {id id' : UInt64} : parentName id = some id' ↔ 0 < id' ∧ id = id' := by
  unfold parentName
  split_ifs with h
  · rw [Option.some_inj]
    refine ⟨?_, And.right⟩
    rintro rfl
    exact ⟨h, rfl⟩
  · refine iff_of_false (by simp) ?_
    rintro ⟨h', rfl⟩
    exact h h'

lemma parentNode_nodes (sys : EventSystem W) (id : UInt64) :
    parentNode (nodes sys.events) (parentName id) = (sys.parentOf id).map node := by
  unfold parentNode parentName parentOf
  split_ifs
  · rfl
  · rfl

lemma depthBelow_nodes (sys : EventSystem W) (id : UInt64) :
    depthBelow (nodes sys.events) (parentName id) =
      ((sys.parentOf id).map fun parent => parent.depth.toNat + 1).getD 0 := by
  unfold depthBelow
  rw [parentNode_nodes]
  rcases sys.parentOf id with _ | parent
  · rfl
  · rfl

lemma DepthsRight.of_levelled {sys : EventSystem W} (h : Levelled (nodes sys.events) 15) :
    DepthsRight sys := by
  have hnode {id : UInt64} {e : Event} (he : sys.events[id]? = some e) :
      nodes sys.events id = some (node e) := congrArg (Option.map node) he
  have hdepth : ∀ {id : UInt64} {e : Event}, sys.events[id]? = some e → e.depth.toNat =
      ((sys.parentOf e.parentEventId).map fun parent => parent.depth.toNat + 1).getD 0 := by
    intro id e he
    rw [← depthBelow_nodes]
    exact (h id _ (hnode he)).1
  refine ⟨fun id e he hparent => ?_, fun id e parent he hparent => ?_, fun id e he => ?_,
    fun es hmem hchain => ?_⟩
  · have := hdepth he
    rw [hparent] at this
    exact UInt32.toNat_inj.mp this
  · have := hdepth he
    rwa [hparent] at this
  · exact UInt32.le_iff_toNat_le.mpr (h id _ (hnode he)).2
  · have hmem' : ∀ n ∈ es.map node, ∃ k, nodes sys.events k = some n := by
      intro n hn
      obtain ⟨e, he, rfl⟩ := List.mem_map.mp hn
      obtain ⟨id, hid⟩ := hmem e he
      exact ⟨id, hnode hid⟩
    have hlinks : (es.map node).IsChain fun a b =>
        parentNode (nodes sys.events) a.parent = some b := by
      refine (List.isChain_map node).mpr (hchain.imp fun e e' he => ?_)
      rw [node, parentNode_nodes, he]
      rfl
    have := chain_length_le h hmem' hlinks
    rwa [List.length_map] at this

lemma DepthsRight.levelled {sys : EventSystem W} (h : DepthsRight sys) :
    Levelled (nodes sys.events) 15 := by
  intro id n hn
  obtain ⟨e, he, rfl⟩ := Option.map_eq_some_iff.mp hn
  refine ⟨?_, UInt32.le_iff_toNat_le.mp (h.capped id e he)⟩
  rw [node, depthBelow_nodes]
  rcases hparent : sys.parentOf e.parentEventId with _ | parent
  · rw [h.root id e he hparent]
    rfl
  · exact h.child id e parent he hparent

lemma depthsRight_iff {sys : EventSystem W} : DepthsRight sys ↔ Levelled (nodes sys.events) 15 :=
  ⟨DepthsRight.levelled, DepthsRight.of_levelled⟩

/-! ### One raise -/

def raiseStep (sys : EventSystem W) (r : Raise) : EventSystem W := (sys.raiseEvent r).2

lemma nodes_insert (events : ExtTreeMap UInt64 Event) (id : UInt64) (e : Event) :
    nodes (events.insert id e) = Function.update (nodes events) id (some (node e)) := by
  funext id'
  rw [nodes, map_getElem?_insert, Function.update_apply]
  rfl

/-- A stored event that only gets more children is the same node. -/
lemma nodes_insert_children {events : ExtTreeMap UInt64 Event} {id : UInt64} {e : Event}
    (he : events[id]? = some e) (childEvents : List UInt64) :
    nodes (events.insert id { e with childEvents := childEvents }) = nodes events := by
  funext id'
  exact map_getElem?_children (fun _ _ => rfl) he childEvents id'

/-- What a raise makes of the nodes: a rejected one nothing, any other adds one. -/
lemma nodes_raiseStep (sys : EventSystem W) (r : Raise) :
    (∃ parent, sys.parentOf r.parentEventId = some parent ∧ maxEventDepth < parent.depth + 1 ∧
      nodes (raiseStep sys r).events = nodes sys.events) ∨
    ∃ depth, nodes (raiseStep sys r).events = Function.update (nodes sys.events) sys.nextEventId
        (some ⟨depth, parentName r.parentEventId⟩) ∧
      match sys.parentOf r.parentEventId with
      | some parent =>
        ¬ maxEventDepth < parent.depth + 1 ∧ depth = (parent.depth + 1).toNat
      | none => depth = r.uninitialised.toNat := by
  unfold raiseStep
  rcases sys.raiseEvent_cases r with ⟨parent, hparent, hdepth, he⟩ | ⟨parent, hparent, hdepth, he⟩ |
    ⟨hparent, he⟩
  · rw [he]
    exact Or.inl ⟨parent, hparent, hdepth, rfl⟩
  · refine Or.inr ⟨(parent.depth + 1).toNat, ?_, by rw [hparent]; exact ⟨hdepth, rfl⟩⟩
    rw [he]
    dsimp only
    rw [nodes_insert, nodes_insert_children (getElem?_of_parentOf hparent)]
    rfl
  · refine Or.inr ⟨r.uninitialised.toNat, ?_, by rw [hparent]⟩
    rw [he]
    exact nodes_insert _ _ _

lemma fitsIn_iff (sys : EventSystem W) (r : Raise) (depth : ℕ) :
    FitsIn (nodes sys.events) 15 sys.nextEventId ⟨depth, parentName r.parentEventId⟩ ↔
      depth = depthBelow (nodes sys.events) (parentName r.parentEventId) ∧ depth ≤ 15 ∧
        Placed sys r depth := by
  unfold FitsIn Placed
  simp only [ne_eq, parentName_eq_some]
  constructor
  · rintro ⟨hself, hdepth, hcap, hnamed⟩
    refine ⟨hdepth, hcap, fun hpos => ⟨fun he => hself ⟨hpos, he⟩, fun id e hid he hparent => ?_⟩⟩
    exact hnamed id (node e) hid (congrArg (Option.map node) he)
      (parentName_eq_some.mpr ⟨hpos, hparent⟩)
  · rintro ⟨hdepth, hcap, hplaced⟩
    refine ⟨fun hself => (hplaced hself.1).1 hself.2, hdepth, hcap, fun id n hid hn hparent => ?_⟩
    obtain ⟨e, he, rfl⟩ := Option.map_eq_some_iff.mp hn
    obtain ⟨hpos, hname⟩ := parentName_eq_some.mp hparent
    exact (hplaced hpos).2 id e hid he hname

/-- **One raise** keeps the depths right exactly when it meets the condition. -/
theorem depthsRight_step_iff {sys : EventSystem W} (h : DepthsRight sys) (r : Raise) :
    DepthsRight (raiseStep sys r) ↔ KeepsDepths sys r := by
  have hlevel := h.levelled
  rw [depthsRight_iff, KeepsDepths]
  have hmax : maxEventDepth.toNat = 15 := rfl
  rcases nodes_raiseStep sys r with ⟨parent, hparent, hdepth, hnodes⟩ | ⟨depth, hnodes, hdepth⟩
  · -- the cascade limit is reached
    rw [hnodes, hparent]
    refine iff_of_true hlevel fun hlt => ?_
    rw [UInt32.lt_iff_toNat_lt, UInt32.toNat_add] at hdepth
    rw [UInt32.lt_iff_toNat_lt] at hlt
    simp only [UInt32.toNat_one, hmax] at hdepth hlt
    omega
  · rw [hnodes, levelled_update_iff hlevel, fitsIn_iff, depthBelow_nodes]
    rcases hparent : sys.parentOf r.parentEventId with _ | parent <;> rw [hparent] at hdepth
    · subst hdepth
      constructor
      · rintro ⟨hzero, -, hplaced⟩
        have hzero : r.uninitialised = 0 := UInt32.toNat_inj.mp hzero
        rw [hzero] at hplaced
        exact ⟨hzero, hplaced⟩
      · rintro ⟨hzero, hplaced⟩
        rw [hzero]
        exact ⟨rfl, Nat.zero_le _, hplaced⟩
    · obtain ⟨hcap, rfl⟩ := hdepth
      have hle := h.capped _ _ (getElem?_of_parentOf hparent)
      rw [UInt32.le_iff_toNat_le, hmax] at hle
      have hnat : (parent.depth + 1).toNat = parent.depth.toNat + 1 := by
        rw [UInt32.toNat_add, UInt32.toNat_one]
        omega
      rw [UInt32.lt_iff_toNat_lt, hnat, hmax] at hcap
      have hlt : parent.depth < maxEventDepth := by
        rw [UInt32.lt_iff_toNat_lt, hmax]
        omega
      rw [hnat]
      exact ⟨fun hfits _ => hfits.2.2, fun hplaced => ⟨rfl, by omega, hplaced hlt⟩⟩

/-! ### Runs -/

/-- **When the depths are right after every raise of a run**: exactly when every event that is
stored without a stored parent finds 0 in its record, and none is stored under an id that
another event, or it itself, already names as its parent at another depth. -/
theorem always_depthsRight_iff (rs : List Raise) :
    Always raiseStep DepthsRight ({} : EventSystem W) rs ↔
      Along raiseStep KeepsDepths ({} : EventSystem W) rs := by
  have hempty : DepthsRight ({} : EventSystem W) :=
    DepthsRight.of_levelled fun id n hn => by simp [nodes] at hn
  have hstep (sys : EventSystem W) (r : Raise) (h : DepthsRight sys) :
      DepthsRight (raiseStep sys r) ↔ KeepsDepths sys r := depthsRight_step_iff h r
  exact always_iff_along hstep hempty

/-- An event without a parent that finds a depth beyond the cap in its record. -/
theorem not_always_depthsRight : ¬ Always raiseStep DepthsRight ({} : EventSystem Unit)
    [{ type := .INSERT_EVENT, sourceRowId := 1, uninitialised := 16 }] := by
  intro h
  have hright := h _ [] (List.append_nil _).symm
  cases hright.root 1 _ rfl rfl

end Dbx4.EventDepth
