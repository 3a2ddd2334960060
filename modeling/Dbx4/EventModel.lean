import Std.Data.ExtTreeMap
import Std.Data.ExtTreeSet
import Mathlib.Algebra.Group.Nat.Defs
import Dbx4.ForEach
import Dbx4.Loops
import Dbx4.Maps
import Dbx4.Runs

/-!
The event system of `advanced_features.cpp`.

Calls from outside are taken one after another and find the mutex free. A handler runs while
`process_events` holds the mutex. What handlers read and change outside of the event system
is a state of its own, of any type.
-/

namespace Dbx4.EventModel

open Std Dbx4.ForEach Dbx4.Loops Dbx4.Maps Dbx4.Runs

inductive EventType
  | INSERT_EVENT | UPDATE_EVENT | DELETE_EVENT | THRESHOLD_EVENT | SCHEDULED_EVENT | CUSTOM_EVENT
  deriving DecidableEq

structure Event where
  eventId : UInt64
  eventType : EventType
  sourceRowId : UInt64
  triggeringTxn : UInt64
  depth : UInt32
  parentEventId : UInt64
  childEvents : List UInt64
  processed : Bool
  deriving DecidableEq

/-! ### Handlers -/

inductive Operation
  | raiseEvent | registerHandler | processEvents | detectCycle | getEventCount | getCascadedCount
  deriving DecidableEq

/-- The operation acquires the mutex. -/
def Operation.locks : Operation → Bool
  | .raiseEvent | .registerHandler | .processEvents => true
  | .detectCycle | .getEventCount | .getCascadedCount => false

/-- What keeps a handler from returning. -/
inductive Interrupt
  /-- It locks the mutex, which its thread holds. -/
  | relock
  | exception
  deriving DecidableEq

/-- What a handler does when it is called: the operations of the event system it calls, and
whether it throws. -/
structure Reaction where
  calls : List Operation := []
  throws : Bool := false

def Reaction.interrupt (reaction : Reaction) : Option Interrupt :=
  if reaction.calls.any Operation.locks then some .relock
  else if reaction.throws then some .exception
  else none

variable {W : Type}

structure EventHandler (W : Type) where
  handlerId : ℕ
  eventType : EventType
  handlerFunc : Event → W → Reaction × W

/-! ### The event system -/

structure EventSystem (W : Type) where
  events : ExtTreeMap UInt64 Event := ∅
  eventQueue : List UInt64 := []
  handlers : ExtTreeMap ℕ (EventHandler W) := ∅
  nextEventId : UInt64 := 1
  totalEvents : UInt64 := 0
  cascadedEvents : UInt64 := 0

def maxEventDepth : UInt32 := 15

/-- The arguments of `raise_event`, and what the field `depth` of the new event holds as long
as nothing is stored in it. -/
structure Raise where
  type : EventType
  sourceRowId : UInt64
  parentEventId : UInt64 := 0
  uninitialised : UInt32

namespace EventSystem

/-- The new event below its parent; none where the cascade limit is reached. -/
def cascade (sys : EventSystem W) (event : Event) : Option (Event × EventSystem W) :=
  if 0 < event.parentEventId then
    match sys.events[event.parentEventId]? with
    | some parent =>
      let event := { event with depth := parent.depth + 1 }
      if maxEventDepth < event.depth then none
      else
        let parent := { parent with childEvents := parent.childEvents ++ [event.eventId] }
        some (event, { sys with
          events := sys.events.insert event.parentEventId parent
          cascadedEvents := sys.cascadedEvents + 1 })
    | none => some (event, sys)
  else some (event, sys)

def raiseEvent (sys : EventSystem W) (r : Raise) : UInt64 × EventSystem W :=
  let eventId := sys.nextEventId
  let sys := { sys with nextEventId := sys.nextEventId + 1, totalEvents := sys.totalEvents + 1 }
  let event : Event :=
    { eventId := eventId, eventType := r.type, sourceRowId := r.sourceRowId, triggeringTxn := 0,
      depth := r.uninitialised, parentEventId := r.parentEventId, childEvents := [],
      processed := false }
  match sys.cascade event with
  | none => (0, sys)
  | some (event, sys) =>
    (eventId, { sys with
      events := sys.events.insert eventId event
      eventQueue := sys.eventQueue ++ [eventId] })

/-- As many handlers as there are ids do not fit in memory: the id does not wrap. -/
def registerHandler (sys : EventSystem W) (type : EventType)
    (handler : Event → W → Reaction × W) : EventSystem W :=
  let handlerId := sys.handlers.size + 1
  let h : EventHandler W :=
    { handlerId := handlerId, eventType := type, handlerFunc := handler }
  { sys with handlers := sys.handlers.insert handlerId h }

end EventSystem

namespace EventSystem

/-- The stored event an event id given as a parent leads to; 0 is no parent. -/
def parentOf (sys : EventSystem W) (parentEventId : UInt64) : Option Event :=
  if 0 < parentEventId then sys.events[parentEventId]? else none

lemma getElem?_of_parentOf {sys : EventSystem W} {id : UInt64} {parent : Event}
    (h : sys.parentOf id = some parent) : sys.events[id]? = some parent := by
  unfold parentOf at h
  split_ifs at h
  exact h

/-- A raise, as far as every raise goes. -/
def counted (sys : EventSystem W) : EventSystem W :=
  { sys with nextEventId := sys.nextEventId + 1, totalEvents := sys.totalEvents + 1 }

def newEvent (sys : EventSystem W) (r : Raise) (depth : UInt32) : Event :=
  { eventId := sys.nextEventId, eventType := r.type, sourceRowId := r.sourceRowId,
    triggeringTxn := 0, depth := depth, parentEventId := r.parentEventId, childEvents := [],
    processed := false }

/-- A raise is rejected, or it stores an event below its parent, or one without a stored
parent. -/
lemma raiseEvent_cases (sys : EventSystem W) (r : Raise) :
    (∃ parent, sys.parentOf r.parentEventId = some parent ∧ maxEventDepth < parent.depth + 1 ∧
      sys.raiseEvent r = (0, sys.counted)) ∨
    (∃ parent, sys.parentOf r.parentEventId = some parent ∧ ¬ maxEventDepth < parent.depth + 1 ∧
      sys.raiseEvent r = (sys.nextEventId, { sys.counted with
        events := (sys.events.insert r.parentEventId
            { parent with childEvents := parent.childEvents ++ [sys.nextEventId] }).insert
          sys.nextEventId (sys.newEvent r (parent.depth + 1))
        eventQueue := sys.eventQueue ++ [sys.nextEventId]
        cascadedEvents := sys.cascadedEvents + 1 })) ∨
    (sys.parentOf r.parentEventId = none ∧
      sys.raiseEvent r = (sys.nextEventId, { sys.counted with
        events := sys.events.insert sys.nextEventId (sys.newEvent r r.uninitialised)
        eventQueue := sys.eventQueue ++ [sys.nextEventId] })) := by
  unfold parentOf raiseEvent cascade
  by_cases hpos : 0 < r.parentEventId
  · simp only [if_pos hpos]
    rcases hparent : sys.events[r.parentEventId]? with _ | parent
    · exact Or.inr (Or.inr ⟨rfl, rfl⟩)
    · by_cases hdepth : maxEventDepth < parent.depth + 1
      · exact Or.inl ⟨parent, rfl, hdepth, by simp only [if_pos hdepth]; rfl⟩
      · exact Or.inr (Or.inl ⟨parent, rfl, hdepth, by simp only [if_neg hdepth]; rfl⟩)
  · simp only [if_neg hpos]
    exact Or.inr (Or.inr ⟨trivial, rfl⟩)

/-! What a raise does to the stored events, as far as their children do not matter. -/

lemma map_getElem?_insert {β : Type} (f : Event → β) (events : ExtTreeMap UInt64 Event)
    (id id' : UInt64) (e : Event) :
    (events.insert id e)[id']?.map f = if id' = id then some (f e) else events[id']?.map f := by
  split_ifs with hid
  · subst hid
    rw [ExtTreeMap.getElem?_insert_self, Option.map_some]
  · rw [getElem?_insert_of_ne _ (Ne.symm hid)]

lemma map_getElem?_children {β : Type} {f : Event → β} {events : ExtTreeMap UInt64 Event}
    {id : UInt64} {parent : Event} (hf : ∀ (e : Event) cs, f { e with childEvents := cs } = f e)
    (h : events[id]? = some parent) (childEvents : List UInt64) (id' : UInt64) :
    (events.insert id { parent with childEvents := childEvents })[id']?.map f =
      events[id']?.map f := by
  rw [map_getElem?_insert]
  split_ifs with hid
  · rw [hf, hid, h, Option.map_some]
  · rfl

/-- A raise is rejected, or adds one event. -/
lemma raiseEvent_map {β : Type} {f : Event → β}
    (hf : ∀ (e : Event) cs, f { e with childEvents := cs } = f e) (sys : EventSystem W)
    (r : Raise) :
    sys.raiseEvent r = (0, sys.counted) ∨
      ∃ depth sys', sys.raiseEvent r = (sys.nextEventId, sys') ∧
        sys'.nextEventId = sys.nextEventId + 1 ∧ sys'.handlers = sys.handlers ∧
        sys'.eventQueue = sys.eventQueue ++ [sys.nextEventId] ∧
        ∀ id : UInt64, sys'.events[id]?.map f =
          if id = sys.nextEventId then some (f (sys.newEvent r depth))
          else sys.events[id]?.map f := by
  rcases sys.raiseEvent_cases r with ⟨parent, -, -, he⟩ | ⟨parent, hparent, -, he⟩ | ⟨-, he⟩
  · exact Or.inl he
  · refine Or.inr ⟨parent.depth + 1, _, he, rfl, rfl, rfl, fun id => ?_⟩
    dsimp only
    rw [map_getElem?_insert, map_getElem?_children hf (getElem?_of_parentOf hparent)]
  · exact Or.inr ⟨r.uninitialised, _, he, rfl, rfl, rfl, fun id => map_getElem?_insert f _ _ _ _⟩

end EventSystem

/-! ### Processing -/

/-- The state around the handlers, and the calls of handlers so far, with their events. -/
structure Calls (W : Type) where
  world : W
  dispatched : List (ℕ × Event) := []

def handlerTurn (event : Event) (s : Calls W) (entry : ℕ × EventHandler W)
    (_ : List (ℕ × EventHandler W)) : Option Interrupt × Calls W :=
  let (handlerId, handler) := entry
  if handler.eventType = event.eventType then
    let (reaction, world) := handler.handlerFunc event s.world
    (reaction.interrupt, { world := world, dispatched := s.dispatched ++ [(handlerId, event)] })
  else (none, s)

/-- One turn of the loop over the queue, on the stored events. -/
def eventTurn (handlers : ExtTreeMap ℕ (EventHandler W))
    (s : ExtTreeMap UInt64 Event × Calls W) (eventId : UInt64) (_ : List UInt64) :
    Option Interrupt × (ExtTreeMap UInt64 Event × Calls W) :=
  let (events, calls) := s
  match events[eventId]? with
  | none => (none, s)
  | some event =>
    let left := forEach (handlerTurn event) calls handlers.toList
    match left.thrown with
    | some interrupt => (some interrupt, (events, left.state))
    | none => (none, (events.insert eventId { event with processed := true }, left.state))

/-- The event system that has processed its queue up to where a handler was interrupted, and
the calls of handlers. -/
def EventSystem.processEvents (sys : EventSystem W) (world : W) :
    Option Interrupt × EventSystem W × Calls W :=
  let left := forEach (eventTurn sys.handlers) (sys.events, { world := world }) sys.eventQueue
  (left.thrown, { sys with events := left.state.1, eventQueue := left.unvisited }, left.state.2)

/-- A pass, interrupted or not, changes of the stored events only whether they are processed. -/
lemma processEvents_map {β : Type} {f : Event → β}
    (hf : ∀ (e : Event) b, f { e with processed := b } = f e) (sys : EventSystem W) (world : W)
    (id : UInt64) :
    (sys.processEvents world).2.1.events[id]?.map f = sys.events[id]?.map f := by
  unfold EventSystem.processEvents
  dsimp only
  refine forEach_inv
    (P := fun (s : ExtTreeMap UInt64 Event × Calls W) _ => s.1[id]?.map f = sys.events[id]?.map f)
    (fun s eventId rest hs => ?_) ?_
  · obtain ⟨events, calls⟩ := s
    rw [← hs]
    dsimp only [eventTurn]
    rcases hevent : events[eventId]? with _ | event
    · rfl
    · dsimp only
      split
      · rfl
      · dsimp only
        rw [EventSystem.map_getElem?_insert]
        split_ifs with hid
        · rw [hid, hevent, Option.map_some, hf]
        · rfl
  · rfl

/-! ### Cycle detection -/

/-- The loop over the children, with the search to make from each. -/
def anyChild (search : UInt64 → ExtTreeSet UInt64 → Outcome Empty (Bool × ExtTreeSet UInt64)) :
    List UInt64 → ExtTreeSet UInt64 → Outcome Empty (Bool × ExtTreeSet UInt64)
  | [], visited => .done (false, visited)
  | childId :: childIds, visited =>
    (search childId visited).bind fun (found, visited) =>
      if found then .done (true, visited) else anyChild search childIds visited

/-- The search for a cycle, at most `fuel` calls deep. -/
def EventSystem.detectCycle (sys : EventSystem W) :
    ℕ → UInt64 → ExtTreeSet UInt64 → Outcome Empty (Bool × ExtTreeSet UInt64)
  | 0, _, _ => .pending
  | fuel + 1, eventId, visited =>
    if eventId ∈ visited then .done (true, visited)
    else
      let childIds :=
        match sys.events[eventId]? with
        | some event => event.childEvents
        | none => []
      (anyChild (sys.detectCycle fuel) childIds (visited.insert eventId)).bind
        fun (found, visited) =>
          if found then .done (true, visited) else .done (false, visited.erase eventId)

/-! ### Runs -/

structure State (W : Type) where
  system : EventSystem W := {}
  world : W

inductive Call (W : Type)
  | raise (r : Raise)
  | register (type : EventType) (handler : Event → W → Reaction × W)
  | process

inductive Answer
  | raised (eventId : UInt64)
  | registered
  | processed (dispatched : List (ℕ × Event))
  | thrown (dispatched : List (ℕ × Event))
  deriving DecidableEq

/-- One call from outside. Nothing is known of what follows a mutex locked twice. -/
def step (s : State W) : Call W → Except Interrupt (Answer × State W)
  | .raise r =>
    let (eventId, system) := s.system.raiseEvent r
    .ok (.raised eventId, { s with system := system })
  | .register type handler =>
    .ok (.registered, { s with system := s.system.registerHandler type handler })
  | .process =>
    let (interrupt, system, calls) := s.system.processEvents s.world
    match interrupt with
    | some .relock => .error .relock
    | some .exception => .ok (.thrown calls.dispatched, ⟨system, calls.world⟩)
    | none => .ok (.processed calls.dispatched, ⟨system, calls.world⟩)

/-! ### Event ids -/

def isRaise : Call W → Bool
  | .raise _ => true
  | _ => false

def raises (calls : List (Call W)) : ℕ := calls.countP isRaise

lemma raises_concat (calls : List (Call W)) (call : Call W) :
    raises (calls ++ [call]) = raises calls + if isRaise call then 1 else 0 := by
  simp [raises, List.countP_append, List.countP_singleton]

/-- As after `n` raises. -/
structure Numbered (n : ℕ) (sys : EventSystem W) : Prop where
  next : sys.nextEventId = UInt64.ofNat (n + 1)
  stored : ∀ (id : UInt64) (e : Event), sys.events[id]? = some e → id.toNat ≤ n

lemma Numbered.toNat_next {n : ℕ} {sys : EventSystem W} (h : Numbered n sys)
    (hn : n + 1 < 2 ^ 64) : sys.nextEventId.toNat = n + 1 := by
  rw [h.next, UInt64.toNat_ofNat_of_lt' hn]

/-- The next id is not taken yet. -/
lemma Numbered.ne_next {n : ℕ} {sys : EventSystem W} (h : Numbered n sys) (hn : n + 1 < 2 ^ 64)
    {id : UInt64} {e : Event} (he : sys.events[id]? = some e) : id ≠ sys.nextEventId := by
  intro hid
  have hle := h.stored id e he
  rw [hid, h.toNat_next hn] at hle
  omega

lemma numbered_empty : Numbered 0 ({} : EventSystem W) :=
  ⟨rfl, fun id e he => by simp at he⟩

lemma Numbered.raiseEvent {n : ℕ} {sys : EventSystem W} (h : Numbered n sys)
    (hn : n + 1 < 2 ^ 64) (r : Raise) : Numbered (n + 1) (sys.raiseEvent r).2 := by
  have hnext : sys.nextEventId + 1 = UInt64.ofNat (n + 1 + 1) := by
    rw [h.next, UInt64.ofNat_add (n + 1) 1]
    rfl
  rcases EventSystem.raiseEvent_map (f := fun _ => ()) (fun _ _ => rfl) sys r with
    he | ⟨depth, sys', he, hnext', -, -, hevents⟩
  · rw [he]
    exact ⟨hnext, fun id e hid => (h.stored id e hid).trans (Nat.le_succ n)⟩
  · rw [he]
    refine ⟨hnext'.trans hnext, fun id e hid => ?_⟩
    have hmap := hevents id
    rw [hid] at hmap
    split_ifs at hmap with heq
    · rw [heq, h.toNat_next hn]
    · obtain ⟨e', he', -⟩ := Option.map_eq_some_iff.mp hmap.symm
      exact (h.stored id e' he').trans (Nat.le_succ n)

lemma Numbered.processEvents {n : ℕ} {sys : EventSystem W} (h : Numbered n sys) (world : W) :
    Numbered n (sys.processEvents world).2.1 := by
  refine ⟨h.next, fun id e hid => ?_⟩
  have hmap := processEvents_map (f := fun _ => ()) (fun _ _ => rfl) sys world id
  rw [hid] at hmap
  obtain ⟨e', he', -⟩ := Option.map_eq_some_iff.mp hmap.symm
  exact h.stored id e' he'

end Dbx4.EventModel
