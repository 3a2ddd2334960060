import Dbx4.EventModel

/-!
What `process_events` passes to the handlers.

A pass over the queue that no handler interrupts calls, event by event, the handlers of the
type of the event in the order of their registration.
-/

namespace Dbx4.EventDispatch

open Std Dbx4.ForEach Dbx4.Maps Dbx4.Runs Dbx4.EventModel Dbx4.EventModel.EventSystem

variable {W : Type}

/-! ### One pass -/

/-- A handler under its id, and the event it is called with. -/
abbrev Delivery (W : Type) := (ℕ × EventHandler W) × Event

def react (d : Delivery W) (w : W) : Reaction × W := d.1.2.handlerFunc d.2 w

/-- The handlers called with an event. -/
def deliveriesOf (entries : List (ℕ × EventHandler W)) (event : Event) : List (Delivery W) :=
  (entries.filter fun entry => entry.2.eventType = event.eventType).map fun entry =>
    (entry, event)

/-- The calls of a pass over the queue that is not interrupted. -/
def due (entries : List (ℕ × EventHandler W)) :
    ExtTreeMap UInt64 Event → List UInt64 → List (Delivery W)
  | _, [] => []
  | events, eventId :: ids =>
    match events[eventId]? with
    | none => due entries events ids
    | some event => deliveriesOf entries event ++
        due entries (events.insert eventId { event with processed := true }) ids

/-- No call is interrupted. -/
def Undisturbed : List (Delivery W) → W → Prop
  | [], _ => True
  | d :: ds, w => (react d w).1.interrupt = none ∧ Undisturbed ds (react d w).2

def worldAfter (ds : List (Delivery W)) (w : W) : W := ds.foldl (fun w d => (react d w).2) w

def logged (d : Delivery W) : ℕ × Event := (d.1.1, d.2)

/-- The stored events behind a pass. -/
def markProcessed (events : ExtTreeMap UInt64 Event) (ids : List UInt64) :
    ExtTreeMap UInt64 Event :=
  ids.foldl (fun events id =>
    match events[id]? with
    | none => events
    | some event => events.insert id { event with processed := true }) events

lemma undisturbed_append {ds ds' : List (Delivery W)} {w : W} :
    Undisturbed (ds ++ ds') w ↔ Undisturbed ds w ∧ Undisturbed ds' (worldAfter ds w) := by
  induction ds generalizing w with
  | nil => simp [Undisturbed, worldAfter]
  | cons d ds ih => simp [Undisturbed, worldAfter, ih, and_assoc]

lemma deliveriesOf_cons_of_eq {entry : ℕ × EventHandler W} {event : Event}
    (h : entry.2.eventType = event.eventType) (entries : List (ℕ × EventHandler W)) :
    deliveriesOf (entry :: entries) event = (entry, event) :: deliveriesOf entries event := by
  simp [deliveriesOf, h]

lemma deliveriesOf_cons_of_ne {entry : ℕ × EventHandler W} {event : Event}
    (h : entry.2.eventType ≠ event.eventType) (entries : List (ℕ × EventHandler W)) :
    deliveriesOf (entry :: entries) event = deliveriesOf entries event := by
  simp [deliveriesOf, h]

/-- The loop over the handlers: interrupted, or every handler of the type has been called. -/
lemma forEach_handlerTurn (event : Event) (s : Calls W) (entries : List (ℕ × EventHandler W)) :
    let left := forEach (handlerTurn event) s entries
    let ds := deliveriesOf entries event
    (¬ Undisturbed ds s.world ∧ left.thrown.isSome) ∨
      (Undisturbed ds s.world ∧ left.thrown = none ∧
        left.state = ⟨worldAfter ds s.world, s.dispatched ++ ds.map logged⟩) := by
  induction entries generalizing s with
  | nil => simp [forEach, deliveriesOf, Undisturbed, worldAfter]
  | cons entry entries ih =>
    by_cases htype : entry.2.eventType = event.eventType
    · rw [deliveriesOf_cons_of_eq htype]
      rcases hint : (entry.2.handlerFunc event s.world).1.interrupt with _ | interrupt
      · have hturn : forEach (handlerTurn event) s (entry :: entries) =
            forEach (handlerTurn event) ⟨(entry.2.handlerFunc event s.world).2,
              s.dispatched ++ [(entry.1, event)]⟩ entries := by
          simp [forEach, handlerTurn, htype, hint]
        dsimp only
        rw [hturn]
        rcases ih ⟨(entry.2.handlerFunc event s.world).2, s.dispatched ++ [(entry.1, event)]⟩ with
          ⟨hdisturbed, hthrown⟩ | ⟨hquiet, hthrown, hstate⟩
        · exact Or.inl ⟨fun h => hdisturbed h.2, hthrown⟩
        · refine Or.inr ⟨⟨hint, hquiet⟩, hthrown, ?_⟩
          rw [hstate]
          simp [worldAfter, logged, react]
      · refine Or.inl ⟨fun h => ?_, ?_⟩
        · have := hint.symm.trans h.1
          cases this
        · simp [forEach, handlerTurn, htype, hint]
    · rw [deliveriesOf_cons_of_ne htype]
      have hturn : forEach (handlerTurn event) s (entry :: entries) =
          forEach (handlerTurn event) s entries := by
        simp [forEach, handlerTurn, htype]
      dsimp only
      rw [hturn]
      exact ih s

/-- The loop over the queue: interrupted, or every call has been made. -/
lemma forEach_eventTurn (handlers : ExtTreeMap ℕ (EventHandler W))
    (events : ExtTreeMap UInt64 Event) (s : Calls W) (ids : List UInt64) :
    let left := forEach (eventTurn handlers) (events, s) ids
    let ds := due handlers.toList events ids
    (¬ Undisturbed ds s.world ∧ left.thrown.isSome) ∨
      (Undisturbed ds s.world ∧ left = ⟨none, (markProcessed events ids,
        ⟨worldAfter ds s.world, s.dispatched ++ ds.map logged⟩), []⟩) := by
  induction ids generalizing events s with
  | nil => simp [forEach, due, Undisturbed, worldAfter, markProcessed]
  | cons id ids ih =>
    dsimp only
    rcases hevent : events[id]? with _ | event
    · have hturn : forEach (eventTurn handlers) (events, s) (id :: ids) =
          forEach (eventTurn handlers) (events, s) ids := by
        simp [forEach, eventTurn, hevent]
      have hmark : markProcessed events (id :: ids) = markProcessed events ids := by
        simp [markProcessed, hevent]
      rw [hturn, hmark, due, hevent]
      exact ih events s
    · have hmark : markProcessed events (id :: ids) =
          markProcessed (events.insert id { event with processed := true }) ids := by
        simp [markProcessed, hevent]
      rw [hmark, due, hevent]
      dsimp only
      rw [undisturbed_append]
      rcases forEach_handlerTurn event s handlers.toList with
        ⟨hdisturbed, hthrown⟩ | ⟨hquiet, hthrown, hstate⟩
      · refine Or.inl ⟨fun h => hdisturbed h.1, ?_⟩
        obtain ⟨interrupt, hinterrupt⟩ := Option.isSome_iff_exists.mp hthrown
        simp [forEach, eventTurn, hevent, hinterrupt]
      · have hturn : forEach (eventTurn handlers) (events, s) (id :: ids) =
            forEach (eventTurn handlers) (events.insert id { event with processed := true },
              ⟨worldAfter (deliveriesOf handlers.toList event) s.world,
                s.dispatched ++ (deliveriesOf handlers.toList event).map logged⟩) ids := by
          simp [forEach, eventTurn, hevent, hthrown, hstate]
        rw [hturn]
        rcases ih (events.insert id { event with processed := true })
            ⟨worldAfter (deliveriesOf handlers.toList event) s.world,
              s.dispatched ++ (deliveriesOf handlers.toList event).map logged⟩ with
          ⟨hdisturbed, hthrown⟩ | ⟨hrest, hleft⟩
        · exact Or.inl ⟨fun h => hdisturbed h.2, hthrown⟩
        · refine Or.inr ⟨⟨hquiet, hrest⟩, ?_⟩
          rw [hleft]
          simp [worldAfter]

/-- The calls that a pass of the event system makes when no handler interrupts it. -/
def dueCalls (sys : EventSystem W) : List (Delivery W) :=
  due sys.handlers.toList sys.events sys.eventQueue

lemma processEvents_cases (sys : EventSystem W) (w : W) :
    (¬ Undisturbed (dueCalls sys) w ∧ (sys.processEvents w).1.isSome) ∨
      (Undisturbed (dueCalls sys) w ∧ sys.processEvents w =
        (none, { sys with
          events := markProcessed sys.events sys.eventQueue, eventQueue := [] },
        ⟨worldAfter (dueCalls sys) w, (dueCalls sys).map logged⟩)) := by
  rcases forEach_eventTurn sys.handlers sys.events { world := w } sys.eventQueue with
    ⟨hdisturbed, hthrown⟩ | ⟨hquiet, hleft⟩
  · exact Or.inl ⟨hdisturbed, hthrown⟩
  · refine Or.inr ⟨hquiet, ?_⟩
    unfold processEvents
    rw [hleft]
    rfl

lemma getElem?_markProcessed (events : ExtTreeMap UInt64 Event) (ids : List UInt64)
    (id : UInt64) :
    (markProcessed events ids)[id]? = events[id]?.map fun event =>
      if id ∈ ids then { event with processed := true } else event := by
  induction ids generalizing events with
  | nil => simp [markProcessed]
  | cons id' ids ih =>
    rcases hevent : events[id']? with _ | event
    · have hmark : markProcessed events (id' :: ids) = markProcessed events ids := by
        simp [markProcessed, hevent]
      rw [hmark, ih]
      by_cases hid : id = id'
      · rw [hid, hevent]
        rfl
      · simp [hid]
    · have hmark : markProcessed events (id' :: ids) =
          markProcessed (events.insert id' { event with processed := true }) ids := by
        simp [markProcessed, hevent]
      rw [hmark, ih]
      by_cases hid : id = id'
      · rw [hid, hevent, ExtTreeMap.getElem?_insert_self]
        simp
      · rw [getElem?_insert_of_ne _ (Ne.symm hid)]
        simp [hid]

/-! ### When a pass processes everything -/

/-- The call locks the mutex once and returns with every stored event processed. -/
def ProcessesAll (sys : EventSystem W) (w : W) : Prop :=
  (sys.processEvents w).1 = none ∧ ∀ (id : UInt64) (e : Event),
    (sys.processEvents w).2.1.events[id]? = some e → e.processed = true

/-- **When `process_events` returns with every event processed**: exactly when no handler it
calls interrupts it, by locking the mutex once more or by throwing, and no event that is still
to be processed is missing in the queue. -/
theorem processesAll_iff (sys : EventSystem W) (w : W) :
    ProcessesAll sys w ↔ Undisturbed (dueCalls sys) w ∧ ∀ (id : UInt64) (e : Event),
      sys.events[id]? = some e → e.processed = false → id ∈ sys.eventQueue := by
  unfold ProcessesAll
  rcases processEvents_cases sys w with ⟨hdisturbed, hthrown⟩ | ⟨hquiet, hpass⟩
  · refine iff_of_false (fun h => ?_) fun h => hdisturbed h.1
    rw [h.1] at hthrown
    cases hthrown
  · rw [hpass]
    refine ⟨fun h => ⟨hquiet, fun id e he hunprocessed => ?_⟩, fun h => ⟨rfl, fun id e he => ?_⟩⟩
    · by_contra hid
      have hsame : (markProcessed sys.events sys.eventQueue)[id]? = some e := by
        rw [getElem?_markProcessed, he, Option.map_some, if_neg hid]
      rw [h.2 id e hsame] at hunprocessed
      cases hunprocessed
    · dsimp only at he
      rw [getElem?_markProcessed] at he
      obtain ⟨e', he', rfl⟩ := Option.map_eq_some_iff.mp he
      split_ifs with hid
      · rfl
      · by_contra hunprocessed
        exact hid (h.2 id e' he' (by simpa using hunprocessed))

/-- An event system with one event in the queue, and a handler that raises another. -/
def cascading : EventSystem Unit :=
  ((({} : EventSystem Unit).registerHandler .INSERT_EVENT
    fun _ _ => ({ calls := [.raiseEvent] }, ())).raiseEvent
      { type := .INSERT_EVENT, sourceRowId := 1, uninitialised := 0 }).2

theorem not_processesAll : ¬ ProcessesAll cascading () := by
  intro h
  have hreturns := h.1
  revert hreturns
  decide

end Dbx4.EventDispatch
