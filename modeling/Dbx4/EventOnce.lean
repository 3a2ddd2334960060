import Dbx4.EventDispatch

/-!
Every accepted event is passed once to every handler of its type.

What a pass has to call is read off the history of the calls from outside: the raises that
were answered with an id since the pass before, and the handlers registered so far.
-/

namespace Dbx4.EventOnce

open Std Dbx4.Maps Dbx4.Runs Dbx4.EventModel Dbx4.EventModel.EventSystem Dbx4.EventDispatch

variable {W : Type}

/-! ### What a history says -/

abbrev History (W : Type) := List (Call W × Answer)

/-- What a raise says of its event, under the id it was given. -/
structure Notice where
  eventId : UInt64
  type : EventType
  sourceRowId : UInt64
  parentEventId : UInt64
  deriving DecidableEq

def noticeOf (eventId : UInt64) (r : Raise) : Notice :=
  ⟨eventId, r.type, r.sourceRowId, r.parentEventId⟩

def notice (e : Event) : Notice := ⟨e.eventId, e.eventType, e.sourceRowId, e.parentEventId⟩

/-- A raise that was not rejected. -/
def acceptance : Call W × Answer → Option Notice
  | (.raise r, .raised id) => if id = 0 then none else some (noticeOf id r)
  | _ => none

def accepted (h : History W) : List Notice := h.filterMap acceptance

def waitingTurn (ws : List Notice) (entry : Call W × Answer) : List Notice :=
  match entry.1 with
  | .process => []
  | _ => ws ++ (acceptance entry).toList

/-- The accepted events since the last pass, in the order they were raised. -/
def waiting (h : History W) : List Notice := h.foldl waitingTurn []

def registeredTurn (rs : List (ℕ × EventType)) (entry : Call W × Answer) :
    List (ℕ × EventType) :=
  match entry.1 with
  | .register type _ => rs ++ [(rs.length + 1, type)]
  | _ => rs

/-- The handlers in the order of their registration, numbered from one on. -/
def registered (h : History W) : List (ℕ × EventType) := h.foldl registeredTurn []

/-- Each event to each handler of its type. -/
def deliveries (events : List Notice) (handlers : List (ℕ × EventType)) : List (ℕ × Notice) :=
  events.flatMap fun n => (handlers.filter fun h => h.2 = n.type).map fun h => (h.1, n)

def seen (call : ℕ × Event) : ℕ × Notice := (call.1, notice call.2)

/-- Every pass returns and has passed what was waiting to the handlers there were. -/
def PassedOn (h : History W) : Prop :=
  ∀ pre answer, pre ++ [(.process, answer)] <+: h → ∃ dispatched,
    answer = .processed dispatched ∧
      dispatched.map seen = deliveries (waiting pre) (registered pre)

/-- Accepted events have ids of their own, and every pass calls, event by event in the order
they were raised, the handlers registered by then; behind it the queue is empty and every
stored event is processed. -/
def ExactlyOnce (w : W) (calls : List (Call W)) : Prop :=
  ∃ h s, history step ⟨{}, w⟩ calls = .ok (h, s) ∧ PassedOn h ∧
    ((accepted h).map Notice.eventId).Nodup ∧
    ∀ pre, calls = pre ++ [.process] → s.system.eventQueue = [] ∧
      ∀ (id : UInt64) (e : Event), s.system.events[id]? = some e → e.processed = true

/-! ### Which runs -/

/-- The handler calls nothing that locks the mutex, and does not throw. -/
def Quiet (handler : Event → W → Reaction × W) : Prop :=
  ∀ e w, (handler e w).1.interrupt = none

def QuietHandlers (calls : List (Call W)) : Prop :=
  ∀ type handler, .register type handler ∈ calls → Quiet handler

/-! ### A pass over quiet handlers -/

def AllQuiet (sys : EventSystem W) : Prop :=
  ∀ entry ∈ sys.handlers.toList, Quiet entry.2.handlerFunc

lemma mem_due {entries : List (ℕ × EventHandler W)} {events : ExtTreeMap UInt64 Event}
    {ids : List UInt64} {d : Delivery W} (h : d ∈ due entries events ids) : d.1 ∈ entries := by
  induction ids generalizing events with
  | nil => cases h
  | cons id ids ih =>
    rw [due] at h
    split at h
    · exact ih h
    · rcases List.mem_append.mp h with h | h
      · obtain ⟨entry, hentry, rfl⟩ := List.mem_map.mp h
        exact List.mem_of_mem_filter hentry
      · exact ih h

lemma undisturbed_of_quiet {ds : List (Delivery W)}
    (h : ∀ d ∈ ds, Quiet d.1.2.handlerFunc) (w : W) : Undisturbed ds w := by
  induction ds generalizing w with
  | nil => trivial
  | cons d ds ih =>
    exact ⟨h d List.mem_cons_self d.2 w, ih (fun d hd => h d (List.mem_cons_of_mem _ hd)) _⟩

lemma AllQuiet.processEvents {sys : EventSystem W} (h : AllQuiet sys) (w : W) :
    sys.processEvents w = (none, { sys with
        events := markProcessed sys.events sys.eventQueue, eventQueue := [] },
      ⟨worldAfter (dueCalls sys) w, (dueCalls sys).map logged⟩) := by
  rcases processEvents_cases sys w with ⟨hdisturbed, -⟩ | ⟨-, hpass⟩
  · exact absurd (undisturbed_of_quiet (fun d hd => h d.1 (mem_due hd)) w) hdisturbed
  · exact hpass

lemma seen_deliveriesOf {entries : List (ℕ × EventHandler W)} {handlers : List (ℕ × EventType)}
    (h : entries.map (fun entry => (entry.1, entry.2.eventType)) = handlers) (e : Event) :
    ((deliveriesOf entries e).map logged).map seen = deliveries [notice e] handlers := by
  subst h
  simp only [deliveriesOf, deliveries, List.flatMap_singleton, List.filter_map, List.map_map]
  rfl

/-- A pass calls the handlers there are with the events of the queue. -/
lemma seen_due {entries : List (ℕ × EventHandler W)} {handlers : List (ℕ × EventType)}
    (h : entries.map (fun entry => (entry.1, entry.2.eventType)) = handlers)
    {events : ExtTreeMap UInt64 Event} {ids : List UInt64} {ns : List Notice}
    (hids : ids.map (fun id => events[id]?.map notice) = ns.map some) :
    ((due entries events ids).map logged).map seen = deliveries ns handlers := by
  induction ids generalizing events ns with
  | nil =>
    obtain rfl : ns = [] := by simpa using hids.symm
    rfl
  | cons id ids ih =>
    obtain _ | ⟨n, ns⟩ := ns
    · cases hids
    obtain ⟨hn, hrest⟩ := List.cons.inj hids
    obtain ⟨e, he, rfl⟩ := Option.map_eq_some_iff.mp hn
    have hsame (id' : UInt64) :
        (events.insert id { e with processed := true })[id']?.map notice =
          events[id']?.map notice := by
      rw [map_getElem?_insert]
      split_ifs with hid
      · rw [hid, he]
        rfl
      · rfl
    rw [due, he]
    dsimp only
    rw [List.map_append, List.map_append, seen_deliveriesOf h,
      ih (by rw [← hrest]; exact List.map_congr_left fun id' _ => hsame id')]
    simp [deliveries]

/-! ### What holds behind a history -/

/-- What the code looks at of a stored event. -/
def view (e : Event) : Notice × Bool := (notice e, e.processed)

structure Inv (h : History W) (s : State W) : Prop where
  numbered : Numbered (raises (h.map Prod.fst)) s.system
  accepted_le : ∀ n ∈ accepted h, n.eventId.toNat ≤ raises (h.map Prod.fst)
  nodup : ((accepted h).map Notice.eventId).Nodup
  queue : s.system.eventQueue.map (fun id => s.system.events[id]?.map notice) =
    (waiting h).map some
  pending : ∀ (id : UInt64) (e : Event), s.system.events[id]? = some e →
    e.processed = false → id ∈ s.system.eventQueue
  handlers : s.system.handlers.toList.map (fun entry => (entry.1, entry.2.eventType)) =
    registered h
  handlerIds : ∀ id ∈ s.system.handlers, id ≤ s.system.handlers.size
  quiet : AllQuiet s.system
  passed : PassedOn h

lemma accepted_concat (h : History W) (entry : Call W × Answer) :
    accepted (h ++ [entry]) = accepted h ++ (acceptance entry).toList := by
  unfold accepted
  rw [List.filterMap_append]
  rcases hentry : acceptance entry with _ | n
  · simp [hentry]
  · simp [hentry]

lemma waiting_concat (h : History W) (entry : Call W × Answer) :
    waiting (h ++ [entry]) = waitingTurn (waiting h) entry := by
  simp [waiting]

lemma accepted_concat_of_none (h : History W) {entry : Call W × Answer}
    (hentry : acceptance entry = none) : accepted (h ++ [entry]) = accepted h := by
  rw [accepted_concat, hentry, Option.toList_none, List.append_nil]

lemma accepted_concat_of_some (h : History W) {entry : Call W × Answer} {n : Notice}
    (hentry : acceptance entry = some n) : accepted (h ++ [entry]) = accepted h ++ [n] := by
  rw [accepted_concat, hentry, Option.toList_some]

lemma registered_concat (h : History W) (entry : Call W × Answer) :
    registered (h ++ [entry]) = registeredTurn (registered h) entry := by
  simp [registered]

lemma raises_map_concat (h : History W) (entry : Call W × Answer) :
    raises ((h ++ [entry]).map Prod.fst) =
      raises (h.map Prod.fst) + if isRaise entry.1 then 1 else 0 := by
  rw [List.map_append, List.map_singleton, raises_concat]

/-- Nothing but a pass adds to what the passes have to say. -/
lemma PassedOn.concat {h : History W} (hpassed : PassedOn h) {entry : Call W × Answer}
    (hentry : ∀ answer, entry = (.process, answer) → ∃ dispatched,
      answer = .processed dispatched ∧
        dispatched.map seen = deliveries (waiting h) (registered h)) :
    PassedOn (h ++ [entry]) := by
  intro pre answer hpre
  rcases List.prefix_concat_iff.mp hpre with heq | hpre
  · obtain ⟨rfl, hlast⟩ := List.append_inj' heq rfl
    exact hentry answer (List.cons.inj hlast).1.symm
  · exact hpassed pre answer hpre

/-- What is in the queue is stored. -/
lemma Inv.stored_of_mem {h : History W} {s : State W} (hinv : Inv h s) {id : UInt64}
    (hid : id ∈ s.system.eventQueue) : ∃ e, s.system.events[id]? = some e := by
  have hmem := List.mem_map_of_mem (f := fun id => s.system.events[id]?.map notice) hid
  rw [hinv.queue] at hmem
  obtain ⟨n, -, hn⟩ := List.mem_map.mp hmem
  obtain ⟨e, he, -⟩ := Option.map_eq_some_iff.mp hn.symm
  exact ⟨e, he⟩

/-- A call that is given no id adds no event. -/
lemma Inv.accepted_of_none {h : History W} {s : State W} (hinv : Inv h s)
    {entry : Call W × Answer} (hentry : acceptance entry = none) :
    (∀ n ∈ accepted (h ++ [entry]), n.eventId.toNat ≤ raises ((h ++ [entry]).map Prod.fst)) ∧
      ((accepted (h ++ [entry])).map Notice.eventId).Nodup := by
  rw [accepted_concat_of_none h hentry, raises_map_concat]
  exact ⟨fun n hn => (hinv.accepted_le n hn).trans (Nat.le_add_right _ _), hinv.nodup⟩

/-- A raise that is given the next id adds an event with that id. -/
lemma Inv.accepted_of_next {h : History W} {s : State W} (hinv : Inv h s)
    {entry : Call W × Answer} {n : Notice} (hentry : acceptance entry = some n)
    (hraise : isRaise entry.1 = true)
    (hnext : n.eventId.toNat = raises (h.map Prod.fst) + 1) :
    (∀ n ∈ accepted (h ++ [entry]), n.eventId.toNat ≤ raises ((h ++ [entry]).map Prod.fst)) ∧
      ((accepted (h ++ [entry])).map Notice.eventId).Nodup := by
  rw [accepted_concat_of_some h hentry, raises_map_concat, if_pos hraise]
  constructor
  · intro n' hn'
    rcases List.mem_append.mp hn' with hn' | hn'
    · exact (hinv.accepted_le n' hn').trans (Nat.le_succ _)
    · rw [List.mem_singleton.mp hn', hnext]
  · rw [List.map_append, List.map_singleton]
    refine List.nodup_append.mpr ⟨hinv.nodup, List.nodup_singleton _, ?_⟩
    intro id hid id' hid'
    rw [List.mem_singleton.mp hid']
    rintro rfl
    obtain ⟨n', hn', hid⟩ := List.mem_map.mp hid
    have hle := hinv.accepted_le n' hn'
    rw [hid, hnext] at hle
    omega

/-- The queue behind a raise that stored its event. -/
lemma Inv.queue_raised {h : History W} {s : State W} (hinv : Inv h s)
    (hn : raises (h.map Prod.fst) + 1 < 2 ^ 64) {sys' : EventSystem W} {n : Notice}
    (hqueue : sys'.eventQueue = s.system.eventQueue ++ [s.system.nextEventId])
    (hnotice : ∀ id : UInt64, sys'.events[id]?.map notice =
      if id = s.system.nextEventId then some n else s.system.events[id]?.map notice) :
    sys'.eventQueue.map (fun id => sys'.events[id]?.map notice) =
      (waiting h ++ [n]).map some := by
  rw [hqueue, List.map_append, List.map_append, ← hinv.queue, List.map_singleton,
    List.map_singleton, hnotice, if_pos rfl]
  congr 1
  refine List.map_congr_left fun id hid => ?_
  obtain ⟨e, he⟩ := hinv.stored_of_mem hid
  rw [hnotice, if_neg (hinv.numbered.ne_next hn he)]

/-- Behind it, too, what is not processed is in the queue. -/
lemma Inv.pending_raised {h : History W} {s : State W} (hinv : Inv h s)
    {sys' : EventSystem W} {new : Notice × Bool}
    (hqueue : sys'.eventQueue = s.system.eventQueue ++ [s.system.nextEventId])
    (hevents : ∀ id : UInt64, sys'.events[id]?.map view =
      if id = s.system.nextEventId then some new else s.system.events[id]?.map view) :
    ∀ (id : UInt64) (e : Event), sys'.events[id]? = some e →
      e.processed = false → id ∈ sys'.eventQueue := by
  intro id e hid hunprocessed
  rw [hqueue]
  have hmap := hevents id
  rw [hid] at hmap
  split_ifs at hmap with heq
  · exact List.mem_append_right _ (List.mem_singleton.mpr heq)
  · obtain ⟨e', he', hview⟩ := Option.map_eq_some_iff.mp hmap.symm
    refine List.mem_append_left _ (hinv.pending id e' he' ?_)
    exact (congrArg Prod.snd hview).trans hunprocessed

section Raise

variable {h : History W} {s : State W} {r : Raise}

lemma raises_concat_raise (answer : Answer) :
    raises ((h ++ [((.raise r : Call W), answer)]).map Prod.fst) = raises (h.map Prod.fst) + 1 :=
  raises_map_concat h _

lemma registered_concat_raise (answer : Answer) :
    registered (h ++ [(.raise r, answer)]) = registered h :=
  registered_concat _ _

lemma PassedOn.raise (hpassed : PassedOn h) (answer : Answer) :
    PassedOn (h ++ [(.raise r, answer)]) :=
  hpassed.concat fun answer he => by cases he

/-- A raise over the cascade limit moves the counters alone. -/
lemma Inv.rejected (hinv : Inv h s)
    (hnumbered : Numbered (raises (h.map Prod.fst) + 1) s.system.counted) :
    Inv (h ++ [(.raise r, .raised 0)]) { s with system := s.system.counted } := by
  have haccept : acceptance (W := W) (.raise r, .raised 0) = none := by simp [acceptance]
  obtain ⟨hle, hnodup⟩ := hinv.accepted_of_none haccept
  constructor
  case numbered =>
    rw [raises_concat_raise]
    exact hnumbered
  case accepted_le => exact hle
  case nodup => exact hnodup
  case queue =>
    rw [waiting_concat, waitingTurn, haccept, Option.toList_none, List.append_nil]
    exact hinv.queue
  case pending => exact hinv.pending
  case handlers =>
    rw [registered_concat_raise]
    exact hinv.handlers
  case handlerIds => exact hinv.handlerIds
  case quiet => exact hinv.quiet
  case passed => exact hinv.passed.raise _

/-- A raise that stores its event puts it at the end of the queue. -/
lemma Inv.stored (hinv : Inv h s) (hn : raises (h.map Prod.fst) + 1 < 2 ^ 64) {depth : UInt32}
    {sys' : EventSystem W} (hnumbered : Numbered (raises (h.map Prod.fst) + 1) sys')
    (hhandlers : sys'.handlers = s.system.handlers)
    (hqueue : sys'.eventQueue = s.system.eventQueue ++ [s.system.nextEventId])
    (hevents : ∀ id : UInt64, sys'.events[id]?.map view =
      if id = s.system.nextEventId then some (view (s.system.newEvent r depth))
      else s.system.events[id]?.map view) :
    Inv (h ++ [(.raise r, .raised s.system.nextEventId)]) { s with system := sys' } := by
  have hnext := hinv.numbered.toNat_next hn
  have hne : s.system.nextEventId ≠ 0 := by
    intro hzero
    rw [hzero] at hnext
    exact absurd hnext.symm (Nat.succ_ne_zero _)
  have haccept : acceptance (W := W) (.raise r, .raised s.system.nextEventId) =
      some (noticeOf s.system.nextEventId r) := by simp [acceptance, hne]
  obtain ⟨hle, hnodup⟩ := hinv.accepted_of_next haccept rfl hnext
  have hnotice (id : UInt64) : sys'.events[id]?.map notice =
      if id = s.system.nextEventId then some (noticeOf s.system.nextEventId r)
      else s.system.events[id]?.map notice := by
    have hmap := congrArg (Option.map Prod.fst) (hevents id)
    rw [apply_ite (Option.map Prod.fst), Option.map_map, Option.map_map] at hmap
    exact hmap
  constructor
  case numbered =>
    rw [raises_concat_raise]
    exact hnumbered
  case accepted_le => exact hle
  case nodup => exact hnodup
  case queue =>
    rw [waiting_concat, waitingTurn, haccept, Option.toList_some]
    exact hinv.queue_raised hn hqueue hnotice
  case pending => exact hinv.pending_raised hqueue hevents
  case handlers =>
    rw [registered_concat_raise, hhandlers]
    exact hinv.handlers
  case handlerIds =>
    rw [hhandlers]
    exact hinv.handlerIds
  case quiet =>
    unfold AllQuiet
    rw [hhandlers]
    exact hinv.quiet
  case passed => exact hinv.passed.raise _

lemma Inv.raise (hinv : Inv h s) (r : Raise) (hn : raises (h.map Prod.fst) + 1 < 2 ^ 64) :
    Inv (h ++ [(.raise r, .raised (s.system.raiseEvent r).1)])
      { s with system := (s.system.raiseEvent r).2 } := by
  have hnumbered := hinv.numbered.raiseEvent hn r
  rcases raiseEvent_map (f := view) (fun _ _ => rfl) s.system r with
    he | ⟨depth, sys', he, -, hhandlers, hqueue, hevents⟩
  · rw [he] at hnumbered ⊢
    exact hinv.rejected hnumbered
  · rw [he] at hnumbered ⊢
    exact hinv.stored hn hnumbered hhandlers hqueue hevents

end Raise

lemma Inv.register {h : History W} {s : State W} (hinv : Inv h s) (type : EventType)
    {handler : Event → W → Reaction × W} (hquiet : Quiet handler) :
    Inv (h ++ [(.register type handler, .registered)])
      { s with system := s.system.registerHandler type handler } := by
  set new : EventHandler W := ⟨s.system.handlers.size + 1, type, handler⟩
  have hlist : (s.system.registerHandler type handler).handlers.toList =
      s.system.handlers.toList ++ [(s.system.handlers.size + 1, new)] := by
    refine toList_insert_of_forall_lt _ _ fun id hid => ?_
    rw [Nat.compare_eq_lt]
    exact Nat.lt_succ_of_le (hinv.handlerIds id hid)
  have hsize : (s.system.registerHandler type handler).handlers.size =
      s.system.handlers.size + 1 := by
    rw [← ExtTreeMap.length_toList, hlist, List.length_append, ExtTreeMap.length_toList]
    rfl
  have haccept : acceptance (.register type handler, .registered) = none := rfl
  obtain ⟨hle, hnodup⟩ := hinv.accepted_of_none haccept
  constructor
  case numbered =>
    rw [raises_map_concat]
    exact ⟨hinv.numbered.next, hinv.numbered.stored⟩
  case accepted_le => exact hle
  case nodup => exact hnodup
  case queue =>
    rw [waiting_concat, waitingTurn, haccept, Option.toList_none, List.append_nil]
    exact hinv.queue
  case pending => exact hinv.pending
  case handlers =>
    have hlength := congrArg List.length hinv.handlers
    rw [List.length_map, ExtTreeMap.length_toList] at hlength
    rw [registered_concat, registeredTurn, ← hlength, hlist, List.map_append, hinv.handlers]
    rfl
  case handlerIds =>
    intro id hid
    rw [hsize]
    rcases (mem_insert_iff _ _ _ _).mp hid with heq | hid
    · exact heq.symm.le
    · exact (hinv.handlerIds id hid).trans (Nat.le_succ _)
  case quiet =>
    unfold AllQuiet
    rw [hlist]
    intro entry hentry
    rcases List.mem_append.mp hentry with hentry | hentry
    · exact hinv.quiet entry hentry
    · rw [List.mem_singleton.mp hentry]
      exact hquiet
  case passed => exact hinv.passed.concat fun answer he => by cases he

lemma Inv.process {h : History W} {s : State W} (hinv : Inv h s) :
    ∃ answer s', step s .process = .ok (answer, s') ∧ Inv (h ++ [(.process, answer)]) s' := by
  have hpass := hinv.quiet.processEvents s.world
  have haccept : acceptance ((.process : Call W),
      Answer.processed ((dueCalls s.system).map logged)) = none := rfl
  obtain ⟨hle, hnodup⟩ := hinv.accepted_of_none haccept
  refine ⟨.processed ((dueCalls s.system).map logged), _, by simp only [step, hpass]; rfl, ?_⟩
  constructor
  case numbered =>
    have hnumbered := hinv.numbered.processEvents s.world
    rw [hpass] at hnumbered
    rw [raises_map_concat]
    exact hnumbered
  case accepted_le => exact hle
  case nodup => exact hnodup
  case queue => rw [waiting_concat]; rfl
  case pending =>
    intro id e hid hunprocessed
    dsimp only at hid
    rw [getElem?_markProcessed] at hid
    obtain ⟨e', he', rfl⟩ := Option.map_eq_some_iff.mp hid
    split_ifs at hunprocessed with hqueue
    exact absurd (hinv.pending id e' he' hunprocessed) hqueue
  case handlers =>
    rw [registered_concat]
    exact hinv.handlers
  case handlerIds => exact hinv.handlerIds
  case quiet => exact hinv.quiet
  case passed =>
    refine hinv.passed.concat fun answer he => ?_
    cases he
    exact ⟨_, rfl, seen_due hinv.handlers hinv.queue⟩

lemma inv_nil (w : W) : Inv [] (⟨{}, w⟩ : State W) where
  numbered := numbered_empty
  accepted_le := by simp [accepted]
  nodup := List.nodup_nil
  queue := rfl
  pending id e hid := by simp at hid
  handlers := rfl
  handlerIds := by simp
  quiet := by simp [AllQuiet]
  passed pre answer hpre := by simp at hpre

/-- Fewer raises than there are ids, and handlers that leave the event system alone. -/
def Allowed (calls : List (Call W)) : Prop := QuietHandlers calls ∧ raises calls < 2 ^ 64

lemma inv_step {h : History W} {s : State W} {call : Call W} (hinv : Inv h s)
    (hallowed : Allowed (h.map Prod.fst ++ [call])) :
    ∃ answer s', step s call = .ok (answer, s') ∧ Inv (h ++ [(call, answer)]) s' := by
  cases call with
  | raise r =>
    refine ⟨_, _, rfl, hinv.raise r ?_⟩
    simpa [raises, List.countP_append, isRaise] using hallowed.2
  | register type handler =>
    exact ⟨_, _, rfl, hinv.register type (hallowed.1 type handler (by simp))⟩
  | process => exact hinv.process

lemma Allowed.of_append {calls more : List (Call W)} (h : Allowed (calls ++ more)) :
    Allowed calls := by
  refine ⟨fun type handler hmem => h.1 type handler (List.mem_append_left _ hmem), ?_⟩
  have hcount := h.2
  rw [raises, List.countP_append] at hcount
  exact (Nat.le_add_right _ _).trans_lt hcount

/-- **Exactly once**: of fewer than `2 ^ 64` raises, every accepted event is passed to every
handler of its type that is registered when the event is taken from the queue, as long as no
handler throws or calls back. -/
theorem exactlyOnce (w : W) (calls : List (Call W)) (hquiet : QuietHandlers calls)
    (hcount : raises calls < 2 ^ 64) : ExactlyOnce w calls := by
  obtain ⟨h, s, hrun, hinv⟩ := exists_history (P := Inv) (fun _ _ => Allowed.of_append)
    (fun h s call => inv_step) (inv_nil w) (show Allowed calls from ⟨hquiet, hcount⟩)
  refine ⟨h, s, hrun, hinv.passed, hinv.nodup, fun pre hpre => ?_⟩
  have hqueue : s.system.eventQueue = [] := by
    have hcalls := map_fst_history hrun
    obtain ⟨hs, last, rfl⟩ : ∃ hs last, h = hs ++ [last] := by
      refine ⟨_, _, (List.dropLast_concat_getLast (l := h) ?_).symm⟩
      rintro rfl
      rw [hpre] at hcalls
      simp at hcalls
    have hlast : last.1 = .process := by
      rw [hpre, List.map_append] at hcalls
      exact (List.cons.inj (List.append_inj' hcalls rfl).2).1
    have hwaiting := hinv.queue
    rw [List.nil_append, waiting_concat, waitingTurn, hlast] at hwaiting
    exact List.map_eq_nil_iff.mp hwaiting
  refine ⟨hqueue, fun id e he => ?_⟩
  by_contra hunprocessed
  have hmem := hinv.pending id e he (Bool.eq_false_iff.mpr hunprocessed)
  rw [hqueue] at hmem
  cases hmem

theorem exactlyOnce_insert : ExactlyOnce () [.register .INSERT_EVENT fun _ _ => ({}, ()),
    .raise { type := .INSERT_EVENT, sourceRowId := 1, uninitialised := 0 }, .process] := by
  refine exactlyOnce () _ (fun type handler hmem => ?_) (by decide)
  obtain ⟨rfl, rfl⟩ : type = .INSERT_EVENT ∧ handler = fun _ _ => ({}, ()) := by
    simpa using hmem
  intro e w
  rfl

/-! ### What happens otherwise -/

def WithoutCallbacks (calls : List (Call W)) : Prop :=
  ∀ type handler, .register type handler ∈ calls → ∀ e w, (handler e w).1.calls = []

/-- A handler that throws. -/
def throwing : List (Call Unit) :=
  [.register .INSERT_EVENT fun _ _ => ({ throws := true }, ()),
    .raise { type := .INSERT_EVENT, sourceRowId := 1, uninitialised := 0 }, .process]

lemma not_exactlyOnce_throwing : ¬ ExactlyOnce () throwing := by
  rintro ⟨h, s, hrun, hpassed, -, -⟩
  cases hrun
  obtain ⟨dispatched, hanswer, -⟩ := hpassed [_, _] _ (List.prefix_refl _)
  cases hanswer

def countedTimes (sys : EventSystem W) (n : ℕ) : EventSystem W :=
  { sys with
    nextEventId := sys.nextEventId + .ofNat n
    totalEvents := sys.totalEvents + .ofNat n }

lemma countedTimes_succ (sys : EventSystem W) (n : ℕ) :
    countedTimes sys (n + 1) = countedTimes sys.counted n := by
  have hcount (a : UInt64) : a + .ofNat (n + 1) = a + 1 + .ofNat n := by
    rw [UInt64.ofNat_add, UInt64.add_assoc, UInt64.add_comm 1]
    rfl
  simp only [countedTimes, counted, hcount]

/-- Raises that are rejected only count. -/
lemma history_rejected {sys : EventSystem W} {r : Raise} {parent : Event}
    (hparent : sys.parentOf r.parentEventId = some parent)
    (hdepth : maxEventDepth < parent.depth + 1) (w : W) (n : ℕ) :
    history step ⟨sys, w⟩ (List.replicate n (.raise r)) =
      .ok (List.replicate n (.raise r, .raised 0), ⟨countedTimes sys n, w⟩) := by
  induction n generalizing sys with
  | zero => simp [history, countedTimes]
  | succ n ih =>
    have hrejected : sys.raiseEvent r = (0, sys.counted) := by
      rcases sys.raiseEvent_cases r with ⟨_, -, -, he⟩ | ⟨parent', hparent', hle, -⟩ | ⟨hnone, -⟩
      · exact he
      · rw [hparent] at hparent'
        cases hparent'
        exact absurd hdepth hle
      · rw [hparent] at hnone
        cases hnone
    have hstep : step ⟨sys, w⟩ (.raise r) = .ok (.raised 0, ⟨sys.counted, w⟩) := by
      simp only [step, hrejected]
    rw [countedTimes_succ]
    exact history_cons_eq_ok.mpr ⟨_, _, _, hstep, ih hparent, rfl⟩

lemma foldl_rejected {γ : Type} {f : γ → Call W × Answer → γ} {entry : Call W × Answer}
    (hf : ∀ c, f c entry = c) (c : γ) (n : ℕ) : (List.replicate n entry).foldl f c = c := by
  induction n with
  | zero => rfl
  | succ n ih => rw [List.replicate_succ, List.foldl_cons, hf, ih]

section Wrapping

def root : Raise := { type := .INSERT_EVENT, sourceRowId := 1, uninitialised := 15 }

def belowRoot : Raise :=
  { type := .INSERT_EVENT, sourceRowId := 1, parentEventId := 1, uninitialised := 0 }

def otherRoot : Raise := { type := .UPDATE_EVENT, sourceRowId := 1, uninitialised := 0 }

/-- Raises up to where the first id comes up again. -/
def wrapping (n : ℕ) : List (Call Unit) :=
  [.register .INSERT_EVENT fun _ _ => ({}, ()), .raise root] ++
    (List.replicate n (.raise belowRoot) ++ [.raise otherRoot, .process])

/-- The event system with an event that allows none below it. -/
def atLimit : EventSystem Unit :=
  ((({} : EventSystem Unit).registerHandler .INSERT_EVENT fun _ _ => ({}, ())).raiseEvent root).2

lemma countedTimes_atLimit {n : ℕ} (hn : (2 : UInt64) + .ofNat n = 1) :
    countedTimes atLimit n =
      { atLimit with nextEventId := 1, totalEvents := 1 + .ofNat n } := by
  have hnext : atLimit.nextEventId + .ofNat n = 1 := hn
  have htotal : atLimit.totalEvents = 1 := rfl
  simp only [countedTimes, hnext, htotal]

/-- The calls before the pass, with their answers. -/
def answered (n : ℕ) : History Unit :=
  (.register .INSERT_EVENT fun _ _ => ({}, ()), .registered) :: (.raise root, .raised 1) ::
    (List.replicate n (.raise belowRoot, .raised 0) ++ [(.raise otherRoot, .raised 1)])

lemma waiting_answered (n : ℕ) :
    waiting (answered n) = [noticeOf 1 root, noticeOf 1 otherRoot] := by
  unfold waiting answered
  rw [List.foldl_cons, List.foldl_cons, List.foldl_append,
    foldl_rejected (fun ws => List.append_nil ws)]
  rfl

lemma registered_answered (n : ℕ) : registered (answered n) = [(1, .INSERT_EVENT)] := by
  unfold registered answered
  rw [List.foldl_cons, List.foldl_cons, List.foldl_append, foldl_rejected (fun rs => rfl)]
  rfl

lemma history_wrapping {n : ℕ} (hn : (2 : UInt64) + .ofNat n = 1) :
    ∃ s, history step (⟨{}, ()⟩ : State Unit) (wrapping n) =
      .ok (answered n ++ [(.process, .processed [])], s) := by
  have hfirst : history step (⟨{}, ()⟩ : State Unit)
      [.register .INSERT_EVENT fun _ _ => ({}, ()), .raise root] =
      .ok ([(.register .INSERT_EVENT fun _ _ => ({}, ()), .registered),
        (.raise root, .raised 1)], ⟨atLimit, ()⟩) := rfl
  have hparent : atLimit.parentOf belowRoot.parentEventId =
      some { atLimit.newEvent root 15 with eventId := 1 } := rfl
  have hrejected := history_rejected hparent (by decide) () n
  obtain ⟨s, hlast⟩ : ∃ s, history step ⟨countedTimes atLimit n, ()⟩
      [.raise otherRoot, .process] =
      .ok ([(.raise otherRoot, .raised 1), (.process, .processed [])], s) := by
    rw [countedTimes_atLimit hn]
    exact ⟨_, rfl⟩
  refine ⟨s, ?_⟩
  rw [wrapping, history_append hfirst (history_append hrejected hlast)]
  simp [answered]

/-- The event raised under the first id takes the place of the first event. -/
lemma not_exactlyOnce_wrapping {n : ℕ} (hn : (2 : UInt64) + .ofNat n = 1) :
    ¬ ExactlyOnce () (wrapping n) := by
  rintro ⟨h, s, hrun, hpassed, -, -⟩
  obtain ⟨s', hwrapping⟩ := history_wrapping hn
  rw [hwrapping] at hrun
  cases hrun
  obtain ⟨dispatched, hanswer, hseen⟩ := hpassed (answered n) _ (List.prefix_refl _)
  cases hanswer
  rw [waiting_answered, registered_answered] at hseen
  cases hseen

lemma quietHandlers_wrapping (n : ℕ) : QuietHandlers (wrapping n) := by
  intro type handler hmem e w
  obtain ⟨rfl, rfl⟩ : type = .INSERT_EVENT ∧ handler = fun _ _ => ({}, ()) := by
    simpa [wrapping, List.mem_replicate] using hmem
  rfl

end Wrapping

/-- A handler that throws, and an id that comes up again, each keep an event from a handler. -/
theorem not_exactlyOnce :
    (∃ calls : List (Call Unit), WithoutCallbacks calls ∧ raises calls < 2 ^ 64 ∧
      ¬ ExactlyOnce () calls) ∧
    ∃ calls : List (Call Unit), QuietHandlers calls ∧ ¬ ExactlyOnce () calls := by
  obtain ⟨n, hn⟩ : ∃ n : ℕ, (2 : UInt64) + .ofNat n = 1 := ⟨2 ^ 64 - 1, by decide⟩
  refine ⟨⟨throwing, fun type handler hmem e w => ?_, by decide, not_exactlyOnce_throwing⟩,
    wrapping n, quietHandlers_wrapping n, not_exactlyOnce_wrapping hn⟩
  obtain ⟨rfl, rfl⟩ : type = .INSERT_EVENT ∧ handler = fun _ _ => ({ throws := true }, ()) := by
    simpa [throwing] using hmem
  rfl

end Dbx4.EventOnce
