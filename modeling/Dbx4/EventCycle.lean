import Dbx4.EventModel

/-!
The cascade graph has no cycle.

A raise adds the new event to the children of a stored one, and ids only grow. So the search
for a cycle goes from smaller to greater ids, and meets none twice.
-/

namespace Dbx4.EventCycle

open Std Dbx4.Loops Dbx4.Maps Dbx4.Runs Dbx4.EventModel Dbx4.EventModel.EventSystem

variable {W : Type}

def childIds (sys : EventSystem W) (id : UInt64) : List UInt64 :=
  match sys.events[id]? with
  | some event => event.childEvents
  | none => []

lemma childIds_eq (sys : EventSystem W) (id : UInt64) :
    childIds sys id = (sys.events[id]?.map Event.childEvents).getD [] := by
  unfold childIds
  rcases sys.events[id]? with _ | e
  · rfl
  · rfl

/-! ### The cascade graph -/

/-- Children are greater than their parents, and none has two places. -/
structure Ordered (n : ℕ) (sys : EventSystem W) : Prop where
  numbered : Numbered n sys
  own : ∀ (id : UInt64) (e : Event), sys.events[id]? = some e → e.eventId = id
  later : ∀ id, ∀ c ∈ childIds sys id, id < c ∧ c.toNat ≤ n
  nodup : ∀ id, (childIds sys id).Nodup
  apart : ∀ id id' c, c ∈ childIds sys id → c ∈ childIds sys id' → id = id'

/-- A raise adds the new id to the children of one stored event, or to none. -/
lemma childIds_raiseEvent {n : ℕ} {sys : EventSystem W} (h : Numbered n sys)
    (hn : n + 1 < 2 ^ 64) (r : Raise) :
    childIds (sys.raiseEvent r).2 = childIds sys ∨
      ∃ p, p.toNat ≤ n ∧ childIds (sys.raiseEvent r).2 =
        Function.update (childIds sys) p (childIds sys p ++ [sys.nextEventId]) := by
  have hnone : childIds sys sys.nextEventId = [] := by
    unfold childIds
    rcases hnext : sys.events[sys.nextEventId]? with _ | e
    · rfl
    · exact absurd rfl (h.ne_next hn hnext)
  rcases sys.raiseEvent_cases r with ⟨parent, -, -, he⟩ | ⟨parent, hparent, -, he⟩ | ⟨-, he⟩
  · rw [he]
    exact Or.inl rfl
  · refine Or.inr ⟨r.parentEventId, h.stored _ _ (getElem?_of_parentOf hparent), ?_⟩
    have hstored := getElem?_of_parentOf hparent
    have hne := h.ne_next hn hstored
    funext id
    rw [he, childIds_eq]
    dsimp only
    rw [map_getElem?_insert, map_getElem?_insert]
    by_cases hid : id = sys.nextEventId
    · rw [if_pos hid, hid, Function.update_of_ne (Ne.symm hne), hnone]
      rfl
    · rw [if_neg hid]
      by_cases hp : id = r.parentEventId
      · rw [if_pos hp, hp, Function.update_self, childIds_eq, hstored]
        rfl
      · rw [if_neg hp, Function.update_of_ne hp, childIds_eq]
  · refine Or.inl (funext fun id => ?_)
    rw [he, childIds_eq]
    dsimp only
    rw [map_getElem?_insert]
    by_cases hid : id = sys.nextEventId
    · rw [if_pos hid, hid, hnone]
      rfl
    · rw [if_neg hid, childIds_eq]

lemma own_raiseEvent {sys : EventSystem W}
    (h : ∀ (id : UInt64) (e : Event), sys.events[id]? = some e → e.eventId = id) (r : Raise)
    (id : UInt64) (e : Event) (he : (sys.raiseEvent r).2.events[id]? = some e) :
    e.eventId = id := by
  rcases raiseEvent_map (f := Event.eventId) (fun _ _ => rfl) sys r with
    hraise | ⟨depth, sys', hraise, -, -, -, hevents⟩
  · rw [hraise] at he
    exact h id e he
  · rw [hraise] at he
    have hmap := hevents id
    rw [he] at hmap
    split_ifs at hmap with hid
    · exact (Option.some.inj hmap).trans hid.symm
    · obtain ⟨e', he', hsame⟩ := Option.map_eq_some_iff.mp hmap.symm
      exact hsame.symm.trans (h id e' he')

lemma Ordered.raiseEvent {n : ℕ} {sys : EventSystem W} (h : Ordered n sys)
    (hn : n + 1 < 2 ^ 64) (r : Raise) : Ordered (n + 1) (sys.raiseEvent r).2 := by
  have hnext := h.numbered.toNat_next hn
  have hfresh : ∀ id, sys.nextEventId ∉ childIds sys id := by
    intro id hmem
    have := (h.later id _ hmem).2
    omega
  have hnumbered := h.numbered.raiseEvent hn r
  have hown := own_raiseEvent h.own r
  rcases childIds_raiseEvent h.numbered hn r with hsame | ⟨p, hp, hadd⟩
  · refine ⟨hnumbered, hown, ?_, ?_, ?_⟩
    · rw [hsame]
      exact fun id c hc => ⟨(h.later id c hc).1, (h.later id c hc).2.trans (Nat.le_succ n)⟩
    · rw [hsame]
      exact h.nodup
    · rw [hsame]
      exact h.apart
  · have hmem (id c : UInt64) : c ∈ childIds (sys.raiseEvent r).2 id ↔
        c ∈ childIds sys id ∨ id = p ∧ c = sys.nextEventId := by
      rw [hadd]
      by_cases hid : id = p
      · subst hid
        simp
      · simp [hid]
    refine ⟨hnumbered, hown, fun id c hc => ?_, fun id => ?_, fun id id' c hc hc' => ?_⟩
    · rcases (hmem id c).mp hc with hc | ⟨rfl, rfl⟩
      · exact ⟨(h.later id c hc).1, (h.later id c hc).2.trans (Nat.le_succ n)⟩
      · rw [UInt64.lt_iff_toNat_lt, hnext]
        exact ⟨Nat.lt_succ_of_le hp, Nat.le_refl _⟩
    · rw [hadd]
      by_cases hid : id = p
      · subst hid
        rw [Function.update_self, List.nodup_append]
        refine ⟨h.nodup id, List.nodup_singleton _, fun c hc c' hc' => ?_⟩
        rintro rfl
        exact hfresh id (List.mem_singleton.mp hc' ▸ hc)
      · rw [Function.update_of_ne hid]
        exact h.nodup id
    · rcases (hmem id c).mp hc with hc | ⟨hid, heq⟩ <;>
        rcases (hmem id' c).mp hc' with hc' | ⟨hid', heq'⟩
      · exact h.apart id id' c hc hc'
      · exact absurd (heq' ▸ hc) (hfresh id)
      · exact absurd (heq ▸ hc') (hfresh id')
      · exact hid.trans hid'.symm

lemma Ordered.processEvents {n : ℕ} {sys : EventSystem W} (h : Ordered n sys) (w : W) :
    Ordered n (sys.processEvents w).2.1 := by
  have hsame : childIds (sys.processEvents w).2.1 = childIds sys := by
    funext id
    rw [childIds_eq, childIds_eq, processEvents_map (f := Event.childEvents) (fun _ _ => rfl)]
  refine ⟨h.numbered.processEvents w, fun id e he => ?_, ?_, ?_, ?_⟩
  · have hmap := processEvents_map (f := Event.eventId) (fun _ _ => rfl) sys w id
    rw [he] at hmap
    obtain ⟨e', he', hid⟩ := Option.map_eq_some_iff.mp hmap.symm
    exact hid.symm.trans (h.own id e' he')
  · rw [hsame]
    exact h.later
  · rw [hsame]
    exact h.nodup
  · rw [hsame]
    exact h.apart

/-! ### The search -/

lemma detectCycle_succ (sys : EventSystem W) (fuel : ℕ) (id : UInt64)
    (visited : ExtTreeSet UInt64) :
    sys.detectCycle (fuel + 1) id visited =
      if id ∈ visited then .done (true, visited)
      else (anyChild (sys.detectCycle fuel) (childIds sys id) (visited.insert id)).bind
        fun (found, visited) =>
          if found then .done (true, visited) else .done (false, visited.erase id) := rfl

/-- Where no child finds anything, the loop over the children finds nothing. -/
lemma anyChild_of_forall
    {search : UInt64 → ExtTreeSet UInt64 → Outcome Empty (Bool × ExtTreeSet UInt64)}
    {ids : List UInt64} {visited : ExtTreeSet UInt64}
    (h : ∀ id ∈ ids, search id visited = .done (false, visited)) :
    anyChild search ids visited = .done (false, visited) := by
  induction ids with
  | nil => rfl
  | cons id ids ih =>
    rw [anyChild, h id List.mem_cons_self]
    exact ih fun id' hid' => h id' (List.mem_cons_of_mem _ hid')

lemma erase_insert {visited : ExtTreeSet UInt64} {id : UInt64} (h : id ∉ visited) :
    (visited.insert id).erase id = visited := by
  ext id'
  simp only [ExtTreeSet.mem_erase, ExtTreeSet.mem_insert, ne_eq, LawfulEqOrd.compare_eq_iff_eq]
  constructor
  · rintro ⟨hne, heq | hmem⟩
    · exact absurd heq hne
    · exact hmem
  · intro hmem
    refine ⟨?_, Or.inr hmem⟩
    rintro rfl
    exact h hmem

/-- From an id greater than all that are visited, the search finds nothing. -/
lemma detectCycle_of_later {sys : EventSystem W}
    (hlater : ∀ id, ∀ c ∈ childIds sys id, id < c) {fuel : ℕ} {id : UInt64}
    {visited : ExtTreeSet UInt64} (hvisited : ∀ v ∈ visited, v < id)
    (hfuel : 2 ^ 64 - id.toNat ≤ fuel) :
    sys.detectCycle fuel id visited = .done (false, visited) := by
  induction fuel generalizing id visited with
  | zero =>
    have := id.toNat_lt
    omega
  | succ fuel ih =>
    have hid : id ∉ visited := fun hmem => UInt64.lt_irrefl id (hvisited id hmem)
    have hchildren : anyChild (sys.detectCycle fuel) (childIds sys id) (visited.insert id) =
        .done (false, visited.insert id) := by
      refine anyChild_of_forall fun c hc => ih (fun v hv => ?_) ?_
      · have hc := hlater id c hc
        rcases ExtTreeSet.mem_insert.mp hv with heq | hmem
        · rwa [← LawfulEqOrd.eq_of_compare heq]
        · exact UInt64.lt_trans (hvisited v hmem) hc
      · have := UInt64.lt_iff_toNat_lt.mp (hlater id c hc)
        omega
    rw [detectCycle_succ, if_neg hid, hchildren, done_bind]
    exact congrArg (fun visited => Outcome.done (false, visited)) (erase_insert hid)

/-! ### Reachable states -/

lemma ordered_empty : Ordered 0 ({} : EventSystem W) := by
  have hnone (id : UInt64) : childIds ({} : EventSystem W) id = [] := by simp [childIds]
  refine ⟨numbered_empty, fun id e he => by simp at he, ?_, ?_, ?_⟩
  · simp [hnone]
  · simp [hnone]
  · simp [hnone]

lemma ordered_step {calls : List (Call W)} {s s' : State W} {call : Call W} {answer : Answer}
    (h : Ordered (raises calls) s.system) (hcount : raises (calls ++ [call]) < 2 ^ 64)
    (hstep : step s call = .ok (answer, s')) : Ordered (raises (calls ++ [call])) s'.system := by
  rw [raises_concat] at hcount ⊢
  cases call with
  | raise r =>
    cases hstep
    exact h.raiseEvent hcount r
  | register type handler =>
    cases hstep
    exact ⟨⟨h.numbered.next, h.numbered.stored⟩, h.own, h.later, h.nodup, h.apart⟩
  | process =>
    have hordered := h.processEvents s.world
    simp only [step] at hstep
    split at hstep
    · cases hstep
    · cases hstep
      exact hordered
    · cases hstep
      exact hordered

/-- What holds behind a history. -/
def Acyclic (h : List (Call W × Answer)) (s : State W) : Prop :=
  raises (h.map Prod.fst) < 2 ^ 64 → Ordered (raises (h.map Prod.fst)) s.system

lemma acyclic_nil (w : W) : Acyclic [] (⟨{}, w⟩ : State W) := fun _ => ordered_empty

lemma acyclic_step (h : List (Call W × Answer)) (s : State W) (call : Call W) (answer : Answer)
    (s' : State W) (hs : Acyclic h s) (hstep : step s call = .ok (answer, s')) :
    Acyclic (h ++ [(call, answer)]) s' := by
  intro hlt
  rw [List.map_append, List.map_singleton] at hlt ⊢
  refine ordered_step (hs (Nat.lt_of_le_of_lt ?_ hlt)) hlt hstep
  rw [raises_concat]
  exact Nat.le_add_right _ _

/-- The children listed by the stored events. -/
def listed (sys : EventSystem W) : List UInt64 :=
  sys.events.toList.flatMap fun entry => entry.2.childEvents

/-- Children have greater ids than their parents, no event is listed as a child twice, and
the search for a cycle finds none. -/
structure NoCycles (sys : EventSystem W) : Prop where
  later : ∀ (id : UInt64) (e : Event), sys.events[id]? = some e →
    ∀ c ∈ e.childEvents, e.eventId < c
  listedOnce : (listed sys).Nodup
  search : ∀ id, Returns (fun fuel => sys.detectCycle fuel id ∅) (false, ∅)

/-- **No cycles** in any state that fewer than `2 ^ 64` raises, with registrations and passes
between them, lead to. -/
theorem noCycles (w : W) (calls : List (Call W)) (hcount : raises calls < 2 ^ 64)
    (h : List (Call W × Answer)) (s : State W)
    (hrun : history step ⟨{}, w⟩ calls = .ok (h, s)) : NoCycles s.system := by
  have hinv : Acyclic ([] ++ h) s := history_inv acyclic_step (acyclic_nil w) hrun
  rw [Acyclic, List.nil_append, map_fst_history hrun] at hinv
  have hordered := hinv hcount
  have hmem {id c : UInt64} {e : Event} (he : s.system.events[id]? = some e)
      (hc : c ∈ e.childEvents) : c ∈ childIds s.system id := by
    rwa [childIds, he]
  refine ⟨fun id e he c hc => ?_, ?_, fun id => ?_⟩
  · rw [hordered.own id e he]
    exact (hordered.later id c (hmem he hc)).1
  · refine List.nodup_flatMap.mpr ⟨fun entry hentry => ?_, ?_⟩
    · have he := ExtTreeMap.mem_toList_iff_getElem?_eq_some.mp hentry
      have hnodup := hordered.nodup entry.1
      rwa [childIds, he] at hnodup
    · refine s.system.events.distinct_keys_toList.imp_of_mem fun {a b} ha hb hne c hca hcb => ?_
      have hea := ExtTreeMap.mem_toList_iff_getElem?_eq_some.mp ha
      have heb := ExtTreeMap.mem_toList_iff_getElem?_eq_some.mp hb
      refine hne ?_
      rw [hordered.apart a.1 b.1 c (hmem hea hca) (hmem heb hcb)]
      exact ReflCmp.compare_self
  · refine ⟨2 ^ 64, fun fuel hfuel => detectCycle_of_later (fun id c hc => ?_) ?_ ?_⟩
    · exact (hordered.later id c hc).1
    · simp
    · omega

/-- An event, one below it, and one below that. -/
def chain : List (Call Unit) :=
  [.raise { type := .INSERT_EVENT, sourceRowId := 1, uninitialised := 0 },
    .raise { type := .UPDATE_EVENT, sourceRowId := 1, parentEventId := 1, uninitialised := 0 },
    .raise { type := .DELETE_EVENT, sourceRowId := 1, parentEventId := 2, uninitialised := 0 }]

theorem noCycles_chain :
    ∃ h s, history step (⟨{}, ()⟩ : State Unit) chain = .ok (h, s) ∧ NoCycles s.system :=
  ⟨_, _, rfl, noCycles () chain (by decide) _ _ rfl⟩

end Dbx4.EventCycle
