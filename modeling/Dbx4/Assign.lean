import Mathlib.Data.List.Perm.Basic
import Dbx4.Maps
import Dbx4.Runs

/-!
Assignments to the entries of a map, one after another and all at once.

An assignment evaluates its right-hand side on the map and stores the value. Executed one
after another, an assignment sees what those before it have stored; executed at once, each
sees the map as it was. The order does not matter exactly when these never differ.
-/

namespace Dbx4.Assign

open Std Dbx4.Maps Dbx4.Runs

universe u v

variable {κ α β : Type u} {ε : Type v} [Ord κ] [TransOrd κ] [LawfulEqOrd κ]
  (eval : α → ExtTreeMap κ β → Except ε β)

/-- One assignment after another. -/
def assignAll : List (κ × α) → ExtTreeMap κ β → Except ε (ExtTreeMap κ β)
  | [], m => .ok m
  | a :: as, m => do
    let v ← eval a.2 m
    assignAll as (m.insert a.1 v)

/-- All assignments at once: what an assignment stores is evaluated on the map as it was. -/
def overwrite (m : ExtTreeMap κ β) (as : List (κ × α)) : ExtTreeMap κ β :=
  as.foldl (fun m' a =>
    match eval a.2 m with
    | .ok v => m'.insert a.1 v
    | .error _ => m') m

/-- No assignment is changed by others that go before it. -/
def OrderFree (as : List (κ × α)) (m : ExtTreeMap κ β) : Prop :=
  ∀ before a after, (before ++ a :: after).Perm as →
    eval a.2 (overwrite eval m before) = eval a.2 m

variable {eval}

omit [LawfulEqOrd κ] in
lemma assignAll_cons_eq_ok {a : κ × α} {as : List (κ × α)} {m m' : ExtTreeMap κ β} :
    assignAll eval (a :: as) m = .ok m' ↔
      ∃ v, eval a.2 m = .ok v ∧ assignAll eval as (m.insert a.1 v) = .ok m' := bind_eq_ok

/-- What is not assigned stays. -/
lemma getElem?_assignAll_of_notMem {as : List (κ × α)} {m m' : ExtTreeMap κ β} {k : κ}
    (hk : k ∉ as.map Prod.fst) (h : assignAll eval as m = .ok m') : m'[k]? = m[k]? := by
  induction as generalizing m with
  | nil =>
    cases h
    rfl
  | cons a as ih =>
    obtain ⟨hne, hrest⟩ := List.ne_and_not_mem_of_not_mem_cons hk
    obtain ⟨v, -, h⟩ := assignAll_cons_eq_ok.mp h
    rw [ih hrest h, getElem?_insert_of_ne _ (Ne.symm hne)]

omit [LawfulEqOrd κ] in
lemma overwrite_concat {as : List (κ × α)} {a : κ × α} {m : ExtTreeMap κ β} {v : β}
    (h : eval a.2 m = .ok v) :
    overwrite eval m (as ++ [a]) = (overwrite eval m as).insert a.1 v := by
  simp [overwrite, h]

omit [LawfulEqOrd κ] in
/-- Assignments that can each go first have values on the map as it is. -/
lemma exists_eval {as : List (κ × α)} {m : ExtTreeMap κ β}
    (hall : ∀ as', as'.Perm as → ∃ m', assignAll eval as' m = .ok m')
    {before after : List (κ × α)} {a : κ × α} (h : (before ++ a :: after).Perm as) :
    ∃ v, eval a.2 m = .ok v := by
  obtain ⟨m', hm'⟩ := hall (a :: (before ++ after)) (List.perm_middle.symm.trans h)
  obtain ⟨v, hv, -⟩ := assignAll_cons_eq_ok.mp hm'
  exact ⟨v, hv⟩

omit [LawfulEqOrd κ] in
/-- Where the order does not matter, executing one after another is executing at once. -/
lemma OrderFree.assignAll {as : List (κ × α)} {m : ExtTreeMap κ β}
    (hall : ∀ as', as'.Perm as → ∃ m', assignAll eval as' m = .ok m')
    (h : OrderFree eval as m) {before after : List (κ × α)} (hp : (before ++ after).Perm as) :
    Assign.assignAll eval after (overwrite eval m before) =
      .ok (overwrite eval m (before ++ after)) := by
  induction after generalizing before with
  | nil => rw [List.append_nil]; rfl
  | cons a after ih =>
    obtain ⟨v, hv⟩ := exists_eval hall hp
    rw [List.append_cons] at hp ⊢
    refine assignAll_cons_eq_ok.mpr ⟨v, ?_, ?_⟩
    · rw [h before a after (by rwa [List.append_cons]), hv]
    · rw [← overwrite_concat hv]
      exact ih hp

lemma insert_comm (m : ExtTreeMap κ β) {k k' : κ} (h : k ≠ k') (v v' : β) :
    (m.insert k v).insert k' v' = (m.insert k' v').insert k v := by
  ext i : 1
  by_cases hi : k = i
  · subst hi
    rw [getElem?_insert_of_ne _ (Ne.symm h), ExtTreeMap.getElem?_insert_self,
      ExtTreeMap.getElem?_insert_self]
  · rw [getElem?_insert_of_ne _ hi]
    by_cases hi' : k' = i
    · subst hi'
      rw [ExtTreeMap.getElem?_insert_self, ExtTreeMap.getElem?_insert_self]
    · rw [getElem?_insert_of_ne _ hi', getElem?_insert_of_ne _ hi', getElem?_insert_of_ne _ hi]

/-- At once, the order does not matter. -/
lemma overwrite_perm {as as' : List (κ × α)} (hkeys : (as.map Prod.fst).Nodup)
    (h : as'.Perm as) (m : ExtTreeMap κ β) : overwrite eval m as' = overwrite eval m as := by
  refine (h.symm.foldl_eq' (fun a ha b hb m' => ?_) m).symm
  by_cases hab : a = b
  · rw [hab]
  have hne : a.1 ≠ b.1 := fun hk => hab (List.inj_on_of_nodup_map hkeys ha hb hk)
  rcases eval a.2 m with _ | v <;> rcases eval b.2 m with _ | w
  · rfl
  · rfl
  · rfl
  · exact insert_comm m' hne v w

/-- What an assignment stores stays when no later one has its key. -/
lemma stored_of_cons {a : κ × α} {as : List (κ × α)} {m last : ExtTreeMap κ β}
    (ha : a.1 ∉ as.map Prod.fst) (h : assignAll eval (a :: as) m = .ok last) :
    ∃ v, eval a.2 m = .ok v ∧ last[a.1]? = some v ∧
      assignAll eval as (m.insert a.1 v) = .ok last := by
  obtain ⟨v, hv, hrest⟩ := assignAll_cons_eq_ok.mp h
  refine ⟨v, hv, ?_, hrest⟩
  rw [getElem?_assignAll_of_notMem ha hrest, ExtTreeMap.getElem?_insert_self]

section Same

variable {as before after : List (κ × α)} {a : κ × α} {m last : ExtTreeMap κ β}

omit [Ord κ] [TransOrd κ] [LawfulEqOrd κ] in
lemma key_notMem (hkeys : (as.map Prod.fst).Nodup) (hp : (before ++ a :: after).Perm as) :
    a.1 ∉ (before ++ after).map Prod.fst := by
  have hnodup := ((List.perm_middle.symm.trans hp).map Prod.fst).nodup_iff.mpr hkeys
  exact (List.nodup_cons.mp hnodup).1

/-- Where every order gives the same, the value an assignment has at first is the one that is
stored in the end. -/
lemma stored_of_same (hkeys : (as.map Prod.fst).Nodup)
    (hsame : ∀ as', as'.Perm as → assignAll eval as' m = .ok last)
    (hp : (before ++ a :: after).Perm as) : ∃ v, eval a.2 m = .ok v ∧ last[a.1]? = some v := by
  obtain ⟨v, hv, hstored, -⟩ := stored_of_cons (key_notMem hkeys hp)
    (hsame _ (List.perm_middle.symm.trans hp))
  exact ⟨v, hv, hstored⟩

/-- Behind the assignments before it, an assignment still has its first value. -/
lemma eval_of_same (hkeys : (as.map Prod.fst).Nodup)
    (hsame : ∀ as', as'.Perm as → assignAll eval as' m = .ok last)
    (hp : (before ++ a :: after).Perm as) {m' : ExtTreeMap κ β}
    (hm' : assignAll eval (a :: after) m' = .ok last) :
    ∃ v, eval a.2 m = .ok v ∧ eval a.2 m' = .ok v ∧
      assignAll eval after (m'.insert a.1 v) = .ok last := by
  have hkey : a.1 ∉ after.map Prod.fst := fun hmem => key_notMem hkeys hp <| by
    rw [List.map_append]
    exact List.mem_append_right _ hmem
  obtain ⟨v, hv, hstored⟩ := stored_of_same hkeys hsame hp
  obtain ⟨w, hw, hstored', hrest⟩ := stored_of_cons hkey hm'
  rw [hstored, Option.some_inj] at hstored'
  exact ⟨v, hv, hstored' ▸ hw, hstored' ▸ hrest⟩

/-- Behind any first part of the assignments, the others lead to the same map. -/
lemma assignAll_overwrite_of_same (hkeys : (as.map Prod.fst).Nodup)
    (hsame : ∀ as', as'.Perm as → assignAll eval as' m = .ok last)
    (hp : (before ++ after).Perm as) :
    assignAll eval after (overwrite eval m before) = .ok last := by
  induction before using List.reverseRecOn generalizing after with
  | nil => exact hsame after hp
  | append_singleton before a ih =>
    rw [List.append_assoc, List.singleton_append] at hp
    obtain ⟨v, hv, -, hrest⟩ := eval_of_same hkeys hsame hp (ih hp)
    rwa [overwrite_concat hv]

/-- **When the order of assignments does not matter**, where every order has a result: exactly
when no assignment is changed by others before it. -/
theorem orderFree_iff (hkeys : (as.map Prod.fst).Nodup)
    (hall : ∀ as', as'.Perm as → ∃ m', assignAll eval as' m = .ok m') :
    (∀ as', as'.Perm as → assignAll eval as' m = assignAll eval as m) ↔
      OrderFree eval as m := by
  constructor
  · intro hsame before a after hp
    obtain ⟨last, hlast⟩ := hall as (List.Perm.refl as)
    have hsame' (as' : List (κ × α)) (h : as'.Perm as) : assignAll eval as' m = .ok last :=
      (hsame as' h).trans hlast
    obtain ⟨v, hv, hv', -⟩ := eval_of_same hkeys hsame' hp
      (assignAll_overwrite_of_same hkeys hsame' hp)
    exact hv'.trans hv.symm
  · intro hfree as' hp
    have hat_once (as' : List (κ × α)) (h : as'.Perm as) :
        assignAll eval as' m = .ok (overwrite eval m as') :=
      hfree.assignAll hall (show ([] ++ as').Perm as from h)
    calc assignAll eval as' m = .ok (overwrite eval m as') := hat_once as' hp
      _ = .ok (overwrite eval m as) := by rw [overwrite_perm hkeys hp]
      _ = assignAll eval as m := (hat_once as (List.Perm.refl as)).symm

end Same

/-! ### Right-hand sides that do not look at the map -/

section Const

variable {f : α → Except ε β} {as as' : List (κ × α)}

omit [LawfulEqOrd κ] in
lemma assignAll_const_of_ok (h : ∀ a ∈ as, ∃ v, f a.2 = .ok v) (m : ExtTreeMap κ β) :
    assignAll (fun e _ => f e) as m = .ok (overwrite (fun e _ => f e) m as) := by
  suffices hfold : ∀ m₀ m : ExtTreeMap κ β, assignAll (fun e _ => f e) as m =
      .ok (as.foldl (fun m' a =>
        match (fun e (_ : ExtTreeMap κ β) => f e) a.2 m₀ with
        | .ok v => m'.insert a.1 v
        | .error _ => m') m) from hfold m m
  intro m₀ m
  induction as generalizing m with
  | nil => rfl
  | cons a as ih =>
    obtain ⟨⟨v, hv⟩, hrest⟩ := List.forall_mem_cons.mp h
    rw [assignAll, List.foldl_cons]
    dsimp only
    rw [hv, ok_bind]
    exact ih hrest _

omit [LawfulEqOrd κ] in
lemma assignAll_const_of_error {a : κ × α} {e : ε} (ha : a ∈ as) (h : f a.2 = .error e)
    (m : ExtTreeMap κ β) : ∃ e', assignAll (fun e _ => f e) as m = .error e' := by
  induction as generalizing m with
  | nil => cases ha
  | cons b as ih =>
    rw [assignAll]
    rcases hb : f b.2 with e' | v
    · exact ⟨e', rfl⟩
    · rcases List.mem_cons.mp ha with rfl | ha
      · rw [h] at hb
        cases hb
      · exact ih ha (m.insert b.1 v)

omit [LawfulEqOrd κ] in
lemma assignAll_const_cases (f : α → Except ε β) (as : List (κ × α)) (m : ExtTreeMap κ β) :
    ((∀ a ∈ as, ∃ v, f a.2 = .ok v) ∧
        assignAll (fun e _ => f e) as m = .ok (overwrite (fun e _ => f e) m as)) ∨
      ((∃ a ∈ as, ∃ e, f a.2 = .error e) ∧
        ∃ e, assignAll (fun e _ => f e) as m = .error e) := by
  by_cases h : ∀ a ∈ as, ∃ v, f a.2 = .ok v
  · exact Or.inl ⟨h, assignAll_const_of_ok h m⟩
  · obtain ⟨a, ha, hno⟩ : ∃ a ∈ as, ¬ ∃ v, f a.2 = .ok v := by
      simpa only [not_forall, exists_prop] using h
    rcases he : f a.2 with e | v
    · exact Or.inr ⟨⟨a, ha, e, he⟩, assignAll_const_of_error ha he m⟩
    · exact absurd ⟨v, he⟩ hno

/-- Such assignments to different keys may be permuted. -/
theorem assignAll_const_perm (hkeys : (as.map Prod.fst).Nodup) (hp : as'.Perm as)
    (m m' : ExtTreeMap κ β) :
    assignAll (fun e _ => f e) as' m = .ok m' ↔ assignAll (fun e _ => f e) as m = .ok m' := by
  rcases assignAll_const_cases f as m with ⟨hall, he⟩ | ⟨⟨a, ha, e, hf⟩, e', he⟩
  · rw [he, assignAll_const_of_ok (fun a ha => hall a (hp.mem_iff.mp ha)), overwrite_perm hkeys hp]
  · obtain ⟨e'', he'⟩ := assignAll_const_of_error (hp.mem_iff.mpr ha) hf m
    rw [he, he']
    exact iff_of_false (by simp) (by simp)

lemma assignAll_const_insert {k : κ} (hk : k ∉ as.map Prod.fst) (v : β) (m : ExtTreeMap κ β) :
    assignAll (fun e _ => f e) as (m.insert k v) =
      (assignAll (fun e _ => f e) as m).map fun m' => m'.insert k v := by
  induction as generalizing m with
  | nil => rfl
  | cons a as ih =>
    obtain ⟨hne, hrest⟩ := List.ne_and_not_mem_of_not_mem_cons hk
    rw [assignAll, assignAll]
    rcases f a.2 with e | u
    · rfl
    · rw [ok_bind, ok_bind, insert_comm m hne, ih hrest]

/-- One more assignment, to another key than the others, comes on top wherever it stands. -/
theorem assignAll_const_insertIdx {a : κ × α} {v : β} (hv : f a.2 = .ok v)
    (ha : a.1 ∉ as.map Prod.fst) {i : ℕ} (hi : i ≤ as.length) (m : ExtTreeMap κ β) :
    assignAll (fun e _ => f e) (as.insertIdx i a) m =
      (assignAll (fun e _ => f e) as m).map fun m' => m'.insert a.1 v := by
  induction as generalizing i m with
  | nil =>
    obtain rfl : i = 0 := Nat.le_zero.mp hi
    rw [List.insertIdx_zero, assignAll, assignAll, hv]
    rfl
  | cons b as ih =>
    cases i with
    | zero =>
      rw [List.insertIdx_zero, assignAll, hv]
      exact assignAll_const_insert ha v m
    | succ i =>
      rw [List.insertIdx_succ_cons, assignAll, assignAll]
      rcases f b.2 with e | u
      · rfl
      · exact ih (List.ne_and_not_mem_of_not_mem_cons ha).2 (Nat.le_of_succ_le_succ hi) _

/-- What is assigned is there. -/
lemma mem_assignAll {eval : α → ExtTreeMap κ β → Except ε β} {m m' : ExtTreeMap κ β} {k : κ}
    (hk : k ∈ as.map Prod.fst ∨ k ∈ m) (h : assignAll eval as m = .ok m') : k ∈ m' := by
  induction as generalizing m with
  | nil =>
    cases h
    exact hk.resolve_left List.not_mem_nil
  | cons a as ih =>
    obtain ⟨v, -, h⟩ := assignAll_cons_eq_ok.mp h
    rw [List.map_cons, List.mem_cons, or_assoc] at hk
    refine ih ?_ h
    rw [mem_insert_iff]
    rcases hk with rfl | hk | hk
    · exact Or.inr (Or.inl rfl)
    · exact Or.inl hk
    · exact Or.inr (Or.inr hk)

end Const

end Dbx4.Assign
