import Dbx4.TxSim

/-!
Transactions over versioned rows commit all at once.

Nobody but the transaction itself sees what it inserts before it commits. So a run shows every
reader what the run shows in which the inserts of a transaction come right before its commit,
and those of one that is rolled back, or not yet at its end, are left out.
-/

namespace Dbx4.TxAtomic

open Dbx4.Runs Dbx4.TxModel Dbx4.TxSim

/-! ### Inserts held back -/

/-- The calls so far, but for the inserts of the active transactions: these are held. -/
structure Deferred where
  log : List Call := []
  began : ℕ := 0
  held : Int32 → Option (List Call) := fun _ => none

def Deferred.step (d : Deferred) : Call → Deferred
  | .begin =>
    { log := d.log ++ [.begin]
      began := d.began + 1
      held := Function.update d.held (Int32.ofNat (d.began + 1)) (some []) }
  | .insert txId t k data =>
    let held := (d.held txId).map (· ++ [.insert txId t k data])
    { d with held := Function.update d.held txId held }
  | .commit txId =>
    { d with
      log := d.log ++ (d.held txId).getD [] ++ [.commit txId]
      held := Function.update d.held txId none }
  | .rollback txId =>
    { d with
      log := d.log ++ [.rollback txId]
      held := Function.update d.held txId none }

/-- The calls with the inserts put off, and behind them the reader's own that are held. -/
def Deferred.shownTo (d : Deferred) (reader : Int32) : List Call :=
  d.log ++ (d.held reader).getD []

/-! ### The store -/

/-- Nothing is pending. -/
def settled (s : Store) : Store := { s with pending := fun _ _ => ∅ }

/-- The calls make pending what the store has pending for the transaction. -/
def Makes (s : Store) (id : Int32) (calls : List Call) : Prop :=
  ∀ s₀ : Store, id ∈ s₀.active → (s₀.pending id = fun _ => ∅) →
    run Store.step s₀ calls =
      { s₀ with pending := Function.update s₀.pending id (s.pending id) }

structure Agrees (s : Store) (d : Deferred) : Prop where
  began : d.began = s.began
  active : ∀ id, id ∈ s.active ↔ (d.held id).isSome
  bound : ∀ id ∈ s.active, id.toInt ≤ s.began
  inactive : ∀ id ∉ s.active, s.pending id = fun _ => ∅
  log : run Store.step {} d.log = settled s
  held : ∀ id calls, d.held id = some calls → Makes s id calls

lemma agrees_nil : Agrees {} {} where
  began := rfl
  active id := by simp
  bound id h := absurd h (Finset.notMem_empty id)
  inactive id _ := rfl
  log := rfl
  held id calls h := by cases h

lemma makes_nil {s : Store} {id : Int32} (h : s.pending id = fun _ => ∅) : Makes s id [] := by
  intro s₀ _ hnone
  have hsame : Function.update s₀.pending id (s.pending id) = s₀.pending := by
    rw [h, ← hnone, Function.update_eq_self]
  rw [hsame, run_nil]

/-- One more insert of the transaction. -/
lemma Makes.concat {s : Store} {id : Int32} {calls : List Call} (h : Makes s id calls)
    (hid : id ∈ s.active) (t k : String) (data : Std.ExtTreeMap String String) :
    Makes (s.step (.insert id t k data)) id (calls ++ [.insert id t k data]) := by
  intro s₀ hactive hnone
  have hpends : id ∈ ({ s₀ with
      pending := Function.update s₀.pending id (s.pending id) } : Store).active := hactive
  rw [run_append, h s₀ hactive hnone, run_cons, run_nil, s.step_insert hid,
    Store.step_insert _ hpends]
  simp only [Function.update_self, Function.update_idem]

/-- What is made pending for one transaction does not depend on the others. -/
lemma Makes.congr {s s' : Store} {id : Int32} {calls : List Call} (h : Makes s id calls)
    (hsame : s'.pending id = s.pending id) : Makes s' id calls := by
  intro s₀ hactive hnone
  rw [h s₀ hactive hnone, hsame]

section Step

variable {s : Store} {d : Deferred} (h : Agrees s d) (id : Int32)

include h

lemma Agrees.begin (hfits : s.began + 1 < 2 ^ 31) : Agrees (s.step .begin) (d.step .begin) := by
  set new := Int32.ofNat (s.began + 1) with hnew
  have hdnew : Int32.ofNat (d.began + 1) = new := by rw [h.began]
  have htoInt : new.toInt = (s.began + 1 : ℕ) := Int32.toInt_ofNat_of_lt hfits
  have hfresh : new ∉ s.active := by
    intro hmem
    have hle := h.bound new hmem
    omega
  constructor
  case began => exact congrArg (· + 1) h.began
  case active =>
    intro id
    simp only [Store.step, Deferred.step, hdnew, ← hnew, Finset.mem_insert]
    by_cases hid : id = new
    · simp [hid]
    · rw [Function.update_of_ne hid, h.active]
      exact or_iff_right hid
  case bound =>
    intro id hid
    simp only [Store.step, ← hnew, Finset.mem_insert] at hid ⊢
    rcases hid with rfl | hid
    · omega
    · have hle := h.bound id hid
      omega
  case inactive => exact fun id hid => h.inactive id fun hmem => hid (Finset.mem_insert_of_mem hmem)
  case log =>
    rw [Deferred.step, run_append, h.log]
    rfl
  case held =>
    intro id calls hheld
    simp only [Deferred.step, hdnew] at hheld
    by_cases hid : id = new
    · subst hid
      rw [Function.update_self] at hheld
      cases hheld
      exact makes_nil (h.inactive _ hfresh)
    · rw [Function.update_of_ne hid] at hheld
      exact (h.held id calls hheld).congr rfl

lemma Agrees.held_eq_none (hid : id ∉ s.active) : d.held id = none := by
  rw [h.active] at hid
  simpa using hid

lemma Agrees.insert (t k : String) (data : Std.ExtTreeMap String String) :
    Agrees (s.step (.insert id t k data)) (d.step (.insert id t k data)) := by
  by_cases hid : id ∈ s.active
  · obtain ⟨calls, hcalls⟩ := Option.isSome_iff_exists.mp ((h.active id).mp hid)
    have hmakes := (h.held id calls hcalls).concat hid t k data
    rw [Store.step_insert s hid] at hmakes ⊢
    rw [Deferred.step, hcalls, Option.map_some]
    constructor
    case began => exact h.began
    case active =>
      intro id'
      dsimp only
      rw [h.active]
      by_cases hne : id' = id
      · subst hne
        simp [hcalls]
      · rw [Function.update_of_ne hne]
    case bound => exact h.bound
    case inactive =>
      intro id' hid'
      have hne : id' ≠ id := fun he => hid' (he ▸ hid)
      exact (Function.update_of_ne hne _ _).trans (h.inactive id' hid')
    case log => exact h.log
    case held =>
      intro id' calls' hheld
      dsimp only at hheld
      by_cases hne : id' = id
      · subst hne
        rw [Function.update_self] at hheld
        cases hheld
        exact hmakes
      · rw [Function.update_of_ne hne] at hheld
        exact (h.held id' calls' hheld).congr (Function.update_of_ne hne _ _)
  · have hs : s.step (.insert id t k data) = s := if_neg hid
    have hd : d.step (.insert id t k data) = d := by
      rw [Deferred.step, h.held_eq_none id hid, Option.map_none, ← h.held_eq_none id hid,
        Function.update_eq_self]
    rw [hs, hd]
    exact h

/-- Behind the end of a transaction, whatever has become of its inserts. -/
lemma Agrees.finish {committed : String → Finset String} {log : List Call}
    (hlog : run Store.step {} log =
      settled { s with active := s.active.erase id, committed := committed }) :
    Agrees { s with
        active := s.active.erase id
        committed := committed
        pending := Function.update s.pending id (fun _ => ∅) }
      { d with log := log, held := Function.update d.held id none } := by
  constructor
  case began => exact h.began
  case active =>
    intro id'
    dsimp only
    rw [Finset.mem_erase, h.active]
    by_cases hne : id' = id
    · simp [hne]
    · rw [Function.update_of_ne hne]
      exact and_iff_right hne
  case bound => exact fun id' hid' => h.bound id' (Finset.mem_of_mem_erase hid')
  case inactive =>
    intro id' hid'
    by_cases hne : id' = id
    · subst hne
      exact Function.update_self ..
    · refine (Function.update_of_ne hne _ _).trans (h.inactive id' fun hmem => hid' ?_)
      exact Finset.mem_erase_of_ne_of_mem hne hmem
  case log => exact hlog
  case held =>
    intro id' calls hheld
    dsimp only at hheld
    have hne : id' ≠ id := by
      rintro rfl
      rw [Function.update_self] at hheld
      cases hheld
    rw [Function.update_of_ne hne] at hheld
    exact (h.held id' calls hheld).congr (Function.update_of_ne hne _ _)

/-- The inserts, and the commit right behind them. -/
lemma Agrees.commit : Agrees (s.step (.commit id)) (d.step (.commit id)) := by
  by_cases hid : id ∈ s.active
  · obtain ⟨calls, hcalls⟩ := Option.isSome_iff_exists.mp ((h.active id).mp hid)
    have hs : s.step (.commit id) = _ := if_pos hid
    rw [hs, Deferred.step, hcalls, Option.getD_some]
    refine h.finish id ?_
    have hmade := h.held id calls hcalls (settled s) hid rfl
    rw [run_append, run_append, h.log, hmade, run_cons, run_nil]
    refine (if_pos hid).trans ?_
    simp only [settled, Function.update_self, Function.update_idem, Function.update_eq_self]
  · have hs : s.step (.commit id) = s := if_neg hid
    have hnone := h.held_eq_none id hid
    have hlog : run Store.step {} (d.log ++ [.commit id]) = settled s := by
      rw [run_append, h.log]
      exact if_neg hid
    rw [hs, Deferred.step, hnone, Option.getD_none, List.append_nil, ← hnone,
      Function.update_eq_self]
    exact { h with log := hlog }

/-- No inserts, and the rollback. -/
lemma Agrees.rollback : Agrees (s.step (.rollback id)) (d.step (.rollback id)) := by
  by_cases hid : id ∈ s.active
  · have hs : s.step (.rollback id) = _ := if_pos hid
    rw [hs, Deferred.step]
    refine h.finish id ?_
    rw [run_append, h.log, run_cons, run_nil]
    refine (if_pos hid).trans ?_
    simp only [settled, Function.update_eq_self]
  · have hs : s.step (.rollback id) = s := if_neg hid
    have hnone := h.held_eq_none id hid
    have hlog : run Store.step {} (d.log ++ [.rollback id]) = settled s := by
      rw [run_append, h.log]
      exact if_neg hid
    rw [hs, Deferred.step, ← hnone, Function.update_eq_self]
    exact { h with log := hlog }

theorem Agrees.step (call : Call) (hfits : call.isBegin → s.began + 1 < 2 ^ 31) :
    Agrees (s.step call) (d.step call) := by
  cases call with
  | begin => exact h.begin (hfits rfl)
  | insert txId t k data => exact h.insert txId t k data
  | commit txId => exact h.commit txId
  | rollback txId => exact h.rollback txId

end Step

/-! ### Runs -/

lemma began_run (s : Store) (calls : List Call) :
    (run Store.step s calls).began = s.began + calls.countP Call.isBegin := by
  induction calls generalizing s with
  | nil => rfl
  | cons call calls ih =>
    rw [run_cons, ih, Store.began_step, List.countP_cons]
    omega

lemma Agrees.run {s : Store} {d : Deferred} (h : Agrees s d) (calls : List Call)
    (hfits : s.began + calls.countP Call.isBegin < 2 ^ 31) :
    Agrees (run Store.step s calls) (run Deferred.step d calls) := by
  induction calls generalizing s d with
  | nil => exact h
  | cons call calls ih =>
    rw [List.countP_cons] at hfits
    refine ih (h.step call fun hcall => ?_) ?_
    · rw [if_pos hcall] at hfits
      omega
    · rw [Store.began_step]
      omega

/-- What the reader is shown of the calls with the inserts put off. -/
lemma Agrees.shownTo {s : Store} {d : Deferred} (h : Agrees s d) (reader : Int32) :
    (Runs.run Store.step {} (d.shownTo reader)).began = s.began ∧
      ∀ t, (Runs.run Store.step {} (d.shownTo reader)).visible reader t = s.visible reader t := by
  unfold Deferred.shownTo
  rw [run_append, h.log]
  by_cases hreader : reader ∈ s.active
  · obtain ⟨calls, hcalls⟩ := Option.isSome_iff_exists.mp ((h.active reader).mp hreader)
    have hmade := h.held reader calls hcalls (settled s) hreader rfl
    rw [hcalls, Option.getD_some, hmade]
    refine ⟨rfl, fun t => ?_⟩
    simp only [Store.visible, settled, if_pos hreader, Function.update_self]
  · rw [h.held_eq_none reader hreader, Option.getD_none, run_nil]
    have hsettled : reader ∉ (settled s).active := hreader
    refine ⟨rfl, fun t => ?_⟩
    rw [Store.visible, Store.visible, if_neg hsettled, if_neg hreader]
    rfl

/-- **Commits are atomic**: every reader counts what it counts behind the calls in which each
transaction inserts right before it commits, and none that does not. -/
theorem commits_atomic (calls : List Call) (hbegin : calls.countP Call.isBegin < 2 ^ 31)
    (reader : Int32) (t : String) :
    (run step {} calls).countVisibleRows reader t =
      (run step {} ((run Deferred.step {} calls).shownTo reader)).countVisibleRows reader t := by
  have hagrees := agrees_nil.run calls (by rwa [Nat.zero_add])
  obtain ⟨hbegan, hvisible⟩ := hagrees.shownTo reader
  have hbegin' : ((run Deferred.step {} calls).shownTo reader).countP Call.isBegin < 2 ^ 31 := by
    rw [began_run, began_run, Nat.zero_add, Nat.zero_add] at hbegan
    rwa [hbegan]
  have hsim := sim_init.run calls (by rwa [Nat.zero_add])
  have hsim' := sim_init.run _ (by rwa [Nat.zero_add])
  rw [hsim.countVisibleRows, hsim'.countVisibleRows, hvisible]

/-- A commit between the inserts of a transaction that goes on, and a rollback. -/
theorem commits_atomic_three :
    (run step {} [.begin, .insert 1 "t" "a" ∅, .begin, .insert 2 "t" "b" ∅, .begin,
        .insert 3 "t" "c" ∅, .commit 2, .insert 1 "t" "b" ∅, .rollback 3]).countVisibleRows 1 "t" =
      (run step {} [.begin, .begin, .begin, .insert 2 "t" "b" ∅, .commit 2, .rollback 3,
        .insert 1 "t" "a" ∅, .insert 1 "t" "b" ∅]).countVisibleRows 1 "t" :=
  commits_atomic _ (by decide) 1 "t"

end Dbx4.TxAtomic
