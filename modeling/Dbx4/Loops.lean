import Mathlib.Data.Nat.Basic
import Mathlib.Data.List.Basic
import Mathlib.Tactic.Common

/-!
While loops, run for a bounded number of turns.

A loop body looks at the state and stops, moves on to the next state, or faults. A loop
returns a value when enough turns give it; the number of turns it is allowed never changes
what it returns.
-/

namespace Dbx4.Loops

universe u v w

variable {σ : Type u} {ε : Type v} {α β : Type w}

/-- What a bounded computation has come to: a value, a fault, or no more turns. -/
inductive Outcome (ε : Type v) (α : Type w)
  | done (a : α)
  | fault (e : ε)
  | pending

def Outcome.bind (o : Outcome ε α) (f : α → Outcome ε β) : Outcome ε β :=
  match o with
  | .done a => f a
  | .fault e => .fault e
  | .pending => .pending

@[simp] lemma done_bind (a : α) (f : α → Outcome ε β) : (Outcome.done a).bind f = f a := rfl

lemma bind_of_eq_done {o : Outcome ε α} {a : α} (h : o = .done a) (f : α → Outcome ε β) :
    o.bind f = f a := by rw [h, done_bind]

/-- Runs `body` for at most `fuel` turns; the body answers `none` to leave the loop. -/
def loop (body : σ → Except ε (Option σ)) : ℕ → σ → Outcome ε σ
  | 0, _ => .pending
  | fuel + 1, s =>
    match body s with
    | .error e => .fault e
    | .ok none => .done s
    | .ok (some s') => loop body fuel s'

/-- Enough fuel gives the value `a`. -/
def Returns (f : ℕ → Outcome ε α) (a : α) : Prop := ∃ n, ∀ m, n ≤ m → f m = .done a

lemma returns_const (a : α) : Returns (fun _ => (Outcome.done a : Outcome ε α)) a :=
  ⟨0, fun _ _ => rfl⟩

lemma eventually_of_succ {p : ℕ → Prop} (h : ∃ n, ∀ m, n ≤ m → p (m + 1)) :
    ∃ n, ∀ m, n ≤ m → p m := by
  obtain ⟨n, hn⟩ := h
  refine ⟨n + 1, fun m hm => ?_⟩
  obtain ⟨k, rfl⟩ : ∃ k, m = k + 1 := ⟨m - 1, by omega⟩
  exact hn k (by omega)

lemma Returns.of_succ {f : ℕ → Outcome ε α} {a : α} (h : Returns (fun n => f (n + 1)) a) :
    Returns f a := eventually_of_succ h

lemma Returns.unique {f : ℕ → Outcome ε α} {a b : α} (ha : Returns f a) (hb : Returns f b) :
    a = b := by
  obtain ⟨n, hn⟩ := ha
  obtain ⟨m, hm⟩ := hb
  have h := (hn (max n m) (le_max_left n m)).symm.trans (hm (max n m) (le_max_right n m))
  exact Outcome.done.inj h

lemma Returns.bind {f : ℕ → Outcome ε α} {g : ℕ → α → Outcome ε β} {a : α} {b : β}
    (hf : Returns f a) (hg : Returns (fun n => g n a) b) :
    Returns (fun n => (f n).bind (g n)) b := by
  obtain ⟨n, hn⟩ := hf
  obtain ⟨m, hm⟩ := hg
  refine ⟨max n m, fun k hk => ?_⟩
  simp only [hn k (le_trans (le_max_left n m) hk), done_bind]
  exact hm k (le_trans (le_max_right n m) hk)

/-- Enough fuel gives the fault `e`. -/
def Throws (f : ℕ → Outcome ε α) (e : ε) : Prop := ∃ n, ∀ m, n ≤ m → f m = .fault e

lemma Throws.bind {f : ℕ → Outcome ε α} {e : ε} (h : Throws f e) (g : α → Outcome ε β) :
    Throws (fun n => (f n).bind g) e := by
  obtain ⟨n, hn⟩ := h
  exact ⟨n, fun m hm => by simp only [hn m hm, Outcome.bind]⟩

section Body

variable {body : σ → Except ε (Option σ)}

lemma returns_stop {s : σ} (h : body s = .ok none) : Returns (fun n => loop body n s) s := by
  refine eventually_of_succ ⟨0, fun m _ => ?_⟩
  simp [loop, h]

lemma returns_step {s s' t : σ} (h : body s = .ok (some s'))
    (ht : Returns (fun n => loop body n s') t) : Returns (fun n => loop body n s) t := by
  obtain ⟨n, hn⟩ := ht
  refine eventually_of_succ ⟨n, fun m hm => ?_⟩
  simp only [loop, h]
  exact hn m hm

lemma throws_fault {s : σ} {e : ε} (h : body s = .error e) :
    Throws (fun n => loop body n s) e := by
  refine eventually_of_succ ⟨0, fun m _ => ?_⟩
  simp [loop, h]

lemma throws_step {s s' : σ} {e : ε} (h : body s = .ok (some s'))
    (ht : Throws (fun n => loop body n s') e) : Throws (fun n => loop body n s) e := by
  obtain ⟨n, hn⟩ := ht
  refine eventually_of_succ ⟨n, fun m hm => ?_⟩
  simp only [loop, h]
  exact hn m hm

lemma Returns.not_throws {f : ℕ → Outcome ε α} {a : α} {e : ε} (h : Returns f a) :
    ¬Throws f e := by
  rintro ⟨m, hm⟩
  obtain ⟨n, hn⟩ := h
  have h := (hn (max n m) (le_max_left n m)).symm.trans (hm (max n m) (le_max_right n m))
  cases h

/-- Two states that the body moves on from in the same way. -/
lemma loop_congr {s s' : σ} (h : body s = body s') (hmove : body s ≠ .ok none) (fuel : ℕ) :
    loop body fuel s = loop body fuel s' := by
  cases fuel with
  | zero => rfl
  | succ fuel =>
    unfold loop
    rw [← h]
    rcases hb : body s with e | _ | t
    · rfl
    · exact absurd hb hmove
    · rfl

/-! #### Loops on related states -/

variable {f : σ → σ}

/-- A map of states that the body goes along with. -/
lemma returns_map (hbody : ∀ s o, body s = .ok o → body (f s) = .ok (o.map f)) {s t : σ}
    (h : Returns (fun n => loop body n s) t) : Returns (fun n => loop body n (f s)) (f t) := by
  obtain ⟨n, hn⟩ := h
  have hrun : loop body n s = .done t := hn n le_rfl
  clear hn
  induction n generalizing s with
  | zero => cases hrun
  | succ n ih =>
    rw [loop] at hrun
    rcases hb : body s with e | _ | s'
    · rw [hb] at hrun
      cases hrun
    · rw [hb] at hrun
      cases hrun
      exact returns_stop (hbody _ none hb)
    · rw [hb] at hrun
      exact returns_step (hbody s (some s') hb) (ih hrun)

lemma throws_map (hbody : ∀ s o, body s = .ok o → body (f s) = .ok (o.map f))
    (herror : ∀ s e, body s = .error e → ∃ e', body (f s) = .error e') {s : σ} {e : ε}
    (h : Throws (fun n => loop body n s) e) : ∃ e', Throws (fun n => loop body n (f s)) e' := by
  obtain ⟨n, hn⟩ := h
  have hrun : loop body n s = .fault e := hn n le_rfl
  clear hn
  induction n generalizing s with
  | zero => cases hrun
  | succ n ih =>
    rw [loop] at hrun
    rcases hb : body s with e' | _ | s'
    · obtain ⟨e', he'⟩ := herror s e' hb
      exact ⟨e', throws_fault he'⟩
    · rw [hb] at hrun
      cases hrun
    · rw [hb] at hrun
      obtain ⟨e', he'⟩ := ih hrun
      exact ⟨e', throws_step (hbody s (some s') hb) he'⟩

/-- The states in which the body is entered. -/
inductive Reaches (body : σ → Except ε (Option σ)) (s : σ) : σ → Prop
  | start : Reaches body s s
  | turn {t t' : σ} : Reaches body s t → body t = .ok (some t') → Reaches body s t'

/-- **Invariants of a loop**: what every turn preserves holds in every state reached. -/
theorem Reaches.inv {s t : σ} {P : σ → Prop} (h : Reaches body s t) (h0 : P s)
    (hturn : ∀ t t', P t → body t = .ok (some t') → P t') : P t := by
  induction h with
  | start => exact h0
  | turn _ hb ih => exact hturn _ _ ih hb

lemma Reaches.of_turn {s s' t : σ} (h : body s = .ok (some s')) (ht : Reaches body s' t) :
    Reaches body s t := by
  induction ht with
  | start => exact .turn .start h
  | turn _ hb ih => exact .turn ih hb

/-- A loop ends as it does from a state that it has reached. -/
lemma Reaches.returns {s t u : σ} (h : Reaches body s t)
    (ht : Returns (fun n => loop body n t) u) : Returns (fun n => loop body n s) u := by
  induction h with
  | start => exact ht
  | turn _ hb ih => exact ih (returns_step hb ht)

lemma Reaches.throws {s t : σ} {e : ε} (h : Reaches body s t)
    (ht : Throws (fun n => loop body n t) e) : Throws (fun n => loop body n s) e := by
  induction h with
  | start => exact ht
  | turn _ hb ih => exact ih (throws_step hb ht)

/-- **Loops that settle**: a loop whose turns make something smaller faults, or leaves in a
state that it has reached. -/
theorem throws_or_returns (size : σ → ℕ)
    (hsize : ∀ s s', body s = .ok (some s') → size s' < size s) (s : σ) :
    (∃ e, Throws (fun n => loop body n s) e) ∨
      ∃ t, Returns (fun n => loop body n s) t ∧ Reaches body s t ∧ body t = .ok none := by
  induction hn : size s using Nat.strong_induction_on generalizing s with
  | _ n ih =>
    rcases hb : body s with e | _ | s'
    · exact .inl ⟨e, throws_fault hb⟩
    · exact .inr ⟨s, returns_stop hb, .start, hb⟩
    · rcases ih (size s') (hn ▸ hsize s s' hb) s' rfl with ⟨e, he⟩ | ⟨t, ht, hreach, hstop⟩
      · exact .inl ⟨e, throws_step hb he⟩
      · exact .inr ⟨t, returns_step hb ht, hreach.of_turn hb, hstop⟩

end Body

end Dbx4.Loops
