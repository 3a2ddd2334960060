import Mathlib.Data.List.Basic
import Mathlib.Data.List.Forall2
import Mathlib.Tactic.Common

/-!
Loops over a vector whose body may throw, with what they leave behind.

The body sees the state, an element, and the elements behind it. What it did to the state
before it threw stays, and the elements behind the one where it threw stay unvisited.
-/

namespace Dbx4.ForEach

universe u v w

variable {σ : Type u} {α : Type v} {ε : Type w}

/-- What a loop leaves behind. -/
structure Left (σ : Type u) (α : Type v) (ε : Type w) where
  thrown : Option ε
  state : σ
  unvisited : List α

def forEach (body : σ → α → List α → Option ε × σ) : σ → List α → Left σ α ε
  | s, [] => ⟨none, s, []⟩
  | s, x :: xs =>
    match body s x xs with
    | (some e, s') => ⟨some e, s', xs⟩
    | (none, s') => forEach body s' xs

/-- The loop gets from one state and list to another without an exception. -/
inductive Passes (body : σ → α → List α → Option ε × σ) : σ → List α → σ → List α → Prop
  | refl (s : σ) (xs : List α) : Passes body s xs s xs
  | step {s s' t : σ} {x : α} {xs ys : List α} :
    body s x xs = (none, s') → Passes body s' xs t ys → Passes body s (x :: xs) t ys

/-- The loop throws at the element `x`, after `pre`. -/
def ThrowsAt (body : σ → α → List α → Option ε × σ) (s : σ) (xs pre : List α) (x : α)
    (post : List α) : Prop :=
  xs = pre ++ x :: post ∧ ∃ s', Passes body s xs s' (x :: post) ∧ (body s' x post).1.isSome

variable {body : σ → α → List α → Option ε × σ}

/-- A turn that does not throw. -/
lemma forEach_cons_of_none {s s' : σ} {x : α} {xs : List α} (h : body s x xs = (none, s')) :
    forEach body s (x :: xs) = forEach body s' xs := by
  rw [forEach, h]

/-- **Invariants of a loop** up to where it ends or throws. -/
theorem Passes.inv {P : σ → List α → Prop}
    (hstep : ∀ s x xs s', P s (x :: xs) → body s x xs = (none, s') → P s' xs)
    {s t : σ} {xs ys : List α} (h : Passes body s xs t ys) (h0 : P s xs) : P t ys := by
  induction h with
  | refl => exact h0
  | step hbody _ ih => exact ih (hstep _ _ _ _ h0 hbody)

/-- What is left to visit is the end of the list. -/
lemma Passes.suffix {s t : σ} {xs ys : List α} (h : Passes body s xs t ys) : ys <:+ xs := by
  induction h with
  | refl s xs => exact List.suffix_refl xs
  | step _ _ ih => exact ih.trans (List.suffix_cons _ _)

/-- A loop ends, or it throws at one of its elements. -/
theorem forEach_cases (body : σ → α → List α → Option ε × σ) (s : σ) (xs : List α) :
    (∃ t, Passes body s xs t [] ∧ forEach body s xs = ⟨none, t, []⟩) ∨
      ∃ pre x post, ThrowsAt body s xs pre x post := by
  induction xs generalizing s with
  | nil => exact Or.inl ⟨s, .refl s [], rfl⟩
  | cons x xs ih =>
    rcases hbody : body s x xs with ⟨_ | e, s'⟩
    · rw [forEach_cons_of_none hbody]
      rcases ih s' with ⟨t, ht, he⟩ | ⟨pre, y, post, hxs, t, ht, hy⟩
      · exact Or.inl ⟨t, .step hbody ht, he⟩
      · exact Or.inr ⟨x :: pre, y, post, by rw [hxs, List.cons_append], t, .step hbody ht, hy⟩
    · exact Or.inr ⟨[], x, xs, rfl, s, .refl _ _, by simp [hbody]⟩

/-- What a loop leaves behind that throws at `x`. -/
theorem ThrowsAt.forEach {s : σ} {xs pre post : List α} {x : α}
    (h : ThrowsAt body s xs pre x post) :
    ∃ t e t', Passes body s xs t (x :: post) ∧ body t x post = (some e, t') ∧
      forEach body s xs = ⟨some e, t', post⟩ := by
  obtain ⟨-, t, ht, hthrown⟩ := h
  obtain ⟨e, he⟩ := Option.isSome_iff_exists.mp hthrown
  refine ⟨t, e, (body t x post).2, ht, Prod.ext he rfl, ?_⟩
  clear hthrown
  generalize hys : x :: post = ys at ht
  induction ht with
  | refl s xs =>
    subst hys
    rw [ForEach.forEach]
    rcases hbody : body s x post with ⟨_ | e', s'⟩ <;> rw [hbody] at he <;> cases he
    rfl
  | step hbody _ ih =>
    rw [forEach_cons_of_none hbody]
    exact ih he hys

theorem thrown_isSome_iff {s : σ} {xs : List α} :
    (ForEach.forEach body s xs).thrown.isSome ↔ ∃ pre x post, ThrowsAt body s xs pre x post := by
  refine ⟨fun h => ?_, fun ⟨pre, x, post, h⟩ => ?_⟩
  · rcases forEach_cases body s xs with ⟨t, -, he⟩ | h'
    · rw [he] at h
      cases h
    · exact h'
  · obtain ⟨t, e, t', -, -, he⟩ := h.forEach
    rw [he]
    rfl

/-- What a loop leaves unvisited is what is behind the element it throws at. -/
lemma mem_unvisited_iff {s : σ} {xs : List α} {y : α} :
    y ∈ (ForEach.forEach body s xs).unvisited ↔
      ∃ pre x post, ThrowsAt body s xs pre x post ∧ y ∈ post := by
  constructor
  · intro hy
    rcases forEach_cases body s xs with ⟨t, -, he⟩ | ⟨pre, x, post, h⟩
    · rw [he] at hy
      cases hy
    · obtain ⟨t, e, t', -, -, he⟩ := h.forEach
      rw [he] at hy
      exact ⟨pre, x, post, h, hy⟩
  · rintro ⟨pre, x, post, h, hy⟩
    obtain ⟨t, e, t', -, -, he⟩ := h.forEach
    rwa [he]

/-- What holds of a loop that throws holds exactly when it holds wherever it may throw. -/
theorem thrown_imp_iff {s : σ} {xs : List α} {P : Prop} {Q : List α → α → Prop}
    (h : ∀ pre x post, ThrowsAt body s xs pre x post → (P ↔ Q pre x)) :
    ((ForEach.forEach body s xs).thrown.isSome → P) ↔
      ∀ pre x post, ThrowsAt body s xs pre x post → Q pre x := by
  rw [thrown_isSome_iff]
  refine ⟨fun hP pre x post ht => (h pre x post ht).mp (hP ⟨pre, x, post, ht⟩), ?_⟩
  rintro hQ ⟨pre, x, post, ht⟩
  exact (h pre x post ht).mpr (hQ pre x post ht)

/-- **Invariants of a loop** that a throwing body keeps too. -/
theorem forEach_inv {P : σ → List α → Prop}
    (hstep : ∀ s x xs, P s (x :: xs) → P (body s x xs).2 xs) {s : σ} {xs : List α} (h0 : P s xs) :
    P (ForEach.forEach body s xs).state (ForEach.forEach body s xs).unvisited := by
  have hpass : ∀ {t ys}, Passes body s xs t ys → P t ys := fun h =>
    h.inv (fun s x xs s' hP hbody => by simpa [hbody] using hstep s x xs hP) h0
  rcases forEach_cases body s xs with ⟨t, ht, he⟩ | ⟨pre, x, post, h⟩
  · rw [he]
    exact hpass ht
  · obtain ⟨t, e, t', ht, hthrow, he⟩ := h.forEach
    have := hstep t x post (hpass ht)
    rw [hthrow] at this
    rw [he]
    exact this

/-- **What holds behind a loop**: what every turn keeps exactly when it meets a condition holds
behind the loop exactly when every turn that is taken meets it. -/
theorem forEach_iff {P : σ → Prop} {F : σ → α → Prop}
    (hstep : ∀ s x xs, P (body s x xs).2 ↔ P s ∧ F s x) (s : σ) (xs : List α) :
    P (ForEach.forEach body s xs).state ↔
      P s ∧ ∀ t x post, Passes body s xs t (x :: post) → F t x := by
  induction xs generalizing s with
  | nil => exact ⟨fun h => ⟨h, fun t x post ht => nomatch ht⟩, And.left⟩
  | cons x xs ih =>
    have hturn := hstep s x xs
    rcases hbody : body s x xs with ⟨_ | e, s'⟩ <;> rw [hbody] at hturn
    · rw [forEach_cons_of_none hbody, ih s', hturn, and_assoc]
      refine and_congr_right fun _ => ⟨fun ⟨hF, hrest⟩ t y post ht => ?_, fun h => ⟨?_, ?_⟩⟩
      · cases ht with
        | refl => exact hF
        | step hbody' ht =>
          rw [hbody] at hbody'
          cases hbody'
          exact hrest t y post ht
      · exact h s x xs (.refl _ _)
      · exact fun t y post ht => h t y post (.step hbody ht)
    · rw [show (ForEach.forEach body s (x :: xs)).state = s' by simp [ForEach.forEach, hbody],
        hturn]
      refine and_congr_right fun _ => ⟨fun hF t y post ht => ?_, fun h => h s x xs (.refl _ _)⟩
      cases ht with
      | refl => exact hF
      | step hbody' => rw [hbody] at hbody'; cases hbody'

/-- **Two loops in step**: bodies that throw alike and leave the same state on related elements
make loops that do. -/
theorem forEach_forall₂ {α' : Type v} {ε' : Type w} {body' : σ → α' → List α' → Option ε' × σ}
    {R : α → α' → Prop} {T : Option ε → Option ε' → Prop} (hnone : T none none)
    (hT : ∀ o o', T o o' → o.isSome = o'.isSome)
    (hbody : ∀ s x x' xs xs', R x x' →
      T (body s x xs).1 (body' s x' xs').1 ∧ (body s x xs).2 = (body' s x' xs').2)
    {xs : List α} {xs' : List α'} (h : List.Forall₂ R xs xs') (s : σ) :
    T (ForEach.forEach body s xs).thrown (ForEach.forEach body' s xs').thrown ∧
      (ForEach.forEach body s xs).state = (ForEach.forEach body' s xs').state := by
  induction h generalizing s with
  | nil => exact ⟨hnone, rfl⟩
  | @cons x x' xs xs' hx _ ih =>
    obtain ⟨hthrown, hstate⟩ := hbody s x x' xs xs' hx
    have hsome := hT _ _ hthrown
    rw [ForEach.forEach, ForEach.forEach]
    rcases hb : body s x xs with ⟨_ | e, t⟩ <;>
      rcases hb' : body' s x' xs' with ⟨_ | e', t'⟩ <;> rw [hb, hb'] at hthrown hstate hsome
    · obtain rfl : t = t' := hstate
      exact ih t
    · cases hsome
    · cases hsome
    · exact ⟨hthrown, hstate⟩

/-- **Invariants about the elements visited**, up to where the loop ends or throws. -/
theorem Passes.visited {P : List α → σ → Prop}
    (hstep : ∀ pre s x xs s', P pre s → body s x xs = (none, s') → P (pre ++ [x]) s')
    {s t : σ} {pre xs : List α} (h : Passes body s (pre ++ xs) t xs) (h0 : P [] s) : P pre t := by
  have hinv := h.inv (P := fun s ys => ∃ zs, pre ++ xs = zs ++ ys ∧ P zs s)
    (fun s x ys s' ⟨zs, hzs, hP⟩ hbody => ⟨zs ++ [x], by simp [hzs], hstep zs s x ys s' hP hbody⟩)
    ⟨[], rfl, h0⟩
  obtain ⟨zs, hzs, hP⟩ := hinv
  exact List.append_cancel_right hzs ▸ hP

/-! ### Loops in two parts -/

section Append

variable (h : ∀ s x xs xs', body s x xs = body s x xs')

include h

/-- A loop whose body does not look at the elements behind, over two lists. -/
theorem forEach_append_of_none {s : σ} {xs : List α} (hxs : (forEach body s xs).thrown = none)
    (ys : List α) : forEach body s (xs ++ ys) = forEach body (forEach body s xs).state ys := by
  induction xs generalizing s with
  | nil => rfl
  | cons x xs ih =>
    rw [List.cons_append]
    rcases hbody : body s x xs with ⟨_ | e, s'⟩
    · rw [forEach_cons_of_none hbody] at hxs ⊢
      rw [forEach_cons_of_none ((h s x (xs ++ ys) xs).trans hbody), ih hxs]
    · rw [forEach, hbody] at hxs
      cases hxs

theorem forEach_append_of_some {s : σ} {xs : List α} {e : ε}
    (hxs : (forEach body s xs).thrown = some e) (ys : List α) :
    (forEach body s (xs ++ ys)).thrown = some e ∧
      (forEach body s (xs ++ ys)).state = (forEach body s xs).state := by
  induction xs generalizing s with
  | nil => cases hxs
  | cons x xs ih =>
    rw [List.cons_append]
    have hrest := h s x (xs ++ ys) xs
    rcases hbody : body s x xs with ⟨_ | e', s'⟩
    · rw [forEach_cons_of_none hbody] at hxs ⊢
      rw [forEach_cons_of_none (hrest.trans hbody)]
      exact ih hxs
    · rw [forEach, hbody] at hxs
      rw [forEach, forEach, hrest, hbody]
      exact ⟨hxs, rfl⟩

end Append

/-! ### Filtering with a test that may throw -/

section Filter

variable {γ : Type} {p : γ → Except ε Bool}

lemma filterM_of_ok {f : γ → Bool} {xs : List γ} (h : ∀ x ∈ xs, p x = .ok (f x)) :
    xs.filterM p = .ok (xs.filter f) := by
  have haux (acc : List γ) : xs.filterAuxM p acc = .ok ((xs.filter f).reverse ++ acc) := by
    induction xs generalizing acc with
    | nil => rfl
    | cons x xs ih =>
      rw [List.forall_mem_cons] at h
      rw [List.filterAuxM, h.1]
      refine (ih h.2 _).trans ?_
      cases hx : f x <;> simp [hx]
  rw [List.filterM, haux, List.append_nil]
  exact congrArg Except.ok (List.reverse_reverse _)

lemma filterM_cons_of_error {x : γ} {e : ε} (h : p x = .error e) (xs : List γ) :
    (x :: xs).filterM p = .error e := by
  rw [List.filterM, List.filterAuxM, h]
  rfl

/-- What the test throws first. -/
def firstError (p : γ → Except ε Bool) (xs : List γ) : Option ε :=
  xs.findSome? fun x => match p x with
    | .error e => some e
    | .ok _ => none

lemma firstError_cons_of_ok {x : γ} {b : Bool} (h : p x = .ok b) (xs : List γ) :
    firstError p (x :: xs) = firstError p xs := by
  rw [firstError, List.findSome?_cons, h, firstError]

lemma firstError_cons_of_error {x : γ} {e : ε} (h : p x = .error e) (xs : List γ) :
    firstError p (x :: xs) = some e := by
  rw [firstError, List.findSome?_cons, h]

lemma firstError_eq_none_iff {xs : List γ} :
    firstError p xs = none ↔ ∀ x ∈ xs, ∃ b, p x = .ok b := by
  rw [firstError, List.findSome?_eq_none_iff]
  refine forall_congr' fun x => forall_congr' fun _ => ?_
  rcases p x with e | b
  · simp
  · simp

/-- A filter throws what its test throws first. -/
lemma filterM_eq_error {xs : List γ} {e : ε} (h : firstError p xs = some e) :
    xs.filterM p = .error e := by
  have haux (acc : List γ) : xs.filterAuxM p acc = .error e := by
    induction xs generalizing acc with
    | nil => cases h
    | cons x xs ih =>
      rcases hx : p x with e' | b
      · rw [firstError_cons_of_error hx] at h
        rw [List.filterAuxM, hx, Option.some.inj h]
        rfl
      · rw [firstError_cons_of_ok hx] at h
        rw [List.filterAuxM, hx]
        exact ih h _
  rw [List.filterM, haux]
  rfl

end Filter

/-! ### Results that agree -/

section Agree

variable {γ δ γ' δ' : Type} {R : γ → δ → Prop} {R' : γ' → δ' → Prop}

/-- The same exception, or values that are related. -/
inductive Agree (R : γ → δ → Prop) : Except ε γ → Except ε δ → Prop
  | error (e : ε) : Agree R (.error e) (.error e)
  | ok {c : γ} {d : δ} : R c d → Agree R (.ok c) (.ok d)

lemma Agree.bind {x : Except ε γ} {y : Except ε δ} {f : γ → Except ε γ'} {g : δ → Except ε δ'}
    (h : Agree R x y) (hfg : ∀ c d, R c d → Agree R' (f c) (g d)) :
    Agree R' (x >>= f) (y >>= g) := by
  cases h with
  | error e => exact .error e
  | ok hcd => exact hfg _ _ hcd

lemma agree_refl (x : Except ε γ) : Agree Eq x x := by
  rcases x with e | c
  · exact .error e
  · exact .ok rfl

lemma Agree.eq {x y : Except ε γ} (h : Agree Eq x y) : x = y := by
  cases h with
  | error e => rfl
  | ok hcd => rw [hcd]

/-- Filters whose tests say the same of related elements. -/
lemma filterM_agree {p : γ → Except ε Bool} {q : δ → Except ε Bool}
    (hpq : ∀ c d, R c d → p c = q d) {xs : List γ} {ys : List δ} (h : List.Forall₂ R xs ys) :
    Agree (List.Forall₂ R) (xs.filterM p) (ys.filterM q) := by
  have haux {acc : List γ} {acc' : List δ} (hacc : List.Forall₂ R acc acc') :
      Agree (List.Forall₂ R) (xs.filterAuxM p acc) (ys.filterAuxM q acc') := by
    induction h generalizing acc acc' with
    | nil => exact .ok hacc
    | @cons c d xs ys hcd _ ih =>
      rw [List.filterAuxM, List.filterAuxM, hpq c d hcd]
      refine (agree_refl (q d)).bind fun b b' hb => ?_
      subst hb
      rcases b with _ | _
      · exact ih hacc
      · exact ih (.cons hcd hacc)
  exact (haux .nil).bind fun c d hcd => .ok (List.rel_reverse hcd)

end Agree

end Dbx4.ForEach
