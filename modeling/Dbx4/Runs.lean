import Mathlib.Data.Nat.Basic
import Mathlib.Data.List.Basic
import Mathlib.Tactic.Common

/-!
Runs of a system that takes one input after another.

What every step preserves holds after every run; when only the steps that meet a condition
preserve it, it holds after every run whose steps all meet the condition.
-/

namespace Dbx4.Runs

universe u v w x y

variable {σ : Type u} {τ : Type v} {ι : Type w} (step : σ → ι → σ)

/-- The state after the inputs `is`. -/
def run (s : σ) (is : List ι) : σ := is.foldl step s

@[simp] lemma run_nil (s : σ) : run step s [] = s := rfl
@[simp] lemma run_cons (s : σ) (i : ι) (is : List ι) :
    run step s (i :: is) = run step (step s i) is := rfl
@[simp] lemma run_append (s : σ) (is js : List ι) :
    run step s (is ++ js) = run step (run step s is) js := by
  simp [run, List.foldl_append]

/-- The last input with a property, when one more comes. -/
lemma getLast?_filter_concat (p : ι → Bool) (is : List ι) (i : ι) :
    ((is ++ [i]).filter p).getLast? = if p i then some i else (is.filter p).getLast? := by
  rw [List.getLast?_filter, List.getLast?_filter, List.reverse_concat]
  split_ifs with hi
  · exact List.find?_cons_of_pos hi
  · exact List.find?_cons_of_neg hi

/-- What is picked out of the inputs, when one more comes. -/
lemma filterMap_concat_of_none {β : Type x} {f : ι → Option β} {i : ι} (h : f i = none)
    (is : List ι) : (is ++ [i]).filterMap f = is.filterMap f := by
  rw [List.filterMap_append, List.filterMap_cons_none h, List.filterMap_nil, List.append_nil]

lemma filterMap_concat_of_some {β : Type x} {f : ι → Option β} {i : ι} {b : β} (h : f i = some b)
    (is : List ι) : (is ++ [i]).filterMap f = is.filterMap f ++ [b] := by
  rw [List.filterMap_append, List.filterMap_cons_some h, List.filterMap_nil]

/-- Every input meets the condition `ok` in the state it is given to. -/
def Along (ok : σ → ι → Prop) : σ → List ι → Prop
  | _, [] => True
  | s, i :: is => ok s i ∧ Along ok (step s i) is

variable {step} {ok : σ → ι → Prop}

lemma along_append {s : σ} {is js : List ι} :
    Along step ok s (is ++ js) ↔ Along step ok s is ∧ Along step ok (run step s is) js := by
  induction is generalizing s with
  | nil => simp [Along]
  | cons i is ih => simp [Along, ih, and_assoc]

lemma along_iff {s : σ} {is : List ι} :
    Along step ok s is ↔ ∀ pre i post, is = pre ++ i :: post → ok (run step s pre) i := by
  refine ⟨?_, fun h => ?_⟩
  · rintro h pre i post rfl
    exact (along_append.mp h).2.1
  · induction is generalizing s with
    | nil => trivial
    | cons i is ih =>
      refine ⟨h [] i is rfl, ih fun pre j post he => ?_⟩
      simpa using h (i :: pre) j post (by simp [he])

/-- A condition on the inputs alone. -/
lemma along_iff_forall_mem {P : ι → Prop} (h : ∀ s i, ok s i ↔ P i) {s : σ} {is : List ι} :
    Along step ok s is ↔ ∀ i ∈ is, P i := by
  induction is generalizing s with
  | nil => simp [Along]
  | cons i is ih => rw [Along, h, ih, List.forall_mem_cons]

/-- The state is the inputs so far. -/
@[simp] lemma run_concat (is js : List ι) : run (fun is i => is ++ [i]) is js = is ++ js := by
  induction js generalizing is with
  | nil => simp
  | cons j js ih => rw [run_cons, ih, List.append_assoc, List.singleton_append]

/-- A condition on the inputs and those before them. -/
lemma along_concat_iff {ok : List ι → ι → Prop} {is : List ι} :
    Along (fun is i => is ++ [i]) ok [] is ↔ ∀ pre i post, is = pre ++ i :: post → ok pre i := by
  rw [along_iff]
  simp only [run_concat, List.nil_append]

/-- **Invariants of a run** whose steps all meet the condition `ok`. -/
theorem run_inv_along {P : σ → Prop} (hstep : ∀ s i, P s → ok s i → P (step s i))
    {s : σ} {is : List ι} (h0 : P s) (his : Along step ok s is) : P (run step s is) := by
  induction is generalizing s with
  | nil => exact h0
  | cons i is ih => exact ih (hstep s i h0 his.1) his.2

theorem run_inv {P : σ → Prop} (hstep : ∀ s i, P s → P (step s i)) {s : σ} (h0 : P s)
    (is : List ι) : P (run step s is) := by
  induction is generalizing s with
  | nil => exact h0
  | cons i is ih => exact ih (hstep s i h0)

/-- Conditions that agree where the invariant holds, and keep it, agree along a run. -/
theorem along_congr {ok' : σ → ι → Prop} {P : σ → Prop} (hstep : ∀ s i, P s → ok s i → P (step s i))
    (hok : ∀ s i, P s → (ok s i ↔ ok' s i)) {s : σ} (h0 : P s) (is : List ι) :
    Along step ok s is ↔ Along step ok' s is := by
  induction is generalizing s with
  | nil => exact Iff.rfl
  | cons i is ih =>
    unfold Along
    rw [← hok s i h0]
    exact and_congr_right fun hi => ih (hstep s i h0 hi)

/-- A property holds in every state that the inputs `is` lead through. -/
def Always (step : σ → ι → σ) (P : σ → Prop) (s : σ) (is : List ι) : Prop :=
  ∀ pre post, is = pre ++ post → P (run step s pre)

/-- **When a property holds all along a run**: when every step meets the condition under which
a step keeps it. -/
theorem always_iff_along {P : σ → Prop} (hstep : ∀ s i, P s → (P (step s i) ↔ ok s i)) {s : σ}
    {is : List ι} (h0 : P s) : Always step P s is ↔ Along step ok s is := by
  refine ⟨fun h => along_iff.mpr ?_, ?_⟩
  · rintro pre i post rfl
    have hafter := h (pre ++ [i]) post (by simp)
    rw [run_append, run_cons, run_nil] at hafter
    exact (hstep _ i (h pre (i :: post) rfl)).mp hafter
  · rintro h pre post rfl
    exact run_inv_along (fun s i hs hok => (hstep s i hs).mpr hok) h0 (along_append.mp h).1

omit ok in
lemma always_cons {P : σ → Prop} {s : σ} {i : ι} {is : List ι} :
    Always step P s (i :: is) ↔ P s ∧ Always step P (step s i) is := by
  constructor
  · refine fun h => ⟨h [] (i :: is) rfl, ?_⟩
    rintro pre post rfl
    exact h (i :: pre) post rfl
  · rintro ⟨h0, hrest⟩ pre post he
    rcases List.cons_eq_append_iff.mp he with ⟨rfl, -⟩ | ⟨pre, rfl, hpre⟩
    · exact h0
    · exact hrest pre post hpre

/-- The same beside an invariant that the steps which meet the condition keep. -/
theorem always_iff_along_of_inv {P Q : σ → Prop}
    (hstep : ∀ s i, P s → Q s → (P (step s i) ↔ ok s i))
    (hinv : ∀ s i, P s → Q s → ok s i → Q (step s i)) {s : σ} {is : List ι} (h0 : P s)
    (hQ0 : Q s) : Always step P s is ↔ Along step ok s is := by
  induction is generalizing s with
  | nil =>
    refine iff_of_true (fun pre post he => ?_) trivial
    obtain ⟨rfl, -⟩ := List.append_eq_nil_iff.mp he.symm
    exact h0
  | cons i is ih =>
    rw [always_cons, Along, ← hstep s i h0 hQ0, and_iff_right h0]
    constructor
    · intro h
      have hP := h [] is rfl
      exact ⟨hP, (ih hP (hinv s i h0 hQ0 ((hstep s i h0 hQ0).mp hP))).mp h⟩
    · rintro ⟨hP, h⟩
      exact (ih hP (hinv s i h0 hQ0 ((hstep s i h0 hQ0).mp hP))).mpr h

/-- **Simulation**: two systems that stay related step by step stay related along a run. -/
theorem run_sim_along {step' : τ → ι → τ} {R : σ → τ → Prop}
    (hstep : ∀ s t i, R s t → ok s i → R (step s i) (step' t i)) {s : σ} {t : τ}
    {is : List ι} (h0 : R s t) (his : Along step ok s is) :
    R (run step s is) (run step' t is) := by
  induction is generalizing s t with
  | nil => exact h0
  | cons i is ih => exact ih (hstep s t i h0 his.1) his.2

theorem run_sim {step' : τ → ι → τ} {R : σ → τ → Prop}
    (hstep : ∀ s t i, R s t → R (step s i) (step' t i)) {s : σ} {t : τ} (h0 : R s t)
    (is : List ι) : R (run step s is) (run step' t is) := by
  induction is generalizing s t with
  | nil => exact h0
  | cons i is ih => exact ih (hstep s t i h0)

/-! ### Steps that may fault -/

lemma ok_bind {ε : Type x} {α β : Type y} (a : α) (f : α → Except ε β) :
    (Except.ok a >>= f) = f a := rfl

lemma bind_eq_ok {ε : Type x} {α β : Type y} {e : Except ε α} {f : α → Except ε β} {b : β} :
    (e >>= f) = .ok b ↔ ∃ a, e = .ok a ∧ f a = .ok b := by
  rcases e with fault | a
  · exact iff_of_false (fun h => by cases h) fun ⟨_, h, _⟩ => by cases h
  · exact ⟨fun h => ⟨a, rfl, h⟩, fun ⟨_, ha, h⟩ => by cases ha; exact h⟩

section Faults

variable {ε : Type x} {step : σ → ι → Except ε σ} {P : σ → Prop}

/-- **Invariants of a run that may fault**: steps that neither fault nor break the invariant
make a run that does neither. -/
theorem foldlM_inv (hstep : ∀ s i, P s → ∃ s', step s i = .ok s' ∧ P s') {s : σ} (h0 : P s)
    (is : List ι) : ∃ s', is.foldlM step s = .ok s' ∧ P s' := by
  induction is generalizing s with
  | nil => exact ⟨s, rfl, h0⟩
  | cons i is ih =>
    obtain ⟨s', hs, hP⟩ := hstep s i h0
    obtain ⟨t, ht, hPt⟩ := ih hP
    refine ⟨t, ?_, hPt⟩
    rw [List.foldlM_cons, hs]
    exact ht

/-- What every step that goes through preserves holds behind a run that goes through. -/
theorem foldlM_ok_inv (hstep : ∀ s i s', P s → step s i = .ok s' → P s') {s s' : σ} {is : List ι}
    (h0 : P s) (h : is.foldlM step s = .ok s') : P s' := by
  induction is generalizing s with
  | nil =>
    obtain rfl : s = s' := Except.ok.inj h
    exact h0
  | cons i is ih =>
    rw [List.foldlM_cons] at h
    obtain ⟨t, hs, h⟩ := bind_eq_ok.mp h
    exact ih (hstep s i t h0 hs) h

/-- Every input meets the condition `ok` in the state it is given to, up to the first fault. -/
def AlongOk (step : σ → ι → Except ε σ) (ok : σ → ι → Prop) : σ → List ι → Prop
  | _, [] => True
  | s, i :: is => ok s i ∧ ∀ s', step s i = .ok s' → AlongOk step ok s' is

/-- Conditions that agree where the invariant holds agree along a run. -/
theorem alongOk_congr {ok ok' : σ → ι → Prop}
    (hstep : ∀ s i s', P s → step s i = .ok s' → P s')
    (hok : ∀ s i, P s → (ok s i ↔ ok' s i)) {s : σ} (h0 : P s) (is : List ι) :
    AlongOk step ok s is ↔ AlongOk step ok' s is := by
  induction is generalizing s with
  | nil => exact Iff.rfl
  | cons i is ih =>
    unfold AlongOk
    refine and_congr (hok s i h0) (forall_congr' fun s' => ?_)
    exact imp_congr_right fun hs => ih (hstep s i s' h0 hs)

/-- A property holds in every state that the inputs `is` lead through, up to the first fault. -/
def AlwaysOk (step : σ → ι → Except ε σ) (P : σ → Prop) (s : σ) (is : List ι) : Prop :=
  ∀ pre post s', is = pre ++ post → pre.foldlM step s = .ok s' → P s'

omit P in
lemma alwaysOk_cons {P : σ → Prop} {s : σ} {i : ι} {is : List ι} :
    AlwaysOk step P s (i :: is) ↔ P s ∧ ∀ s', step s i = .ok s' → AlwaysOk step P s' is := by
  constructor
  · refine fun h => ⟨h [] (i :: is) s rfl rfl, ?_⟩
    rintro s' hs pre post t rfl ht
    refine h (i :: pre) post t rfl ?_
    rw [List.foldlM_cons, hs]
    exact ht
  · rintro ⟨h0, hrest⟩ pre post t he ht
    rcases List.cons_eq_append_iff.mp he with ⟨rfl, -⟩ | ⟨pre, rfl, hpre⟩
    · obtain rfl : s = t := Except.ok.inj ht
      exact h0
    · rw [List.foldlM_cons] at ht
      obtain ⟨s', hs, ht⟩ := bind_eq_ok.mp ht
      exact hrest s' hs pre post t hpre ht

/-- **When a property holds all along a run that may fault**: when every step meets the
condition under which a step keeps it. -/
theorem alwaysOk_iff_alongOk {ok : σ → ι → Prop}
    (hstep : ∀ s i, P s → ((∀ s', step s i = .ok s' → P s') ↔ ok s i)) {s : σ} (h0 : P s)
    (is : List ι) : AlwaysOk step P s is ↔ AlongOk step ok s is := by
  induction is generalizing s with
  | nil =>
    refine iff_of_true ?_ trivial
    rintro pre post s' he hs
    obtain ⟨rfl, rfl⟩ := List.append_eq_nil_iff.mp he.symm
    obtain rfl : s = s' := Except.ok.inj hs
    exact h0
  | cons i is ih =>
    rw [alwaysOk_cons, AlongOk, ← hstep s i h0, and_iff_right h0]
    constructor
    · refine fun h => ⟨fun s' hs => ?_, fun s' hs => ?_⟩
      · exact h s' hs [] is s' rfl rfl
      · exact (ih (h s' hs [] is s' rfl rfl)).mp (h s' hs)
    · exact fun h s' hs => (ih (h.1 s' hs)).mpr (h.2 s' hs)

end Faults

/-! ### Steps that give answers -/

section Answers

variable {σ ι α : Type y} {ε : Type x} (step : σ → ι → Except ε (α × σ))

/-- The inputs `is`, each with the answer to it, and the state behind them. -/
def history : σ → List ι → Except ε (List (ι × α) × σ)
  | s, [] => .ok ([], s)
  | s, i :: is => do
    let (a, s') ← step s i
    let (h, t) ← history s' is
    return ((i, a) :: h, t)

variable {step} {P : List (ι × α) → σ → Prop}

lemma history_cons_eq_ok {s t : σ} {i : ι} {is : List ι} {h : List (ι × α)} :
    history step s (i :: is) = .ok (h, t) ↔
      ∃ a s' h', step s i = .ok (a, s') ∧ history step s' is = .ok (h', t) ∧ h = (i, a) :: h' := by
  rw [history, bind_eq_ok]
  constructor
  · rintro ⟨⟨a, s'⟩, hstep, hrest⟩
    obtain ⟨⟨h', t'⟩, hrest, hret⟩ := bind_eq_ok.mp hrest
    cases hret
    exact ⟨a, s', h', hstep, hrest, rfl⟩
  · rintro ⟨a, s', h', hstep, hrest, rfl⟩
    exact ⟨(a, s'), hstep, bind_eq_ok.mpr ⟨(h', t), hrest, rfl⟩⟩

lemma history_singleton {s t : σ} {i : ι} {a : α} (h : step s i = .ok (a, t)) :
    history step s [i] = .ok ([(i, a)], t) :=
  history_cons_eq_ok.mpr ⟨a, t, [], h, rfl, rfl⟩

lemma history_append {s t u : σ} {is js : List ι} {h h' : List (ι × α)}
    (his : history step s is = .ok (h, t)) (hjs : history step t js = .ok (h', u)) :
    history step s (is ++ js) = .ok (h ++ h', u) := by
  induction is generalizing s h with
  | nil =>
    cases his
    exact hjs
  | cons i is ih =>
    obtain ⟨a, s', h'', hs, hrest, rfl⟩ := history_cons_eq_ok.mp his
    exact history_cons_eq_ok.mpr ⟨a, s', h'' ++ h', hs, ih hrest, rfl⟩

lemma map_fst_history {s t : σ} {is : List ι} {h : List (ι × α)}
    (his : history step s is = .ok (h, t)) : h.map Prod.fst = is := by
  induction is generalizing s h with
  | nil =>
    cases his
    rfl
  | cons i is ih =>
    obtain ⟨a, s', h', -, hrest, rfl⟩ := history_cons_eq_ok.mp his
    rw [List.map_cons, ih hrest]

/-- **Invariants of a history**: what every answer keeps holds behind the last one. -/
theorem history_inv (hstep : ∀ h s i a s', P h s → step s i = .ok (a, s') → P (h ++ [(i, a)]) s')
    {h₀ h : List (ι × α)} {s t : σ} {is : List ι} (h0 : P h₀ s)
    (his : history step s is = .ok (h, t)) : P (h₀ ++ h) t := by
  induction is generalizing h₀ h s with
  | nil =>
    cases his
    rwa [List.append_nil]
  | cons i is ih =>
    obtain ⟨a, s', h', hs, hrest, rfl⟩ := history_cons_eq_ok.mp his
    have := ih (hstep h₀ s i a s' h0 hs) hrest
    rwa [List.append_assoc, List.singleton_append] at this

/-- Steps that go through as long as the inputs so far are `allowed` have a history. -/
theorem exists_history {allowed : List ι → Prop}
    (hclosed : ∀ is js, allowed (is ++ js) → allowed is)
    (hstep : ∀ h s i, P h s → allowed (h.map Prod.fst ++ [i]) →
      ∃ a s', step s i = .ok (a, s') ∧ P (h ++ [(i, a)]) s')
    {h₀ : List (ι × α)} {s : σ} {is : List ι} (h0 : P h₀ s)
    (his : allowed (h₀.map Prod.fst ++ is)) :
    ∃ h t, history step s is = .ok (h, t) ∧ P (h₀ ++ h) t := by
  induction is generalizing h₀ s with
  | nil => exact ⟨[], s, rfl, by rwa [List.append_nil]⟩
  | cons i is ih =>
    rw [List.append_cons] at his
    obtain ⟨a, s', hs, hP⟩ := hstep h₀ s i h0 (hclosed _ is his)
    obtain ⟨h, t, ht, hPt⟩ := ih hP (by rwa [List.map_append])
    refine ⟨(i, a) :: h, t, history_cons_eq_ok.mpr ⟨a, s', h, hs, ht, rfl⟩, ?_⟩
    rwa [List.append_cons]

/-- Steps that all go through have a history. -/
theorem exists_history_of_step
    (hstep : ∀ h s i, P h s → ∃ a s', step s i = .ok (a, s') ∧ P (h ++ [(i, a)]) s')
    {h₀ : List (ι × α)} {s : σ} (h0 : P h₀ s) (is : List ι) :
    ∃ h t, history step s is = .ok (h, t) ∧ P (h₀ ++ h) t :=
  @exists_history σ ι α ε step P (fun _ => True) (fun _ _ _ => trivial)
    (fun h s i hP _ => hstep h s i hP) h₀ s is h0 trivial

lemma map_fst_history_cons {s s' : σ} {i : ι} {a : α} (hs : step s i = .ok (a, s'))
    (is : List ι) : (history step s (i :: is)).map Prod.fst =
      ((history step s' is).map Prod.fst).map ((i, a) :: ·) := by
  rw [history, hs, ok_bind]
  dsimp only
  rcases history step s' is with fault | ⟨h, t⟩ <;> rfl

/-- **Indistinguishable states**: when a step from related states is answered alike, and leads
to related states or to a fault from both, so is every run. -/
theorem history_congr {R : σ → σ → Prop}
    (hstep : ∀ s t i, R s t →
      (∃ fault, step s i = .error fault ∧ step t i = .error fault) ∨
      ∃ a s' t', step s i = .ok (a, s') ∧ step t i = .ok (a, t') ∧ R s' t')
    {s t : σ} (h0 : R s t) (is : List ι) :
    (history step s is).map Prod.fst = (history step t is).map Prod.fst := by
  induction is generalizing s t with
  | nil => rfl
  | cons i is ih =>
    rcases hstep s t i h0 with ⟨fault, hs, ht⟩ | ⟨a, s', t', hs, ht, hR⟩
    · rw [history, history, hs, ht]
    · rw [map_fst_history_cons hs, map_fst_history_cons ht, ih hR]

end Answers

/-! ### The part of a run that belongs to one of its parties -/

section Party

variable (step) {γ : Type x} {ω : Type y} (mine : ι → Bool) (out : σ → ι → ω)

/-- What the inputs of one party are answered along a run. -/
def answers : σ → List ι → List ω
  | _, [] => []
  | s, i :: is => if mine i then out s i :: answers (step s i) is else answers (step s i) is

variable {step mine out} {view : σ → γ}

/-- **Projection**: when only the party's inputs change its view, and what they make of it
depends on the view alone, the party ends a run with the view it ends its own inputs with. -/
theorem view_run_filter (hother : ∀ s i, mine i = false → view (step s i) = view s)
    (hmine : ∀ s s' i, mine i = true → view s = view s' → view (step s i) = view (step s' i))
    {s s' : σ} (h0 : view s = view s') (is : List ι) :
    view (run step s is) = view (run step s' (is.filter mine)) := by
  induction is generalizing s s' with
  | nil => exact h0
  | cons i is ih =>
    rcases hi : mine i with _ | _
    · rw [List.filter_cons_of_neg (by simp [hi]), run_cons]
      exact ih ((hother s i hi).trans h0)
    · rw [List.filter_cons_of_pos hi, run_cons, run_cons]
      exact ih (hmine s s' i hi h0)

/-- **Non-interference**: the party is answered as if it were alone. -/
theorem answers_filter (hother : ∀ s i, mine i = false → view (step s i) = view s)
    (hmine : ∀ s s' i, mine i = true → view s = view s' → view (step s i) = view (step s' i))
    (hout : ∀ s s' i, mine i = true → view s = view s' → out s i = out s' i)
    {s s' : σ} (h0 : view s = view s') (is : List ι) :
    answers step mine out s is = answers step mine out s' (is.filter mine) := by
  induction is generalizing s s' with
  | nil => rfl
  | cons i is ih =>
    rcases hi : mine i with _ | _
    · rw [List.filter_cons_of_neg (by simp [hi]), answers, if_neg (by simp [hi])]
      exact ih ((hother s i hi).trans h0)
    · rw [List.filter_cons_of_pos hi, answers, answers, if_pos hi, if_pos hi,
        hout s s' i hi h0, ih (hmine s s' i hi h0)]

/-- **Refinement with answers**: when every step goes through with the answer that another
machine gives, and leads to a state that goes with the other's, so does every run. -/
theorem history_sim {σ' ι' ω' : Type y} {ε : Type x} {serve : σ' → ι' → Except ε (ω' × σ')}
    {next : γ → ι' → γ} {answer : γ → ι' → ω'} {allowed : ι' → Prop} {R : σ' → γ → Prop}
    (hstep : ∀ s c i, allowed i → R s c →
      ∃ s', serve s i = .ok (answer c i, s') ∧ R s' (next c i))
    {s : σ'} {c : γ} (h0 : R s c) {is : List ι'} (his : ∀ i ∈ is, allowed i) :
    ∃ t, history serve s is = .ok (is.zip (answers next (fun _ => true) answer c is), t) ∧
      R t (run next c is) := by
  induction is generalizing s c with
  | nil => exact ⟨s, rfl, h0⟩
  | cons i is ih =>
    rw [List.forall_mem_cons] at his
    obtain ⟨s', hs, hR⟩ := hstep s c i his.1 h0
    obtain ⟨t, ht, hRt⟩ := ih hR his.2
    exact ⟨t, history_cons_eq_ok.mpr ⟨_, s', _, hs, ht, rfl⟩, hRt⟩

end Party

end Dbx4.Runs
