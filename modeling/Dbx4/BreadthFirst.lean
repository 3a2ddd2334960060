import Mathlib.Data.Finset.Card
import Mathlib.Data.Finset.Union
import Dbx4.HopDistance
import Dbx4.Loops
import Dbx4.SearchTree

/-!
Breadth-first search.

The vertices found are those done with and those in the queue. They come in the order of their
distance, and the queue never holds more than two distances.
-/

namespace Dbx4.BreadthFirst

open Relation Dbx4.HopDistance Dbx4.Loops Dbx4.SearchTree

universe u v w

variable {α : Type u} {ε : Type v} {β : Type w}

structure State (α : Type u) (β : Type w) where
  queue : List α
  visited : Finset α
  noted : β

/-- An edge from `x` to a vertex not visited yet is noted, and its end is queued. -/
def takeEdge [DecidableEq α] (dst : ε → α) (note : β → α × ε → β) (x : α) (s : State α β)
    (e : ε) : State α β :=
  if dst e ∈ s.visited then s
  else
    { queue := s.queue ++ [dst e], visited := insert (dst e) s.visited
      noted := note s.noted (x, e) }

/-- One turn of the loop over the queue. -/
def turn [DecidableEq α] (out : α → List ε) (dst : ε → α) (note : β → α × ε → β)
    (s : State α β) : Except Empty (Option (State α β)) :=
  match s.queue with
  | [] => .ok none
  | x :: queue => .ok (some ((out x).foldl (takeEdge dst note x) { s with queue := queue }))

variable (out : α → List ε) (dst : ε → α)

/-- Distances from `start` along the edges. -/
noncomputable def level (start x : α) : ℕ := dist (Leads out dst) start x

/-- The vertices `done` and `pending` are found by the edges `t`, the ones `done` with all
their edges. -/
structure Searched (start : α) (done pending : List α) (t : List (α × ε)) : Prop where
  split : start :: ends dst t = done ++ pending
  grown : Grown out dst {start} t
  closed : ∀ x ∈ done, ∀ e ∈ out x, dst e ∈ start :: ends dst t
  levels : ∀ s ∈ t, level out dst start (dst s.2) = level out dst start s.1 + 1
  sorted : (start :: ends dst t).Pairwise fun x y => level out dst start x ≤ level out dst start y
  window : ∀ x ∈ pending.head?, ∀ y ∈ start :: ends dst t,
    level out dst start y ≤ level out dst start x + 1

variable {out dst} {start x : α} {done rest : List α} {t : List (α × ε)}

namespace Searched

lemma initial : Searched out dst start [] [start] [] where
  split := rfl
  grown := Grown.nil
  closed := by simp
  levels := by simp
  sorted := List.pairwise_singleton _ _
  window := by simp

lemma nodup {pending : List α} (h : Searched out dst start done pending t) :
    (start :: ends dst t).Nodup :=
  List.nodup_cons.mpr ⟨fun hmem => h.grown.fresh hmem rfl, h.grown.nodup⟩

lemma reachable {pending : List α} (h : Searched out dst start done pending t) {y : α}
    (hy : y ∈ start :: ends dst t) : ReflTransGen (Leads out dst) start y := by
  rcases List.mem_cons.mp hy with rfl | hy
  · exact ReflTransGen.refl
  · obtain ⟨z, rfl, hreach⟩ := h.grown.reached hy
    exact ReflTransGen.mono (fun _ _ h => h.1) _ _ hreach

/-- Every vertex at most as far as the first in the queue is found. -/
lemma mem_of_level_le (h : Searched out dst start done (x :: rest) t) {y : α}
    (hy : ReflTransGen (Leads out dst) start y)
    (hle : level out dst start y ≤ level out dst start x) : y ∈ start :: ends dst t := by
  induction hn : level out dst start y generalizing y with
  | zero =>
    rw [eq_of_dist_eq_zero hy hn]
    exact List.mem_cons_self
  | succ n ih =>
    obtain ⟨z, hz, ⟨e, he, rfl⟩, hzn⟩ := exists_pred hy hn
    have hlevel : level out dst start z = n := hzn
    have hmem := ih hz (by omega) hlevel
    have hdone : z ∈ done := by
      rw [h.split] at hmem
      refine (List.mem_append.mp hmem).resolve_right fun hpending => ?_
      have hsorted := h.sorted
      rw [h.split] at hsorted
      have hqueue := (List.pairwise_append.mp hsorted).2.1
      rcases List.mem_cons.mp hpending with rfl | hrest
      · omega
      · have := (List.pairwise_cons.mp hqueue).1 z hrest
        omega
    exact h.closed z hdone e he

/-- An edge of the first in the queue leads to a new vertex one hop further. -/
lemma level_eq (h : Searched out dst start done (x :: rest) t) {e : ε} (he : e ∈ out x)
    (hnew : dst e ∉ start :: ends dst t) :
    level out dst start (dst e) = level out dst start x + 1 := by
  have hx : x ∈ start :: ends dst t := by
    rw [h.split]
    exact List.mem_append_right _ List.mem_cons_self
  have hreach := h.reachable hx
  have hle : level out dst start (dst e) ≤ level out dst start x + 1 :=
    dist_le_succ hreach ⟨e, he, rfl⟩
  refine Nat.le_antisymm hle (Nat.lt_of_not_le fun hfound => hnew ?_)
  exact h.mem_of_level_le (hreach.tail ⟨e, he, rfl⟩) hfound

lemma take (h : Searched out dst start done (x :: rest) t) {e : ε} (he : e ∈ out x)
    (hnew : dst e ∉ start :: ends dst t) :
    Searched out dst start done (x :: (rest ++ [dst e])) (t ++ [(x, e)]) := by
  have hends : start :: ends dst (t ++ [(x, e)]) = (start :: ends dst t) ++ [dst e] := by simp
  have hlevel := h.level_eq he hnew
  have hx : x ∈ start :: ends dst t := by
    rw [h.split]
    exact List.mem_append_right _ List.mem_cons_self
  refine ⟨?_, ?_, ?_, ?_, ?_, ?_⟩
  · rw [hends, h.split]
    simp
  · refine h.grown.append (Grown.cons ?_ he ?_ Grown.nil)
    · simpa using hx
    · simpa using hnew
  · intro y hy e' he'
    rw [hends]
    exact List.mem_append_left _ (h.closed y hy e' he')
  · intro s hs
    rcases List.mem_append.mp hs with hs | hs
    · exact h.levels s hs
    · rw [List.mem_singleton.mp hs]
      exact hlevel
  · rw [hends]
    refine List.pairwise_append.mpr ⟨h.sorted, List.pairwise_singleton _ _, fun y hy z hz => ?_⟩
    rw [List.mem_singleton.mp hz, hlevel]
    exact h.window x rfl y hy
  · intro x' hx' y hy
    obtain rfl : x = x' := Option.some.inj hx'
    rw [hends] at hy
    rcases List.mem_append.mp hy with hy | hy
    · exact h.window x rfl y hy
    · rw [List.mem_singleton.mp hy, hlevel]

lemma finish (h : Searched out dst start done (x :: rest) t)
    (hx : ∀ e ∈ out x, dst e ∈ start :: ends dst t) :
    Searched out dst start (done ++ [x]) rest t := by
  refine ⟨?_, h.grown, ?_, h.levels, h.sorted, ?_⟩
  · rw [h.split]
    simp
  · intro y hy
    rcases List.mem_append.mp hy with hy | hy
    · exact h.closed y hy
    · rw [List.mem_singleton.mp hy]
      exact hx
  · intro q hq y hy
    have hsorted := h.sorted
    rw [h.split] at hsorted
    have hle := (List.pairwise_cons.mp (List.pairwise_append.mp hsorted).2.1).1 q
      (List.mem_of_mem_head? hq)
    exact (h.window x rfl y hy).trans (Nat.succ_le_succ hle)

/-- **Behind the search** the edges span what is reachable. -/
lemma mem_ends_iff (h : Searched out dst start done [] t) (y : α) :
    y ∈ ends dst t ↔ y ≠ start ∧ ReflTransGen (Leads out dst) start y := by
  refine h.grown.mem_ends_iff (fun z hz => h.closed z ?_) y
  rwa [h.split, List.append_nil] at hz

end Searched

/-! ### The loop -/

/-- The state in which the edges `t` are taken, with `pending` to go. -/
structure Holds (out : α → List ε) (dst : ε → α) (note : β → α × ε → β) (b : β) (start : α)
    (done pending : List α) (t : List (α × ε)) (s : State α β) : Prop where
  searched : Searched out dst start done pending t
  visited : ∀ y, y ∈ s.visited ↔ y ∈ start :: ends dst t
  noted : s.noted = t.foldl note b

variable [DecidableEq α] {note : β → α × ε → β} {b : β}

/-- The loop over the edges of the first in the queue. -/
lemma foldl_takeEdge {es : List ε} (hes : ∀ e ∈ es, e ∈ out x) {s : State α β}
    (h : Holds out dst note b start done (x :: s.queue) t s) :
    ∃ t', Holds out dst note b start done (x :: (es.foldl (takeEdge dst note x) s).queue) t'
        (es.foldl (takeEdge dst note x) s) ∧ ends dst t ⊆ ends dst t' ∧
      ∀ e ∈ es, dst e ∈ start :: ends dst t' := by
  induction es generalizing t s with
  | nil => exact ⟨t, h, List.Subset.refl _, by simp⟩
  | cons e es ih =>
    obtain ⟨he, hes⟩ := List.forall_mem_cons.mp hes
    rw [List.foldl_cons]
    by_cases hnew : dst e ∈ s.visited
    · rw [takeEdge, if_pos hnew]
      obtain ⟨t', hholds, hsub, hends⟩ := ih hes h
      refine ⟨t', hholds, hsub, List.forall_mem_cons.mpr ⟨?_, hends⟩⟩
      exact List.cons_subset_cons start hsub ((h.visited _).mp hnew)
    · rw [takeEdge, if_neg hnew]
      have hfresh : dst e ∉ start :: ends dst t := fun hmem => hnew ((h.visited _).mpr hmem)
      set s' : State α β := ⟨s.queue ++ [dst e], insert (dst e) s.visited, note s.noted (x, e)⟩
      have hholds : Holds out dst note b start done (x :: s'.queue) (t ++ [(x, e)]) s' := by
        refine ⟨h.searched.take he hfresh, fun y => ?_, ?_⟩
        · rw [Finset.mem_insert, h.visited]
          simp
          tauto
        · rw [List.foldl_append, ← h.noted]
          rfl
      obtain ⟨t', hholds', hsub, hends⟩ := ih hes hholds
      rw [ends_append] at hsub
      refine ⟨t', hholds', fun y hy => hsub (List.mem_append_left _ hy), ?_⟩
      refine List.forall_mem_cons.mpr ⟨List.mem_cons_of_mem _ (hsub ?_), hends⟩
      simp

lemma length_le {U : Finset α} (hU : ∀ x, ∀ e ∈ out x, dst e ∈ U) {pending : List α}
    (h : Searched out dst start done pending t) :
    done.length + pending.length ≤ U.card + 1 := by
  rw [← List.length_append, ← h.split, ← List.toFinset_card_of_nodup h.nodup]
  refine (Finset.card_le_card fun y hy => ?_).trans (Finset.card_insert_le start U)
  rcases List.mem_cons.mp (List.mem_toFinset.mp hy) with rfl | hy
  · exact Finset.mem_insert_self _ _
  · obtain ⟨s, hs, rfl⟩ := List.mem_map.mp hy
    exact Finset.mem_insert_of_mem (hU _ _ (h.grown.mem_out hs))

/-- Every turn is done with one vertex. -/
lemma loop_turn {U : Finset α} (hU : ∀ x, ∀ e ∈ out x, dst e ∈ U) (n : ℕ) {s : State α β}
    (h : Holds out dst note b start done s.queue t s) (hn : U.card + 1 ≤ done.length + n) :
    ∃ done' t' s', Holds out dst note b start done' [] t' s' ∧
      ∀ fuel, n < fuel → loop (turn out dst note) fuel s = .done s' := by
  induction n generalizing done t s with
  | zero =>
    have hlength := length_le hU h.searched
    have hempty : s.queue = [] := List.length_eq_zero_iff.mp (by omega)
    refine ⟨done, t, s, hempty ▸ h, fun fuel hfuel => ?_⟩
    obtain ⟨k, rfl⟩ : ∃ k, fuel = k + 1 := ⟨fuel - 1, by omega⟩
    simp [loop, turn, hempty]
  | succ n ih =>
    rcases hqueue : s.queue with _ | ⟨x, rest⟩
    · refine ⟨done, t, s, hqueue ▸ h, fun fuel hfuel => ?_⟩
      obtain ⟨k, rfl⟩ : ∃ k, fuel = k + 1 := ⟨fuel - 1, by omega⟩
      simp [loop, turn, hqueue]
    · set s₁ : State α β := { s with queue := rest }
      have hstart : Holds out dst note b start done (x :: s₁.queue) t s₁ :=
        ⟨hqueue ▸ h.searched, h.visited, h.noted⟩
      obtain ⟨t', hholds, -, hclosed⟩ := foldl_takeEdge (fun _ he => he) hstart
      have hnext := hholds.searched.finish hclosed
      obtain ⟨done', t'', s', hend, hloop⟩ := ih ⟨hnext, hholds.visited, hholds.noted⟩ (by
        rw [List.length_append, List.length_singleton]
        omega)
      refine ⟨done', t'', s', hend, fun fuel hfuel => ?_⟩
      obtain ⟨k, rfl⟩ : ∃ k, fuel = k + 1 := ⟨fuel - 1, by omega⟩
      simp only [loop, turn, hqueue]
      exact hloop k (by omega)

/-- **The search** from `start` comes back, with what is noted along a tree that it grows in
the order of distance. -/
theorem loop_spec {U : Finset α} (hU : ∀ x, ∀ e ∈ out x, dst e ∈ U) (note : β → α × ε → β)
    (b : β) (start : α) : ∃ done t s, Searched out dst start done [] t ∧
      s.noted = t.foldl note b ∧ ∀ fuel, U.card + 1 < fuel →
        loop (turn out dst note) fuel ⟨[start], {start}, b⟩ = .done s := by
  set s₀ : State α β := ⟨[start], {start}, b⟩
  have hinitial : Holds out dst note b start [] s₀.queue [] s₀ :=
    ⟨Searched.initial, by simp [s₀], rfl⟩
  obtain ⟨done, t, s, hholds, hloop⟩ := loop_turn hU (U.card + 1) hinitial (by simp)
  exact ⟨done, t, s, hholds.searched, hholds.noted, hloop⟩

end Dbx4.BreadthFirst
