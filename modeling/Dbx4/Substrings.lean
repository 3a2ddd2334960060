import Mathlib.Data.List.Infix
import Mathlib.Tactic.Common

/-!
Finding a text in a text.

A text is cut at the first place where a pattern stands. In words with a separator between each
two, where no word has the separator in it, a word between two separators is found at the first
such word, and nowhere else.
-/

namespace Dbx4.Substrings

universe u

variable {α : Type u}

/-! ### Finding -/

section Find

variable [DecidableEq α]

/-- The first place where the pattern stands. -/
def find (pat : List α) : List α → Option ℕ
  | [] => if pat = [] then some 0 else none
  | c :: text => if pat <+: c :: text then some 0 else (find pat text).map (· + 1)

variable {pat text : List α} {s c : α}

lemma find_of_isPrefix (h : pat <+: text) : find pat text = some 0 := by
  rcases text with _ | ⟨c, text⟩
  · exact if_pos (List.prefix_nil.mp h)
  · exact if_pos h

lemma find_cons (h : ¬pat <+: c :: text) : find pat (c :: text) = (find pat text).map (· + 1) :=
  if_neg h

lemma find_eq_some_zero_iff : find pat text = some 0 ↔ pat <+: text := by
  refine ⟨fun h => ?_, find_of_isPrefix⟩
  rcases text with _ | ⟨c, text⟩
  · rw [find] at h
    split_ifs at h with hnil
    exact hnil ▸ List.prefix_rfl
  · by_contra hnot
    rw [find_cons hnot] at h
    obtain ⟨i, -, hi⟩ := Option.map_eq_some_iff.mp h
    exact absurd hi (Nat.succ_ne_zero i)

/-- A pattern is found where it stands at all. -/
lemma find_eq_none_iff : find pat text = none ↔ ¬pat <:+: text := by
  induction text with
  | nil =>
    rw [find, List.infix_nil]
    split_ifs with hnil <;> simp [hnil]
  | cons c text ih =>
    rw [List.infix_cons_iff, not_or, ← ih]
    by_cases hpre : pat <+: c :: text
    · rw [find_of_isPrefix hpre]
      exact ⟨fun h => absurd h (Option.some_ne_none 0), fun h => absurd hpre h.1⟩
    · rw [find_cons hpre, Option.map_eq_none_iff]
      exact ⟨fun h => ⟨hpre, h⟩, fun h => h.2⟩

/-- A pattern does not stand in front of a character that is not its first. -/
lemma find_append (hfirst : c ∉ text) (rest : List α) :
    find (c :: pat) (text ++ rest) = (find (c :: pat) rest).map (· + text.length) := by
  induction text with
  | nil => exact Option.map_id'.symm
  | cons d text ih =>
    rw [List.mem_cons, not_or] at hfirst
    rw [List.cons_append, find_cons fun h => hfirst.1 (List.cons_prefix_cons.mp h).1,
      ih hfirst.2, Option.map_map, List.length_cons]
    rfl

/-- A single character. -/
lemma find_singleton (h : c ∉ text) (rest : List α) :
    find [c] (text ++ c :: rest) = some text.length := by
  have hhere : find [c] (c :: rest) = some 0 := find_of_isPrefix ⟨rest, rfl⟩
  rw [find_append h, hhere, Option.map_some, Nat.zero_add]

lemma find_singleton_eq_none_iff : find [c] text = none ↔ c ∉ text := by
  rw [find_eq_none_iff, List.singleton_infix_iff]

/-- Where a pattern is found there is room for it. -/
lemma length_le_of_find {i : ℕ} (h : find pat text = some i) : i + pat.length ≤ text.length := by
  induction text generalizing i with
  | nil =>
    rw [find] at h
    split_ifs at h with hnil
    cases h
    simp [hnil]
  | cons c text ih =>
    rw [find] at h
    split_ifs at h with hpre
    · cases h
      simpa using hpre.length_le
    · obtain ⟨j, hj, rfl⟩ := Option.map_eq_some_iff.mp h
      have := ih hj
      rw [List.length_cons]
      omega

/-- The texts in front of what is found, and behind it, are shorter. -/
lemma length_lt_of_find {i : ℕ} (h : find pat text = some i) (hpat : pat ≠ []) :
    (text.take i).length < text.length ∧
      (text.drop (i + pat.length)).length < text.length := by
  have hle := length_le_of_find h
  have hpos := List.length_pos_iff.mpr hpat
  rw [List.length_take, List.length_drop]
  omega

end Find

/-! ### Words -/

/-- The words with the separator between each two. -/
def joined (s : α) (words : List (List α)) : List α := [s].intercalate words

/-- The words with the separator in front of each. -/
def behind (s : α) (words : List (List α)) : List α := words.flatMap (s :: ·)

section Words

variable {s : α} {w W : List α} {words before after : List (List α)}

lemma intercalate_cons (sep w : List α) (words : List (List α)) :
    sep.intercalate (w :: words) = w ++ words.flatMap (sep ++ ·) := by
  induction words generalizing w with
  | nil => simp
  | cons w' words ih =>
    rw [List.intercalate_cons_cons, ih, List.flatMap_cons, List.append_assoc, List.append_assoc]

lemma joined_cons (s : α) (w : List α) (words : List (List α)) :
    joined s (w :: words) = w ++ behind s words := intercalate_cons [s] w words

lemma behind_of_ne_nil (s : α) (h : words ≠ []) : behind s words = s :: joined s words := by
  obtain ⟨w, words, rfl⟩ := List.exists_cons_of_ne_nil h
  rw [joined_cons]
  rfl

lemma behind_append (s : α) (words words' : List (List α)) :
    behind s (words ++ words') = behind s words ++ behind s words' := List.flatMap_append

/-- Words in front of and behind a word. -/
lemma joined_append_cons (s : α) (hbefore : before ≠ []) (hafter : after ≠ []) :
    joined s (before ++ W :: after) =
      joined s before ++ (s :: (W ++ [s])) ++ joined s after := by
  obtain ⟨w, before, rfl⟩ := List.exists_cons_of_ne_nil hbefore
  obtain ⟨w', after, rfl⟩ := List.exists_cons_of_ne_nil hafter
  rw [List.cons_append, joined_cons, joined_cons, joined_cons, behind_append]
  simp [behind]

/-- Between two separators of a text that has none at its ends stands what is in its middle. -/
lemma mem_of_isInfix {front mid back : List α} (hfront : s ∉ front) (hback : s ∉ back)
    (h : s :: (W ++ [s]) <:+: front ++ mid ++ back) : ∀ c ∈ W, c ∈ mid := by
  obtain ⟨x, y, h⟩ := h
  have hx : ∃ x', mid ++ back = x' ++ s :: (W ++ [s] ++ y) := by
    rw [List.append_assoc, List.append_assoc] at h
    rcases List.append_eq_append_iff.mp h with ⟨as, rfl, has⟩ | ⟨as, rfl, has⟩
    · rcases List.cons_eq_append_iff.mp has with ⟨rfl, hcons⟩ | ⟨as, rfl, -⟩
      · exact ⟨[], hcons⟩
      · exact absurd (List.mem_append_right _ List.mem_cons_self) hfront
    · exact ⟨as, has⟩
  obtain ⟨x', hx'⟩ := hx
  have hsplit : x' ++ s :: (W ++ [s] ++ y) = (x' ++ s :: W) ++ s :: y := by simp
  rw [hsplit] at hx'
  intro c hc
  rcases List.append_eq_append_iff.mp hx' with ⟨as, -, rfl⟩ | ⟨as, rfl, -⟩
  · exact absurd (List.mem_append_right _ List.mem_cons_self) hback
  · exact List.mem_append_left _ (List.mem_append_right _ (List.mem_cons_of_mem _ hc))

lemma take_joined (s : α) (hbefore : before ≠ []) (hafter : after ≠ []) :
    (joined s (before ++ W :: after)).take (joined s before).length = joined s before := by
  rw [joined_append_cons s hbefore hafter, List.append_assoc, List.take_left]

lemma drop_joined (s : α) (hbefore : before ≠ []) (hafter : after ≠ []) :
    (joined s (before ++ W :: after)).drop ((joined s before).length + (s :: (W ++ [s])).length) =
      joined s after := by
  rw [joined_append_cons s hbefore hafter, ← List.length_append, List.drop_left]

lemma intercalate_ne_nil {sep : List α} {w : List α} (hw : w ≠ []) (words : List (List α)) :
    sep.intercalate (w :: words) ≠ [] := by
  rw [intercalate_cons]
  exact List.append_ne_nil_of_left_ne_nil hw _

lemma mem_intercalate {sep : List α} {words : List (List α)} {x : α}
    (h : x ∈ sep.intercalate words) : x ∈ sep ∨ ∃ w ∈ words, x ∈ w := by
  rcases words with _ | ⟨w, words⟩
  · exact absurd h List.not_mem_nil
  · rw [intercalate_cons, List.mem_append, List.mem_flatMap] at h
    rcases h with h | ⟨w', hw', h⟩
    · exact .inr ⟨w, List.mem_cons_self, h⟩
    · exact (List.mem_append.mp h).imp_right fun h => ⟨w', List.mem_cons_of_mem _ hw', h⟩

/-- Lists of words, joined with a word between each two. -/
lemma joined_intercalate (s : α) (W : List α) {lists : List (List (List α))}
    (h : ∀ l ∈ lists, l ≠ []) :
    joined s ([W].intercalate lists) = (s :: (W ++ [s])).intercalate (lists.map (joined s)) := by
  induction lists with
  | nil => rfl
  | cons l lists ih =>
    rw [List.forall_mem_cons] at h
    rcases lists with _ | ⟨l', lists⟩
    · rw [List.intercalate_singleton, List.map_singleton, List.intercalate_singleton]
    · have hne := @intercalate_ne_nil _ [W] _ (h.2 l' List.mem_cons_self) lists
      rw [List.intercalate_cons_cons, List.append_assoc, List.singleton_append,
        joined_append_cons s h.1 hne, ih h.2, List.map_cons, List.map_cons,
        List.map_cons, List.intercalate_cons_cons]

/-- What stands in front of the first separator, and behind it. -/
lemma append_cons_inj {l l' m m' : List α} (hl : s ∉ l) (hl' : s ∉ l')
    (h : l ++ s :: m = l' ++ s :: m') : l = l' ∧ m = m' := by
  rcases List.append_eq_append_iff.mp h with ⟨as, rfl, has⟩ | ⟨as, rfl, has⟩
  · rcases List.cons_eq_append_iff.mp has with ⟨rfl, hcons⟩ | ⟨as, rfl, -⟩
    · exact ⟨(List.append_nil l).symm, (List.cons.inj hcons).2.symm⟩
    · exact absurd (List.mem_append_right _ List.mem_cons_self) hl'
  · rcases List.cons_eq_append_iff.mp has with ⟨rfl, hcons⟩ | ⟨as, rfl, -⟩
    · exact ⟨List.append_nil l', (List.cons.inj hcons).2⟩
    · exact absurd (List.mem_append_right _ List.mem_cons_self) hl

/-- What stands in front of the last separator, and behind it. -/
lemma append_cons_inj_right {l l' m m' : List α} (hm : s ∉ m) (hm' : s ∉ m')
    (h : l ++ s :: m = l' ++ s :: m') : l = l' ∧ m = m' := by
  have hreverse : m.reverse ++ s :: l.reverse = m'.reverse ++ s :: l'.reverse := by
    simpa using congrArg List.reverse h
  obtain ⟨hback, hfront⟩ := append_cons_inj (List.mem_reverse.not.mpr hm)
    (List.mem_reverse.not.mpr hm') hreverse
  exact ⟨List.reverse_injective hfront, List.reverse_injective hback⟩

/-- A word and a separator stand at the beginning of words if the word is the first of them. -/
lemma isPrefix_iff (hw : s ∉ w) (hW : s ∉ W) :
    W ++ [s] <+: w ++ behind s words ↔ w = W ∧ words ≠ [] := by
  constructor
  · rintro ⟨rest, h⟩
    rcases words with _ | ⟨w', words⟩
    · refine absurd (?_ : s ∈ w) hw
      rw [behind, List.flatMap_nil, List.append_nil] at h
      simp [← h]
    · rw [List.append_assoc] at h
      exact ⟨(append_cons_inj hW hw h).1.symm, List.cons_ne_nil _ _⟩
  · rintro ⟨rfl, hne⟩
    obtain ⟨w', words, rfl⟩ := List.exists_cons_of_ne_nil hne
    exact ⟨w' ++ behind s words, by simp [behind]⟩

variable [DecidableEq α]

/-- The search goes on behind a word that is not the one. -/
lemma find_behind_cons (hw : s ∉ w) (hW : s ∉ W) (hne : w = W → words = []) :
    find (s :: (W ++ [s])) (behind s (w :: words)) =
      (find (s :: (W ++ [s])) (behind s words)).map (· + (w.length + 1)) := by
  have hcons : behind s (w :: words) = s :: (w ++ behind s words) := rfl
  rw [hcons, find_cons, find_append hw, Option.map_map]
  · rfl
  · rw [List.cons_prefix_cons, isPrefix_iff hw hW]
    exact fun h => h.2.2 (hne h.2.1)

/-- **Not found**: a word that is none of the words. -/
theorem find_joined_eq_none (hwords : ∀ w ∈ words, s ∉ w) (hW : s ∉ W) (h : W ∉ words) :
    find (s :: (W ++ [s])) (joined s words) = none := by
  have hbehind : find (s :: (W ++ [s])) (behind s words) = none := by
    induction words with
    | nil => exact if_neg (List.cons_ne_nil _ _)
    | cons w words ih =>
      rw [List.forall_mem_cons] at hwords
      rw [List.mem_cons, not_or] at h
      rw [find_behind_cons hwords.1 hW fun hw => absurd hw.symm h.1, ih hwords.2 h.2]
      rfl
  rcases words with _ | ⟨w, words⟩
  · exact hbehind
  · rw [List.forall_mem_cons] at hwords
    rw [List.mem_cons, not_or] at h
    rw [find_behind_cons hwords.1 hW fun hw => absurd hw.symm h.1, Option.map_eq_none_iff]
      at hbehind
    rw [joined_cons, find_append hwords.1, hbehind]
    rfl

/-- **Found** at the first place between two words. -/
theorem find_joined (hwords : ∀ w ∈ before, s ∉ w) (hW : s ∉ W) (h : W ∉ before)
    (hbefore : before ≠ []) (hafter : after ≠ []) :
    find (s :: (W ++ [s])) (joined s (before ++ W :: after)) = some (joined s before).length := by
  have hbehind {before : List (List α)} (hwords : ∀ w ∈ before, s ∉ w) (h : W ∉ before) :
      find (s :: (W ++ [s])) (behind s (before ++ W :: after)) =
        some (behind s before).length := by
    induction before with
    | nil =>
      refine find_of_isPrefix (List.cons_prefix_cons.mpr ⟨rfl, ?_⟩)
      exact (isPrefix_iff hW hW).mpr ⟨rfl, hafter⟩
    | cons w before ih =>
      rw [List.forall_mem_cons] at hwords
      rw [List.mem_cons, not_or] at h
      rw [List.cons_append, find_behind_cons hwords.1 hW fun hw => absurd hw.symm h.1,
        ih hwords.2 h.2]
      simp [behind]
      omega
  obtain ⟨w, before, rfl⟩ := List.exists_cons_of_ne_nil hbefore
  rw [List.forall_mem_cons] at hwords
  rw [List.mem_cons, not_or] at h
  rw [List.cons_append, joined_cons, joined_cons, find_append hwords.1, hbehind hwords.2 h.2,
    Option.map_some, List.length_append, Nat.add_comm]

end Words

end Dbx4.Substrings
