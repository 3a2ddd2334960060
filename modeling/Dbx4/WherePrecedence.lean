import Dbx4.Maps
import Dbx4.SelectModel

/-!
`WHERE` clauses of `sql_executor_enhanced.cpp` and the precedence of `AND` over `OR`.

A text with both connectives is cut at its first `AND`: it is read as conditions between which
`OR` stands, in groups between which `AND` stands. A `SELECT` means alternatives between which
`OR` stands.
-/

namespace Dbx4.WherePrecedence

open Std Dbx4.Word32 Dbx4.Maps Dbx4.SqlLexer Dbx4.Substrings Dbx4.SelectModel

universe u

/-! ### Two readings -/

section Regroup

variable {α : Type u}

/-- Puts conditions with `AND` between them in front of groups, with `OR` in between. -/
def attach : List α → List (List α) → List (List α)
  | [], groups => groups
  | [c], [] => [[c]]
  | [c], group :: groups => (c :: group) :: groups
  | c :: c' :: alternative, groups => [c] :: attach (c' :: alternative) groups

/-- The groups of a list of alternatives: cut where `AND` stands, and not where `OR` does. -/
def regroup (alternatives : List (List α)) : List (List α) := alternatives.foldr attach []

/-- One alternative, or alternatives of one condition: at most one of the connectives. -/
def Flat (alternatives : List (List α)) : Prop :=
  alternatives.length = 1 ∨ ∀ alternative ∈ alternatives, alternative.length = 1

variable {alternatives : List (List α)}

lemma attach_ne_nil {alternative : List α} (h : alternative ≠ []) (groups : List (List α)) :
    attach alternative groups ≠ [] := by
  fun_cases attach alternative groups <;> simp_all

lemma flatten_attach (alternative : List α) (groups : List (List α)) :
    (attach alternative groups).flatten = alternative ++ groups.flatten := by
  fun_induction attach alternative groups with
  | case1 groups => rfl
  | case2 c => rfl
  | case3 c group groups => rfl
  | case4 c c' alternative groups ih => rw [List.flatten_cons, ih]; rfl

lemma nil_notMem_attach {alternative : List α} {groups : List (List α)} (h : [] ∉ groups) :
    [] ∉ attach alternative groups := by
  fun_induction attach alternative groups with
  | case1 groups => exact h
  | case2 c => simp
  | case3 c group groups => simp_all
  | case4 c c' alternative groups ih => simp_all

lemma flatten_regroup (alternatives : List (List α)) :
    (regroup alternatives).flatten = alternatives.flatten := by
  induction alternatives with
  | nil => rfl
  | cons alternative alternatives ih =>
    rw [regroup, List.foldr_cons, flatten_attach, ← regroup, ih, List.flatten_cons]

lemma regroup_ne_nil {alternatives : List (List α)} (h : alternatives.flatten ≠ []) :
    regroup alternatives ≠ [] := by
  intro hnil
  have hflat := flatten_regroup alternatives
  rw [hnil] at hflat
  exact h hflat.symm

lemma nil_notMem_regroup (alternatives : List (List α)) : [] ∉ regroup alternatives := by
  induction alternatives with
  | nil => exact List.not_mem_nil
  | cons alternative alternatives ih => exact nil_notMem_attach ih

/-- A condition that stands behind an `AND` starts a group. -/
lemma attach_append {front : List α} (hfront : front ≠ []) (c : α) (back : List α)
    (groups : List (List α)) :
    attach (front ++ c :: back) groups = front.map ([·]) ++ attach (c :: back) groups := by
  induction front with
  | nil => exact absurd rfl hfront
  | cons d front ih =>
    rcases front with _ | ⟨d', front⟩
    · rfl
    · rw [List.cons_append, List.cons_append, attach, ← List.cons_append,
        ih (List.cons_ne_nil _ _)]
      rfl

lemma attach_groups_append {alternative : List α} {groups : List (List α)} (hne : groups ≠ [])
    (groups' : List (List α)) :
    attach alternative (groups ++ groups') = attach alternative groups ++ groups' := by
  fun_induction attach alternative groups with
  | case1 groups => rfl
  | case2 c => exact absurd rfl hne
  | case3 c group groups => rfl
  | case4 c c' alternative groups ih =>
    rw [attach, ih hne]
    rfl

lemma attach_nil_right (alternative : List α) : attach alternative [] = alternative.map ([·]) := by
  induction alternative with
  | nil => rfl
  | cons c alternative ih =>
    rcases alternative with _ | ⟨c', alternative⟩
    · rfl
    · rw [attach, ih]
      rfl

/-- **Cut at an `AND`**: what stands in front of it and what stands behind it are grouped by
themselves. -/
lemma regroup_append (before : List (List α)) {front : List α} (hfront : front ≠ []) (c : α)
    (back : List α) (after : List (List α)) :
    regroup (before ++ (front ++ c :: back) :: after) =
      regroup (before ++ [front]) ++ regroup ((c :: back) :: after) := by
  induction before with
  | nil =>
    have hfirst : regroup [front] = front.map ([·]) := attach_nil_right front
    rw [List.nil_append, List.nil_append, hfirst]
    exact attach_append hfront c back (regroup after)
  | cons alternative before ih =>
    have hne : regroup (before ++ [front]) ≠ [] := regroup_ne_nil (by simp [hfront])
    rw [List.cons_append, regroup, List.foldr_cons, ← regroup, ih, attach_groups_append hne]
    rfl

/-- Alternatives of one condition are one group. -/
lemma regroup_of_singles {alternatives : List (List α)} (hne : alternatives ≠ [])
    (h : ∀ alternative ∈ alternatives, alternative.length = 1) :
    regroup alternatives = [alternatives.flatten] := by
  induction alternatives with
  | nil => exact absurd rfl hne
  | cons alternative alternatives ih =>
    rw [List.forall_mem_cons] at h
    obtain ⟨c, rfl⟩ := List.length_eq_one_iff.mp h.1
    rcases alternatives with _ | ⟨alternative', alternatives⟩
    · rfl
    · rw [regroup, List.foldr_cons, ← regroup, ih (List.cons_ne_nil _ _) h.2]
      rfl

/-! ### Truth values -/

/-- What a `SELECT` means. -/
def anyAll (p : α → Bool) (alternatives : List (List α)) : Bool :=
  alternatives.any fun alternative => alternative.all p

/-- What the groups mean. -/
def allAny (p : α → Bool) (groups : List (List α)) : Bool :=
  groups.all fun group => group.any p

lemma anyAll_congr {p q : α → Bool} {alternatives : List (List α)}
    (h : ∀ c ∈ alternatives.flatten, p c = q c) :
    anyAll p alternatives = anyAll q alternatives := by
  rw [Bool.eq_iff_iff]
  simp only [anyAll, List.any_eq_true, List.all_eq_true]
  refine exists_congr fun alternative => and_congr_right fun hmem => forall₂_congr fun c hc => ?_
  rw [h c (List.mem_flatten_of_mem hmem hc)]

lemma allAny_congr {p q : α → Bool} {groups : List (List α)}
    (h : ∀ c ∈ groups.flatten, p c = q c) : allAny p groups = allAny q groups := by
  rw [Bool.eq_iff_iff]
  simp only [allAny, List.any_eq_true, List.all_eq_true]
  refine forall₂_congr fun group hmem => exists_congr fun c => and_congr_right fun hc => ?_
  rw [h c (List.mem_flatten_of_mem hmem hc)]

lemma allAny_regroup_of_flat (p : α → Bool) {alternatives : List (List α)}
    (hne : alternatives ≠ []) (h : Flat alternatives) :
    allAny p (regroup alternatives) = anyAll p alternatives := by
  rcases h with h | h
  · obtain ⟨alternative, rfl⟩ := List.length_eq_one_iff.mp h
    have hone : regroup [alternative] = alternative.map ([·]) := attach_nil_right alternative
    rw [hone, allAny, anyAll, List.all_map, List.any_cons, List.any_nil, Bool.or_false]
    exact List.all_congr rfl fun c => Bool.or_false (p c)
  · rw [regroup_of_singles hne h, allAny, List.all_cons, List.all_nil, Bool.and_true, anyAll,
      List.any_flatten]
    rw [Bool.eq_iff_iff, List.any_eq_true, List.any_eq_true]
    refine exists_congr fun alternative => and_congr_right fun halternative => ?_
    obtain ⟨c, rfl⟩ := List.length_eq_one_iff.mp (h alternative halternative)
    rw [List.any_cons, List.all_cons, List.any_nil, List.all_nil, Bool.or_false, Bool.and_true]

/-- Groups of which one has no true condition. -/
lemma allAny_eq_false {p : α → Bool} {groups : List (List α)} (hne : groups ≠ [])
    (h : ∀ c ∈ groups.flatten, p c = false) : allAny p groups = false := by
  obtain ⟨group, groups, rfl⟩ := List.exists_cons_of_ne_nil hne
  have hgroup : group.any p = false := by
    rw [List.any_eq_false]
    intro c hc
    rw [h c (List.mem_append_left _ hc)]
    exact Bool.false_ne_true
  rw [allAny, List.all_cons, hgroup, Bool.false_and]

/-- Where an alternative has two conditions, and there is another alternative, the groups mean
something else: only the conditions of the other alternative are true. -/
lemma exists_of_not_flat {alternatives : List (List α)} (hne : alternatives ≠ [])
    (hnil : [] ∉ alternatives) (hflat : ¬Flat alternatives) (hnodup : alternatives.flatten.Nodup) :
    ∃ p : α → Bool, anyAll p alternatives = true ∧ allAny p (regroup alternatives) = false := by
  classical
  rw [Flat, not_or] at hflat
  push Not at hflat
  obtain ⟨hlength, alternative, hmem, hlong⟩ := hflat
  obtain ⟨before, after, rfl⟩ := List.append_of_mem hmem
  obtain ⟨c, c', l, rfl⟩ : ∃ c c' l, alternative = [c] ++ c' :: l := by
    rcases alternative with _ | ⟨c, _ | ⟨c', l⟩⟩
    · exact absurd hmem hnil
    · exact absurd rfl hlong
    · exact ⟨c, c', l, rfl⟩
  have hother : ∃ other, other ∈ before ∨ other ∈ after := by
    rcases before with _ | ⟨other, before⟩
    · rcases after with _ | ⟨other, after⟩
      · exact absurd rfl hlength
      · exact ⟨other, .inr List.mem_cons_self⟩
    · exact ⟨other, .inl List.mem_cons_self⟩
  obtain ⟨other, hother⟩ := hother
  have hsplit : (before ++ ([c] ++ c' :: l) :: after).flatten =
      (before ++ [[c]]).flatten ++ ((c' :: l) :: after).flatten := by
    simp
  rw [hsplit, List.nodup_append] at hnodup
  obtain ⟨-, -, hdisjoint⟩ := hnodup
  refine ⟨fun x => x ∈ other, ?_, ?_⟩
  · have hin : other ∈ before ++ ([c] ++ c' :: l) :: after := by
      rcases hother with hother | hother
      · exact List.mem_append_left _ hother
      · exact List.mem_append_right _ (List.mem_cons_of_mem _ hother)
    exact List.any_eq_true.mpr ⟨other, hin, List.all_eq_true.mpr fun x hx => decide_eq_true hx⟩
  · rw [regroup_append before (List.cons_ne_nil _ _), allAny, List.all_append,
      Bool.and_eq_false_iff, ← allAny, ← allAny]
    rcases hother with hother | hother
    · refine .inr (allAny_eq_false (attach_ne_nil (List.cons_ne_nil _ _) _) fun x hx => ?_)
      rw [flatten_regroup] at hx
      refine decide_eq_false fun hxo => hdisjoint x ?_ x hx rfl
      exact List.mem_flatten_of_mem (List.mem_append_left _ hother) hxo
    · refine .inl (allAny_eq_false (regroup_ne_nil (by simp)) fun x hx => ?_)
      rw [flatten_regroup] at hx
      refine decide_eq_false fun hxo => hdisjoint x hx x ?_ rfl
      exact List.mem_flatten_of_mem (List.mem_cons_of_mem _ hother) hxo

/-! ### Texts -/

variable {β : Type u} {sepAnd sepOr : List β} {f : α → List β}

lemma intercalate_attach {alternative : List α} {groups : List (List α)}
    (halternative : alternative ≠ []) (hgroups : groups ≠ []) (hnil : [] ∉ groups) :
    sepAnd.intercalate ((attach alternative groups).map fun group =>
        sepOr.intercalate (group.map f)) =
      sepAnd.intercalate (alternative.map f) ++ sepOr ++
        sepAnd.intercalate (groups.map fun group => sepOr.intercalate (group.map f)) := by
  fun_induction attach alternative groups with
  | case1 groups => exact absurd rfl halternative
  | case2 c => exact absurd rfl hgroups
  | case3 c group groups =>
    rw [List.mem_cons, not_or] at hnil
    obtain ⟨d, group, rfl⟩ := List.exists_cons_of_ne_nil (Ne.symm hnil.1)
    simp [intercalate_cons]
  | case4 c c' alternative groups ih =>
    have hne : (attach (c' :: alternative) groups).map
        (fun group => sepOr.intercalate (group.map f)) ≠ [] := by
      rw [Ne, List.map_eq_nil_iff]
      exact attach_ne_nil (List.cons_ne_nil _ _) groups
    rw [List.map_cons, List.intercalate_cons_of_ne_nil hne,
      ih (List.cons_ne_nil _ _) hgroups hnil, List.map_singleton, List.intercalate_singleton,
      List.map_cons, List.map_cons, List.map_cons, List.intercalate_cons_cons]
    simp only [List.append_assoc]

/-- The text of the alternatives is the text of the groups. -/
lemma intercalate_regroup {alternatives : List (List α)} (hnil : [] ∉ alternatives) :
    sepOr.intercalate (alternatives.map fun alternative =>
        sepAnd.intercalate (alternative.map f)) =
      sepAnd.intercalate ((regroup alternatives).map fun group =>
        sepOr.intercalate (group.map f)) := by
  induction alternatives with
  | nil => rfl
  | cons alternative alternatives ih =>
    rw [List.mem_cons, not_or] at hnil
    rcases alternatives with _ | ⟨alternative', alternatives⟩
    · have hone : regroup [alternative] = alternative.map ([·]) := attach_nil_right alternative
      rw [hone, List.map_singleton, List.intercalate_singleton, List.map_map]
      simp [Function.comp_def]
    · have hne : alternative' ≠ [] := fun h => hnil.2 (h ▸ List.mem_cons_self)
      have hgroups : regroup (alternative :: alternative' :: alternatives) =
          attach alternative (regroup (alternative' :: alternatives)) := rfl
      have hrest : regroup (alternative' :: alternatives) ≠ [] := attach_ne_nil hne _
      rw [hgroups, intercalate_attach (Ne.symm hnil.1) hrest (nil_notMem_regroup _), ← ih hnil.2,
        List.map_cons, List.map_cons, List.intercalate_cons_cons]

end Regroup

/-! ### Conditions -/

/-- `column=value`, with `NOT` in front of it any number of times. -/
structure Condition where
  nots : ℕ
  column : Bytes
  value : Bytes
  deriving DecidableEq

/-- A column name or a value: without a space and without `=`, none of the connectives, and
without white space at its ends. -/
def IsWord (word : Bytes) : Prop :=
  word ≠ [] ∧ ' '.toUInt8 ∉ word ∧ '='.toUInt8 ∉ word ∧ trim word = word ∧
    word ≠ ascii "AND" ∧ word ≠ ascii "OR" ∧ word ≠ ascii "NOT"

instance : DecidablePred IsWord := fun word => inferInstanceAs (Decidable (word ≠ [] ∧ _ ∧ _))

namespace Condition

def words (c : Condition) : List Bytes :=
  List.replicate c.nots (ascii "NOT") ++ [c.column ++ '='.toUInt8 :: c.value]

def text (c : Condition) : Bytes := joined ' '.toUInt8 c.words

/-- Whether the row meets the condition. -/
def holds (row : Row) (c : Condition) : Bool := not^[c.nots] (row[c.column]? = some c.value)

end Condition

/-- Alternatives of conditions whose names and values are words. -/
def IsWhere (alternatives : List (List Condition)) : Prop :=
  alternatives ≠ [] ∧ [] ∉ alternatives ∧
    ∀ c ∈ alternatives.flatten, IsWord c.column ∧ IsWord c.value

instance : DecidablePred IsWhere := fun alternatives =>
  inferInstanceAs (Decidable (alternatives ≠ [] ∧ [] ∉ alternatives ∧ _))

/-- The text of a clause. -/
def whereText (alternatives : List (List Condition)) : Bytes :=
  (ascii " OR ").intercalate (alternatives.map fun alternative =>
    (ascii " AND ").intercalate (alternative.map Condition.text))

section Conditions

variable {c : Condition} {row : Row}

/-- The words of a condition have no space in them, and none is a connective between two. -/
lemma words_spec (hcolumn : IsWord c.column) (hvalue : IsWord c.value) :
    ∀ w ∈ c.words, ' '.toUInt8 ∉ w ∧ w ≠ ascii "AND" ∧ w ≠ ascii "OR" := by
  intro w hw
  rcases List.mem_append.mp hw with hw | hw
  · obtain rfl := List.eq_of_mem_replicate hw
    decide
  · obtain rfl := List.mem_singleton.mp hw
    have hequals : '='.toUInt8 ∈ c.column ++ '='.toUInt8 :: c.value :=
      List.mem_append_right _ List.mem_cons_self
    refine ⟨fun hspace => ?_, fun h => ?_, fun h => ?_⟩
    · rcases List.mem_append.mp hspace with hspace | hspace
      · exact hcolumn.2.1 hspace
      · rcases List.mem_cons.mp hspace with heq | hspace
        · exact absurd heq (by decide)
        · exact hvalue.2.1 hspace
    · rw [h] at hequals
      exact absurd hequals (by decide)
    · rw [h] at hequals
      exact absurd hequals (by decide)

lemma words_ne_nil (c : Condition) : c.words ≠ [] :=
  List.append_ne_nil_of_right_ne_nil _ (List.cons_ne_nil _ _)

lemma find_and_text (hcolumn : IsWord c.column) (hvalue : IsWord c.value) :
    find (ascii " AND ") c.text = none :=
  find_joined_eq_none (W := ascii "AND") (fun w hw => (words_spec hcolumn hvalue w hw).1)
    (by decide) fun hmem => (words_spec hcolumn hvalue _ hmem).2.1 rfl

lemma find_or_text (hcolumn : IsWord c.column) (hvalue : IsWord c.value) :
    find (ascii " OR ") c.text = none :=
  find_joined_eq_none (W := ascii "OR") (fun w hw => (words_spec hcolumn hvalue w hw).1)
    (by decide) fun hmem => (words_spec hcolumn hvalue _ hmem).2.2 rfl

lemma text_zero (column value : Bytes) :
    (Condition.mk 0 column value).text = column ++ '='.toUInt8 :: value := by
  rw [Condition.text, Condition.words, List.replicate_zero, List.nil_append, joined_cons]
  exact List.append_nil _

lemma text_succ (nots : ℕ) (column value : Bytes) :
    (Condition.mk (nots + 1) column value).text =
      ascii "NOT " ++ (Condition.mk nots column value).text := by
  have hwords : (Condition.mk (nots + 1) column value).words =
      ascii "NOT" :: (Condition.mk nots column value).words := by
    rw [Condition.words, List.replicate_succ, List.cons_append]
    rfl
  rw [Condition.text, hwords, joined_cons, behind_of_ne_nil _ (words_ne_nil _)]
  rfl

lemma text_ne_nil (c : Condition) : c.text ≠ [] := by
  obtain ⟨_ | nots, column, value⟩ := c
  · rw [text_zero]
    simp
  · rw [text_succ]
    exact List.append_ne_nil_of_left_ne_nil (by decide) _

/-- Conditions without a connective between them are evaluated behind their last `NOT`. -/
lemma evaluateWhere_condition (hcolumn : IsWord c.column) (hvalue : IsWord c.value) (row : Row) :
    evaluateWhere c.text row = .ok (c.holds row) := by
  obtain ⟨nots, column, value⟩ := c
  induction nots with
  | zero =>
    rw [evaluateWhere_of_none (text_ne_nil _) (find_and_text hcolumn hvalue)
      (find_or_text hcolumn hvalue), if_neg, text_zero,
      evaluateEquality_eq hcolumn.2.2.1 hcolumn.2.2.2.1 hvalue.2.2.2.1]
    · rfl
    · intro hnot
      have hspace : ' '.toUInt8 ∈ ascii "NOT " := by decide
      have hword := words_spec hcolumn hvalue _ (List.mem_append_right _ List.mem_cons_self)
      rw [text_zero] at hnot
      exact hword.1 (hnot.subset hspace)
  | succ nots ih =>
    rw [evaluateWhere_of_none (text_ne_nil _) (find_and_text hcolumn hvalue)
      (find_or_text hcolumn hvalue), text_succ, if_pos (List.prefix_append _ _)]
    have hdrop : (ascii "NOT " ++ (Condition.mk nots column value).text).drop 4 =
        (Condition.mk nots column value).text := @List.drop_left _ (ascii "NOT ") _
    rw [hdrop, ih hcolumn hvalue]
    change Except.ok _ = Except.ok _
    rw [Condition.holds, Condition.holds, Function.iterate_succ_apply']

/-! ### Cuts -/

section Cuts

variable {before after : List Bytes} {left right : Bool}

/-- A text of words is cut at the first `OR` between two of them. -/
lemma evaluateWhere_joined_or
    (hspec : ∀ w ∈ before ++ ascii "OR" :: after, ' '.toUInt8 ∉ w ∧ w ≠ ascii "AND")
    (hor : ascii "OR" ∉ before) (hbefore : before ≠ []) (hafter : after ≠ [])
    (hleft : evaluateWhere (joined ' '.toUInt8 before) row = .ok left)
    (hright : evaluateWhere (joined ' '.toUInt8 after) row = .ok right) :
    evaluateWhere (joined ' '.toUInt8 (before ++ ascii "OR" :: after)) row =
      .ok (left || right) := by
  have hand : find (ascii " AND ") (joined ' '.toUInt8 (before ++ ascii "OR" :: after)) = none :=
    find_joined_eq_none (fun w hw => (hspec w hw).1) (by decide) fun h => (hspec _ h).2 rfl
  have hfind : find (ascii " OR ") (joined ' '.toUInt8 (before ++ ascii "OR" :: after)) =
      some (joined ' '.toUInt8 before).length :=
    find_joined (fun w hw => (hspec w (List.mem_append_left _ hw)).1) (by decide) hor hbefore
      hafter
  have hdrop : (joined ' '.toUInt8 (before ++ ascii "OR" :: after)).drop
      ((joined ' '.toUInt8 before).length + 4) = joined ' '.toUInt8 after :=
    drop_joined (W := ascii "OR") ' '.toUInt8 hbefore hafter
  rw [evaluateWhere_or hand hfind, take_joined _ hbefore hafter, hdrop, hleft, hright]
  cases left <;> rfl

/-- A text of words is cut at the first `AND` between two of them. -/
lemma evaluateWhere_joined_and (hspec : ∀ w ∈ before, ' '.toUInt8 ∉ w)
    (hand : ascii "AND" ∉ before) (hbefore : before ≠ []) (hafter : after ≠ [])
    (hleft : evaluateWhere (joined ' '.toUInt8 before) row = .ok left)
    (hright : evaluateWhere (joined ' '.toUInt8 after) row = .ok right) :
    evaluateWhere (joined ' '.toUInt8 (before ++ ascii "AND" :: after)) row =
      .ok (left && right) := by
  have hfind : find (ascii " AND ") (joined ' '.toUInt8 (before ++ ascii "AND" :: after)) =
      some (joined ' '.toUInt8 before).length :=
    find_joined hspec (by decide) hand hbefore hafter
  have hdrop : (joined ' '.toUInt8 (before ++ ascii "AND" :: after)).drop
      ((joined ' '.toUInt8 before).length + 5) = joined ' '.toUInt8 after :=
    drop_joined (W := ascii "AND") ' '.toUInt8 hbefore hafter
  rw [evaluateWhere_and hfind, take_joined _ hbefore hafter, hdrop, hleft, hright]
  cases left <;> rfl

end Cuts

/-! ### Groups -/

/-- Conditions with `OR` between them. -/
def groupText (group : List Condition) : Bytes :=
  (ascii " OR ").intercalate (group.map Condition.text)

/-- Groups with `AND` between them. -/
def groupsText (groups : List (List Condition)) : Bytes :=
  (ascii " AND ").intercalate (groups.map groupText)

def groupWords (group : List Condition) : List Bytes :=
  [ascii "OR"].intercalate (group.map Condition.words)

lemma groupText_eq (group : List Condition) :
    groupText group = joined ' '.toUInt8 (groupWords group) := by
  have hne : ∀ l ∈ group.map Condition.words, l ≠ [] := by
    simp [words_ne_nil]
  rw [groupWords, joined_intercalate _ _ hne, List.map_map]
  rfl

variable {group : List Condition} {groups : List (List Condition)}

lemma groupWords_spec (hwords : ∀ c ∈ group, IsWord c.column ∧ IsWord c.value) :
    ∀ w ∈ groupWords group, ' '.toUInt8 ∉ w ∧ w ≠ ascii "AND" := by
  intro w hw
  rcases mem_intercalate hw with hw | ⟨words, hmem, hw⟩
  · obtain rfl := List.mem_singleton.mp hw
    decide
  · obtain ⟨c, hc, rfl⟩ := List.mem_map.mp hmem
    have hspec := words_spec (hwords c hc).1 (hwords c hc).2 w hw
    exact ⟨hspec.1, hspec.2.1⟩

lemma groupWords_ne_nil (hne : group ≠ []) : groupWords group ≠ [] := by
  obtain ⟨c, group, rfl⟩ := List.exists_cons_of_ne_nil hne
  exact intercalate_ne_nil (words_ne_nil c) _

/-- The first `OR` of a group stands behind its first condition. -/
lemma evaluateWhere_group (hne : group ≠ [])
    (hwords : ∀ c ∈ group, IsWord c.column ∧ IsWord c.value) (row : Row) :
    evaluateWhere (groupText group) row = .ok (group.any (·.holds row)) := by
  induction group with
  | nil => exact absurd rfl hne
  | cons c group ih =>
    have hspec := groupWords_spec hwords
    rw [List.forall_mem_cons] at hwords
    have hfirst := evaluateWhere_condition hwords.1.1 hwords.1.2 row
    rcases group with _ | ⟨c', group⟩
    · rw [groupText, List.map_singleton, List.intercalate_singleton, hfirst, List.any_cons,
        List.any_nil, Bool.or_false]
    · have hcut : groupWords (c :: c' :: group) =
          c.words ++ ascii "OR" :: groupWords (c' :: group) := by
        rw [groupWords, List.map_cons, List.map_cons, List.intercalate_cons_cons,
          List.append_assoc]
        rfl
      have hrest := ih (List.cons_ne_nil _ _) hwords.2
      have hor := fun h => (words_spec hwords.1.1 hwords.1.2 _ h).2.2 rfl
      rw [groupText_eq] at hrest
      rw [groupText_eq, List.any_cons, hcut]
      exact evaluateWhere_joined_or (hcut ▸ hspec) hor (words_ne_nil c)
        (groupWords_ne_nil (List.cons_ne_nil c' group)) hfirst hrest

lemma groupsText_eq (hnil : [] ∉ groups) :
    groupsText groups = joined ' '.toUInt8 ([ascii "AND"].intercalate (groups.map groupWords)) := by
  have hne : ∀ l ∈ groups.map groupWords, l ≠ [] := by
    intro l hl
    obtain ⟨group, hgroup, rfl⟩ := List.mem_map.mp hl
    exact groupWords_ne_nil fun h => hnil (h ▸ hgroup)
  rw [joined_intercalate _ _ hne, List.map_map, groupsText]
  exact congrArg _ (List.map_congr_left fun group _ => groupText_eq group)

/-- The first `AND` stands behind the first group. -/
lemma evaluateWhere_groups (hne : groups ≠ []) (hnil : [] ∉ groups)
    (hwords : ∀ c ∈ groups.flatten, IsWord c.column ∧ IsWord c.value) (row : Row) :
    evaluateWhere (groupsText groups) row = .ok (allAny (·.holds row) groups) := by
  induction groups with
  | nil => exact absurd rfl hne
  | cons group groups ih =>
    have hnil' := hnil
    rw [List.mem_cons, not_or] at hnil
    rw [List.flatten_cons, List.forall_mem_append] at hwords
    have hfirst := evaluateWhere_group (Ne.symm hnil.1) hwords.1 row
    rcases groups with _ | ⟨group', groups⟩
    · rw [groupsText, List.map_singleton, List.intercalate_singleton, hfirst, allAny,
        List.all_cons, List.all_nil, Bool.and_true]
    · have hne' : group' ≠ [] := fun h => hnil.2 (h ▸ List.mem_cons_self)
      have hrest := ih (List.cons_ne_nil _ _) hnil.2 hwords.2
      have hspec := groupWords_spec hwords.1
      rw [groupsText_eq hnil.2] at hrest
      rw [groupText_eq] at hfirst
      rw [groupsText_eq hnil', List.map_cons, List.map_cons, List.intercalate_cons_cons,
        List.append_assoc, allAny, List.all_cons]
      exact evaluateWhere_joined_and (fun w hw => (hspec w hw).1) (fun h => (hspec _ h).2 rfl)
        (groupWords_ne_nil (Ne.symm hnil.1)) (intercalate_ne_nil (groupWords_ne_nil hne') _)
        hfirst hrest

/-- **What the evaluation computes**: the value of the groups. -/
lemma evaluateWhere_whereText {alternatives : List (List Condition)} (h : IsWhere alternatives)
    (row : Row) :
    evaluateWhere (whereText alternatives) row =
      .ok (allAny (·.holds row) (regroup alternatives)) := by
  obtain ⟨hne, hnil, hwords⟩ := h
  have hflat : alternatives.flatten ≠ [] := by
    obtain ⟨alternative, alternatives, rfl⟩ := List.exists_cons_of_ne_nil hne
    rw [List.mem_cons, not_or] at hnil
    exact List.append_ne_nil_of_left_ne_nil (Ne.symm hnil.1) _
  have htext : whereText alternatives = groupsText (regroup alternatives) :=
    intercalate_regroup hnil
  rw [htext]
  refine evaluateWhere_groups (regroup_ne_nil hflat) (nil_notMem_regroup _) ?_ row
  rwa [flatten_regroup]

/-! ### Rows -/

/-- The row in which just the conditions of a predicate are true, when their columns differ. -/
def rowOf (p : Condition → Bool) (conditions : List Condition) : Row :=
  conditions.foldr (fun c row =>
    if not^[c.nots] (p c) then row.insert c.column c.value else row) ∅

lemma not_iterate_not_iterate (n : ℕ) (b : Bool) : not^[n] (not^[n] b) = b := by
  induction n generalizing b with
  | zero => rfl
  | succ n ih =>
    rw [Function.iterate_succ_apply', Function.iterate_succ_apply, ih, Bool.not_not]

lemma getElem?_rowOf_of_ne {p : Condition → Bool} {conditions : List Condition} {column : Bytes}
    (h : ∀ c ∈ conditions, c.column ≠ column) : (rowOf p conditions)[column]? = none := by
  induction conditions with
  | nil => exact ExtTreeMap.getElem?_empty
  | cons c conditions ih =>
    rw [List.forall_mem_cons] at h
    rw [rowOf, List.foldr_cons, ← rowOf]
    split_ifs
    · rw [getElem?_insert_of_ne _ h.1, ih h.2]
    · exact ih h.2

lemma holds_rowOf (p : Condition → Bool) {conditions : List Condition}
    (h : conditions.Pairwise fun c c' => c.column ≠ c'.column) :
    ∀ c ∈ conditions, c.holds (rowOf p conditions) = p c := by
  induction conditions with
  | nil => exact fun c hc => absurd hc List.not_mem_nil
  | cons c conditions ih =>
    rw [List.pairwise_cons] at h
    rw [rowOf, List.foldr_cons, ← rowOf, List.forall_mem_cons]
    constructor
    · have hself : decide ((if not^[c.nots] (p c) then
          (rowOf p conditions).insert c.column c.value
          else rowOf p conditions)[c.column]? = some c.value) = not^[c.nots] (p c) := by
        split_ifs with hp
        · rw [ExtTreeMap.getElem?_insert_self, hp]
          exact decide_eq_true rfl
        · rw [getElem?_rowOf_of_ne fun c' hc' => (h.1 c' hc').symm]
          simp [hp]
      rw [Condition.holds, hself, not_iterate_not_iterate]
    · intro c' hc'
      rw [← ih h.2 c' hc', Condition.holds, Condition.holds]
      split_ifs
      · rw [getElem?_insert_of_ne _ (h.1 c' hc')]
      · rfl

/-! ### The precedence of SQL -/

/-- The truth value under SQL precedence. -/
def sqlValue (alternatives : List (List Condition)) (row : Row) : Bool :=
  anyAll (Condition.holds row) alternatives

/-- **When SQL precedence is met**: in rows where every group has a true condition just when
some alternative has no other. With one alternative, or with alternatives of one condition,
these are all rows; with different columns, only then. -/
theorem evaluateWhere_eq_iff {alternatives : List (List Condition)} (h : IsWhere alternatives) :
    (∀ row, evaluateWhere (whereText alternatives) row = .ok (sqlValue alternatives row) ↔
      ((∀ group ∈ regroup alternatives, ∃ c ∈ group, c.holds row) ↔
        ∃ alternative ∈ alternatives, ∀ c ∈ alternative, c.holds row)) ∧
    (Flat alternatives →
      ∀ row, evaluateWhere (whereText alternatives) row = .ok (sqlValue alternatives row)) ∧
    ((alternatives.flatten.Pairwise fun c c' => c.column ≠ c'.column) →
      (∀ row, evaluateWhere (whereText alternatives) row = .ok (sqlValue alternatives row)) →
        Flat alternatives) := by
  have hvalue := evaluateWhere_whereText h
  obtain ⟨hne, hnil, -⟩ := h
  refine ⟨fun row => ?_, fun hflat row => ?_, fun hcolumns hright => ?_⟩
  · rw [hvalue, Except.ok.injEq, Bool.eq_iff_iff, sqlValue, anyAll, allAny]
    simp only [List.all_eq_true, List.any_eq_true]
  · rw [hvalue, allAny_regroup_of_flat _ hne hflat, sqlValue]
  · by_contra hflat
    have hnodup : alternatives.flatten.Nodup :=
      hcolumns.imp fun hcolumn => ne_of_apply_ne Condition.column hcolumn
    obtain ⟨p, hsql, hgroups⟩ := exists_of_not_flat hne hnil hflat hnodup
    have hholds := holds_rowOf p hcolumns
    have hholds' : ∀ c ∈ (regroup alternatives).flatten,
        c.holds (rowOf p alternatives.flatten) = p c := by
      rwa [flatten_regroup]
    have hcongr := hright (rowOf p alternatives.flatten)
    rw [hvalue, Except.ok.injEq, sqlValue, anyAll_congr hholds, allAny_congr hholds', hsql,
      hgroups] at hcongr
    exact Bool.noConfusion hcongr

end Conditions

/-- `a=1 OR b=1 AND c=1`. -/
def mixed : List (List Condition) :=
  [[⟨0, ascii "a", ascii "1"⟩], [⟨0, ascii "b", ascii "1"⟩, ⟨0, ascii "c", ascii "1"⟩]]

lemma isWhere_mixed : IsWhere mixed := by decide

/-- Three columns, and two conditions in the second alternative. -/
theorem evaluateWhere_eq_iff_mixed :
    ¬∀ row, evaluateWhere (whereText mixed) row = .ok (sqlValue mixed row) := fun hright =>
  absurd ((evaluateWhere_eq_iff isWhere_mixed).2.2 (by decide) hright) (by simp [Flat, mixed])

/-- The row that has `a=1` alone is not selected. -/
theorem not_forall_evaluateWhere_eq : ¬∀ alternatives row, IsWhere alternatives →
    evaluateWhere (whereText alternatives) row = .ok (sqlValue alternatives row) := by
  intro h
  have hmixed := h mixed ((∅ : Row).insert (ascii "a") (ascii "1")) isWhere_mixed
  rw [evaluateWhere_whereText isWhere_mixed, Except.ok.injEq] at hmixed
  revert hmixed
  decide

end Dbx4.WherePrecedence
