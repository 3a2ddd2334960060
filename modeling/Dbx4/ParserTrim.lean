import Mathlib.Data.List.DropRight
import Mathlib.Data.List.GetD
import Mathlib.Data.List.Induction
import Dbx4.SqlLexer

/-!
`EnhancedSQLParser::trim` of `sql_parser_enhanced.cpp`.

Iterators are offsets into the text. The second loop moves its iterator back before it looks at
it, which takes it out of a text that is empty.
-/

namespace Dbx4.ParserTrim

open Dbx4.Word32 Dbx4.SqlLexer

/-- `while (start != s.end() && std::isspace(*start)) { ++start; }` -/
def startOf : Bytes → ℕ
  | [] => 0
  | c :: s => if isspace c then startOf s + 1 else 0

/-- `do { --end; } while (std::distance(start, end) > 0 && std::isspace(*end));` from an offset;
none where the iterator leaves the text. -/
def endFrom (s : Bytes) (start : ℕ) : ℕ → Option ℕ
  | 0 => none
  | e + 1 => if start < e ∧ isspace (s.getD e 0) then endFrom s start e else some e

/-- None where the behaviour is undefined. -/
def trim (s : Bytes) : Option Bytes := do
  let start := startOf s
  let e ← endFrom s start s.length
  return (s.take (e + 1)).drop start

/-- The text without the white space at its ends. -/
def stripped (s : Bytes) : Bytes := (s.dropWhile isspace).rdropWhile isspace

/-- The iterators stay inside, the white space at the ends goes, and trimming once more changes
nothing. -/
def TrimRight (s : Bytes) : Prop := trim s = some (stripped s) ∧ (trim s).bind trim = trim s

variable {s : Bytes}

lemma startOf_append {blank rest : Bytes} (hblank : ∀ c ∈ blank, isspace c)
    (hrest : isspace (rest.headD 0) = false) : startOf (blank ++ rest) = blank.length := by
  induction blank with
  | nil =>
    rcases rest with _ | ⟨c, rest⟩
    · rfl
    · exact if_neg (Bool.eq_false_iff.mp hrest)
  | cons c blank ih =>
    rw [List.forall_mem_cons] at hblank
    rw [List.cons_append, startOf, if_pos hblank.1, ih hblank.2, List.length_cons]

/-- The loop looks at nothing behind where it starts. -/
lemma endFrom_append (s s' : Bytes) (start : ℕ) {e : ℕ} (he : e ≤ s.length) :
    endFrom (s ++ s') start e = endFrom s start e := by
  induction e with
  | zero => rfl
  | succ e ih =>
    have hget : (s ++ s').getD e 0 = s.getD e 0 := by
      rw [List.getD_append _ _ _ _ he]
    rw [endFrom, endFrom, hget, ih (by omega)]

/-- Behind the first character that is no white space, the loop stops at the last. -/
lemma endFrom_length {blank rest : Bytes} (hne : rest ≠ [])
    (hrest : isspace (rest.headD 0) = false) :
    ∃ e, endFrom (blank ++ rest) blank.length (blank ++ rest).length = some e ∧
      e < (blank ++ rest).length ∧
      (blank ++ rest).take (e + 1) = blank ++ rest.rdropWhile isspace := by
  induction rest using List.reverseRecOn with
  | nil => exact absurd rfl hne
  | append_singleton rest c ih =>
    have hlast : (blank ++ (rest ++ [c])).getD (blank ++ rest).length 0 = c := by
      rw [← List.append_assoc]
      simp
    have hlength : (blank ++ (rest ++ [c])).length = (blank ++ rest).length + 1 := by
      rw [← List.append_assoc, List.length_append, List.length_singleton]
    rw [hlength, endFrom, hlast]
    by_cases hc : isspace c
    · have hne' : rest ≠ [] := by
        rintro rfl
        exact Bool.noConfusion (hc.symm.trans hrest)
      obtain ⟨d, rest, rfl⟩ := List.exists_cons_of_ne_nil hne'
      obtain ⟨e, hend, hlt, htake⟩ := ih hne' hrest
      have hpos : blank.length < (blank ++ d :: rest).length := by simp
      refine ⟨e, ?_, by omega, ?_⟩
      · rw [if_pos ⟨hpos, hc⟩, ← List.append_assoc, endFrom_append _ _ _ le_rfl, hend]
      · rw [List.rdropWhile_concat_pos _ _ _ hc, ← htake, ← List.append_assoc,
          List.take_append_of_le_length hlt]
    · refine ⟨(blank ++ rest).length, if_neg fun h => hc h.2, by omega, ?_⟩
      rw [List.rdropWhile_concat_neg _ _ _ hc, ← hlength, List.take_length]

/-- The first character behind the white space. -/
lemma dropWhile_spec (h : ∃ c ∈ s, isspace c = false) :
    ∃ c rest, s.dropWhile isspace = c :: rest ∧ isspace c = false := by
  have hne : s.dropWhile isspace ≠ [] := by
    obtain ⟨c, hc, hspace⟩ := h
    rw [Ne, List.dropWhile_eq_nil_iff, not_forall]
    exact ⟨c, fun hall => Bool.noConfusion ((hall hc).symm.trans hspace)⟩
  obtain ⟨c, rest, hrest⟩ := List.exists_cons_of_ne_nil hne
  have hhead := List.head?_dropWhile_not isspace s
  rw [hrest] at hhead
  exact ⟨c, rest, hrest, hhead⟩

/-- What is left begins and ends with what is no white space. -/
lemma stripped_spec (h : ∃ c ∈ s, isspace c = false) :
    ∃ c rest, stripped s = c :: rest ∧ isspace c = false := by
  obtain ⟨c, rest, hrest, hc⟩ := dropWhile_spec h
  have hpre := List.rdropWhile_prefix isspace (l := s.dropWhile isspace)
  have hne : (s.dropWhile isspace).rdropWhile isspace ≠ [] := by
    rw [hrest, Ne, List.rdropWhile_eq_nil_iff, not_forall]
    exact ⟨c, fun hall => Bool.noConfusion ((hall List.mem_cons_self).symm.trans hc)⟩
  obtain ⟨d, left, hleft⟩ := List.exists_cons_of_ne_nil hne
  rw [hleft, hrest, List.cons_prefix_cons] at hpre
  exact ⟨d, left, hleft, hpre.1 ▸ hc⟩

lemma stripped_stripped (h : ∃ c ∈ s, isspace c = false) : stripped (stripped s) = stripped s := by
  obtain ⟨c, rest, hrest, hc⟩ := stripped_spec h
  have hdrop : (stripped s).dropWhile isspace = stripped s := by
    rw [hrest, List.dropWhile_cons_of_neg (Bool.eq_false_iff.mp hc)]
  rw [stripped, hdrop, stripped, List.rdropWhile_idempotent]

/-- A text with a character that is no white space. -/
lemma trim_of_exists (h : ∃ c ∈ s, isspace c = false) : trim s = some (stripped s) := by
  obtain ⟨c, rest, hrest, hc⟩ := dropWhile_spec h
  have hsplit : s = s.takeWhile isspace ++ c :: rest := by
    rw [← hrest, List.takeWhile_append_dropWhile]
  have hblank : ∀ d ∈ s.takeWhile isspace, isspace d := fun d hd => List.mem_takeWhile_imp hd
  have hstart : startOf s = (s.takeWhile isspace).length := by
    conv_lhs => rw [hsplit]
    exact startOf_append hblank hc
  obtain ⟨e, hend, -, htake⟩ :=
    @endFrom_length (s.takeWhile isspace) (c :: rest) (List.cons_ne_nil c rest) hc
  rw [← hsplit] at hend htake
  rw [trim, hstart]
  dsimp only [bind]
  rw [hend, Option.bind_some, htake, List.drop_left, stripped, hrest]
  rfl

/-- Of white space nothing is left. -/
lemma trim_of_forall (hne : s ≠ []) (h : ∀ c ∈ s, isspace c) :
    trim s = some [] ∧ stripped s = [] := by
  have hstart : startOf s = s.length := by
    have happend : startOf (s ++ []) = s.length := startOf_append h rfl
    rwa [List.append_nil] at happend
  have hdrop : s.dropWhile isspace = [] := List.dropWhile_eq_nil_iff.mpr h
  obtain ⟨n, hn⟩ := Nat.exists_eq_add_one_of_ne_zero (List.length_pos_iff.mpr hne).ne'
  have hend : endFrom s s.length s.length = some n := by
    rw [hn, endFrom, if_neg fun hlt => absurd hlt.1 (by omega)]
  constructor
  · rw [trim, hstart]
    dsimp only [bind]
    rw [hend, Option.bind_some, ← hn, List.take_length, List.drop_length]
    rfl
  · rw [stripped, hdrop, List.rdropWhile_nil]

/-- **When trimming is right**: alone, for every text that is not empty; and once more, for the
texts that are not white space only. -/
theorem trimRight_iff (s : Bytes) :
    (trim s = some (stripped s) ↔ s ≠ []) ∧ (TrimRight s ↔ ∃ c ∈ s, isspace c = false) := by
  have hnil : trim [] = none := rfl
  by_cases hs : ∃ c ∈ s, isspace c = false
  · have hne : s ≠ [] := by
      obtain ⟨c, hc, -⟩ := hs
      exact List.ne_nil_of_mem hc
    have htwice : ∃ c ∈ stripped s, isspace c = false := by
      obtain ⟨c, rest, hrest, hc⟩ := stripped_spec hs
      exact ⟨c, hrest ▸ List.mem_cons_self, hc⟩
    refine ⟨iff_of_true (trim_of_exists hs) hne, iff_of_true ⟨trim_of_exists hs, ?_⟩ hs⟩
    rw [trim_of_exists hs, Option.bind_some, trim_of_exists htwice, stripped_stripped hs]
  · have hall : ∀ c ∈ s, isspace c := by
      simpa using hs
    by_cases hne : s = []
    · subst hne
      refine ⟨iff_of_false ?_ (not_not.mpr rfl), iff_of_false (fun h => ?_) hs⟩
      · rw [hnil]
        exact (Option.some_ne_none _).symm
      · exact absurd (hnil.symm.trans h.1) (Option.some_ne_none _).symm
    · obtain ⟨htrim, hstripped⟩ := trim_of_forall hne hall
      refine ⟨iff_of_true (by rw [htrim, hstripped]) hne, iff_of_false (fun h => ?_) hs⟩
      have hagain := h.2
      rw [htrim, Option.bind_some, hnil] at hagain
      exact (Option.some_ne_none _).symm hagain

/-- An empty text. -/
theorem not_forall_trimRight : ¬∀ s, TrimRight s := fun h => by
  cases (h []).1

end Dbx4.ParserTrim
