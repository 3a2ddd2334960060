import Mathlib.Data.Bool.AllAny
import Dbx4.ForEach
import Dbx4.SelectModel

/-!
`WHERE` clauses of `sql_executor_enhanced.cpp` that compare otherwise than with `=`.

A clause is refused where no `=` is found in it. The operators `<=`, `>=` and `!=` have one, and
are read as an equality whose column has the other sign at its end.
-/

namespace Dbx4.WhereOperators

open Std Dbx4.Word32 Dbx4.ForEach Dbx4.SqlLexer Dbx4.Substrings Dbx4.SelectModel

/-- The operators that the evaluation does not know. -/
def operators : List Bytes :=
  [ascii "<", ascii ">", ascii "<=", ascii ">=", ascii "!=", ascii "<>"]

/-- A name or a value without a space and without `=`. -/
def IsSimple (word : Bytes) : Prop := ' '.toUInt8 ∉ word ∧ '='.toUInt8 ∉ word

/-- What the evaluation says about a clause that it refuses. -/
def Unsupported (e : Bytes) : Prop := ∃ clause, e = ascii "Unsupported WHERE syntax: " ++ clause

/-- A clause that has no connective but perhaps a `NOT` is refused unless it has an `=`. -/
def RefusedUnless (answer : Except Bytes Bool) (equals : Prop) : Prop :=
  (equals → ∃ b, answer = .ok b) ∧ (¬equals → ∃ e, answer = .error e ∧ Unsupported e)

lemma refusedUnless_equality (clause : Bytes) (row : Row) :
    RefusedUnless (evaluateEquality clause row) ('='.toUInt8 ∈ clause) := by
  constructor
  · intro hmem
    rcases hfind : find (ascii "=") clause with _ | i
    · exact absurd hmem (find_singleton_eq_none_iff.mp hfind)
    · rw [evaluateEquality, hfind]
      dsimp only
      split <;> exact ⟨_, rfl⟩
  · intro hmem
    have hnone : find (ascii "=") clause = none := find_singleton_eq_none_iff.mpr hmem
    exact ⟨_, by rw [evaluateEquality, hnone], clause, rfl⟩

lemma RefusedUnless.not {answer : Except Bytes Bool} {equals : Prop}
    (h : RefusedUnless answer equals) :
    RefusedUnless (do let result ← answer; return !result) equals := by
  refine ⟨fun hequals => ?_, fun hequals => ?_⟩
  · obtain ⟨b, rfl⟩ := h.1 hequals
    exact ⟨!b, rfl⟩
  · obtain ⟨e, rfl, he⟩ := h.2 hequals
    exact ⟨e, rfl, he⟩

/-- Signs and spaces between two words. -/
structure Comparison (front mid back : Bytes) : Prop where
  noSpace : ' '.toUInt8 ∉ front
  noSpace' : ' '.toUInt8 ∉ back
  signs : ∀ c ∈ mid, c ∈ ascii " <>=!"
  sign : ∃ c ∈ mid, c ≠ ' '.toUInt8

namespace Comparison

variable {front mid back : Bytes}

lemma find_eq_none (h : Comparison front mid back) {W : Bytes}
    (hW : ∃ c ∈ W, c ∉ ascii " <>=!") :
    find (' '.toUInt8 :: (W ++ [' '.toUInt8])) (front ++ mid ++ back) = none := by
  obtain ⟨c, hc, hsign⟩ := hW
  exact find_eq_none_iff.mpr fun hinfix =>
    hsign (h.signs c (mem_of_isInfix h.noSpace h.noSpace' hinfix c hc))

lemma mid_ne_nil (h : Comparison front mid back) : mid ≠ [] := by
  obtain ⟨c, hc, -⟩ := h.sign
  exact List.ne_nil_of_mem hc

lemma evaluateWhere_eq (h : Comparison front mid back) (row : Row) :
    evaluateWhere (front ++ mid ++ back) row =
      if ascii "NOT " <+: front ++ mid ++ back then do
        let result ← evaluateWhere ((front ++ mid ++ back).drop 4) row
        return !result
      else evaluateEquality (front ++ mid ++ back) row :=
  evaluateWhere_of_none
    (List.append_ne_nil_of_left_ne_nil (List.append_ne_nil_of_right_ne_nil _ h.mid_ne_nil) _)
    (h.find_eq_none (W := ascii "AND") ⟨'A'.toUInt8, by decide, by decide⟩)
    (h.find_eq_none (W := ascii "OR") ⟨'O'.toUInt8, by decide, by decide⟩)

/-- A clause that starts with `NOT` and a space has `NOT` for its column. -/
lemma of_not (h : Comparison front mid back) {rest : Bytes}
    (hnot : ascii "NOT " ++ rest = front ++ mid ++ back) :
    ∃ mid', Comparison [] mid' back ∧ rest = mid' ++ back := by
  obtain ⟨c, mid, rfl⟩ := List.exists_cons_of_ne_nil h.mid_ne_nil
  have hsplit : ascii "NOT" ++ ' '.toUInt8 :: rest = front ++ c :: (mid ++ back) := by
    rw [List.append_assoc] at hnot
    exact hnot
  have hspace : c = ' '.toUInt8 ∧ rest = mid ++ back := by
    rcases List.append_eq_append_iff.mp hsplit with ⟨as, rfl, has⟩ | ⟨as, has, hcons⟩
    · rcases List.cons_eq_append_iff.mp has with ⟨rfl, hcons⟩ | ⟨as, rfl, -⟩
      · exact ⟨(List.cons.inj hcons).1, (List.cons.inj hcons).2.symm⟩
      · exact absurd (List.mem_append_right _ List.mem_cons_self) h.noSpace
    · rcases List.cons_eq_append_iff.mp hcons with ⟨rfl, hcons⟩ | ⟨as, rfl, -⟩
      · exact ⟨(List.cons.inj hcons).1, (List.cons.inj hcons).2.symm⟩
      · have hletters : ∀ x ∈ ascii "NOT", x ∉ ascii " <>=!" :=
          List.all_iff_forall_prop.mp rfl
        exact absurd (h.signs c List.mem_cons_self)
          (hletters c (has ▸ List.mem_append_right _ List.mem_cons_self))
  obtain ⟨rfl, rfl⟩ := hspace
  refine ⟨mid, ⟨List.not_mem_nil, h.noSpace', fun c hc => h.signs c (List.mem_cons_of_mem _ hc),
    ?_⟩, rfl⟩
  obtain ⟨c, hc, hsign⟩ := h.sign
  exact ⟨c, (List.mem_cons.mp hc).resolve_left hsign, hsign⟩

/-- Without a column no clause starts with `NOT`. -/
lemma refusedUnless_nil (h : Comparison [] mid back) (row : Row) :
    RefusedUnless (evaluateWhere (mid ++ back) row) ('='.toUInt8 ∈ mid ++ back) := by
  have heq := h.evaluateWhere_eq row
  rw [List.nil_append, if_neg] at heq
  · rw [heq]
    exact refusedUnless_equality _ row
  · obtain ⟨c, mid, rfl⟩ := List.exists_cons_of_ne_nil h.mid_ne_nil
    intro hpre
    obtain rfl := (List.cons_prefix_cons.mp hpre).1
    exact absurd (h.signs _ List.mem_cons_self) (by decide)

lemma refusedUnless (h : Comparison front mid back) (row : Row) :
    RefusedUnless (evaluateWhere (front ++ mid ++ back) row)
      ('='.toUInt8 ∈ front ++ mid ++ back) := by
  rw [h.evaluateWhere_eq row]
  split_ifs with hpre
  · obtain ⟨rest, hrest⟩ := hpre
    obtain ⟨mid', h', rfl⟩ := h.of_not hrest
    have hmem : '='.toUInt8 ∈ ascii "NOT " ++ (mid' ++ back) ↔ '='.toUInt8 ∈ mid' ++ back := by
      rw [List.mem_append, or_iff_right (by decide)]
    rw [← hrest, hmem]
    exact (h'.refusedUnless_nil row).not
  · exact refusedUnless_equality _ row

end Comparison

/-! ### SELECT -/

/-- Column, operator and value, with any number of spaces around the operator. -/
def comparisonText (col : Bytes) (i : ℕ) (op : Bytes) (j : ℕ) (val : Bytes) : Bytes :=
  col ++ (List.replicate i ' '.toUInt8 ++ op ++ List.replicate j ' '.toUInt8) ++ val

lemma comparison_of_mem {col op val : Bytes} (hcol : IsSimple col) (hval : IsSimple val)
    (hop : op ∈ operators) (i j : ℕ) :
    Comparison col (List.replicate i ' '.toUInt8 ++ op ++ List.replicate j ' '.toUInt8) val := by
  have hall : ∀ op ∈ operators,
      op.all (· ∈ ascii " <>=!") ∧ op.any (· ≠ ' '.toUInt8) := by
    decide
  obtain ⟨hsigns, hsign⟩ := hall op hop
  rw [List.all_iff_forall_prop] at hsigns
  rw [List.any_iff_exists_prop] at hsign
  obtain ⟨c, hc, hsign⟩ := hsign
  refine ⟨hcol.1, hval.1, fun x hx => ?_, c, ?_, hsign⟩
  · rw [List.mem_append, List.mem_append] at hx
    rcases hx with (hx | hx) | hx
    · rw [List.eq_of_mem_replicate hx]
      decide
    · exact hsigns x hx
    · rw [List.eq_of_mem_replicate hx]
      decide
  · exact List.mem_append_left _ (List.mem_append_right _ hc)

section Select

variable {col op val : Bytes}

/-- The operators without an `=`. -/
lemma equals_mem_iff (hcol : IsSimple col) (hval : IsSimple val) (hop : op ∈ operators)
    (i j : ℕ) : '='.toUInt8 ∈ comparisonText col i op j val ↔
      ¬(op = ascii "<" ∨ op = ascii ">" ∨ op = ascii "<>") := by
  have hall : ∀ op ∈ operators,
      '='.toUInt8 ∈ op ↔ ¬(op = ascii "<" ∨ op = ascii ">" ∨ op = ascii "<>") := by decide
  have hspaces (n : ℕ) : '='.toUInt8 ∉ List.replicate n ' '.toUInt8 := fun hmem =>
    absurd (List.eq_of_mem_replicate hmem) (by decide)
  simp only [comparisonText, List.mem_append, hcol.2, hval.2, hspaces, false_or, or_false,
    hall op hop]

/-- With an `=` every row has an answer. -/
lemma executeSelect_of_equals (hcol : IsSimple col) (hval : IsSimple val)
    (hop : op ∈ operators) (hequals : ¬(op = ascii "<" ∨ op = ascii ">" ∨ op = ascii "<>"))
    (i j : ℕ) (rows : List Row) (projection orderBy : Bytes) (limit : Int32) :
    ∃ result, executeSelect rows projection orderBy limit (comparisonText col i op j val) =
      .ok result := by
  have hcomparison := comparison_of_mem hcol hval hop i j
  have hmem := (equals_mem_iff hcol hval hop i j).mpr hequals
  choose b hb using fun row => (hcomparison.refusedUnless row).1 hmem
  have hfilter : rows.filterM (evaluateWhere (comparisonText col i op j val)) = _ :=
    filterM_of_ok fun row _ => hb row
  rw [executeSelect, hfilter]
  exact ⟨_, rfl⟩

/-- **Which operators are refused**: those without an `=`. -/
theorem executeSelect_unsupported_iff (hcol : IsSimple col) (hval : IsSimple val)
    (hop : op ∈ operators) (i j : ℕ) {rows : List Row} (hne : rows ≠ [])
    (projection orderBy : Bytes) (limit : Int32) :
    (∃ e, executeSelect rows projection orderBy limit (comparisonText col i op j val) = .error e ∧
        Unsupported e) ↔
      op = ascii "<" ∨ op = ascii ">" ∨ op = ascii "<>" := by
  constructor
  · rintro ⟨e, herror, -⟩
    by_contra hnot
    obtain ⟨result, hresult⟩ :=
      executeSelect_of_equals hcol hval hop hnot i j rows projection orderBy limit
    rw [hresult] at herror
    cases herror
  · intro hsign
    have hcomparison := comparison_of_mem hcol hval hop i j
    obtain ⟨row, rows, rfl⟩ := List.exists_cons_of_ne_nil hne
    obtain ⟨e, herror, he⟩ := (hcomparison.refusedUnless row).2
      fun hmem => (equals_mem_iff hcol hval hop i j).mp hmem hsign
    refine ⟨e, ?_, he⟩
    rw [executeSelect, comparisonText, filterM_cons_of_error herror rows]
    rfl

end Select

/-- `a < 5` is refused. -/
theorem executeSelect_unsupported_iff_less :
    (∃ e, executeSelect [∅] (ascii "*") [] 0
        (comparisonText (ascii "a") 1 (ascii "<") 1 (ascii "5")) = .error e ∧ Unsupported e) ↔
      ascii "<" = ascii "<" ∨ ascii "<" = ascii ">" ∨ ascii "<" = ascii "<>" :=
  executeSelect_unsupported_iff ⟨by decide, by decide⟩ ⟨by decide, by decide⟩ (by decide) 1 1
    (List.cons_ne_nil _ _) _ _ _

/-- `a <= 5` is answered. -/
theorem not_forall_unsupported : ¬∀ col op val i j (rows : List Row), IsSimple col →
    IsSimple val → op ∈ operators → rows ≠ [] → ∀ projection orderBy limit,
      ∃ e, executeSelect rows projection orderBy limit (comparisonText col i op j val) = .error e ∧
        Unsupported e := by
  have hcol : IsSimple (ascii "a") := ⟨by decide, by decide⟩
  have hval : IsSimple (ascii "5") := ⟨by decide, by decide⟩
  have hop : ascii "<=" ∈ operators := by decide
  intro h
  obtain ⟨e, herror, -⟩ :=
    h _ _ _ 1 1 [∅] hcol hval hop (List.cons_ne_nil _ _) (ascii "*") [] 0
  obtain ⟨result, hresult⟩ :=
    executeSelect_of_equals hcol hval hop (by decide) 1 1 [∅] (ascii "*") [] 0
  rw [hresult] at herror
  cases herror

end Dbx4.WhereOperators
