import Dbx4.SqlLexer

/-!
The source text of a token, and what each loop of the lexer passes over.
-/

namespace Dbx4.LexText

open Dbx4.Word32 Dbx4.SqlAst Dbx4.SqlLexer

/-! ### Source texts -/

/-- What follows the first quote of a string, up to the last, and the value of the string. -/
inductive Quoted : Bytes → Bytes → Prop
  | close : Quoted ['\''.toUInt8] []
  | escape {text value : Bytes} (c : UInt8) (h : Quoted text value) :
    Quoted ('\\'.toUInt8 :: c :: text) (unescape c :: value)
  | plain {text value : Bytes} {c : UInt8} (hnul : c ≠ 0) (hquote : c ≠ '\''.toUInt8)
    (hback : c ≠ '\\'.toUInt8) (h : Quoted text value) : Quoted (c :: text) (c :: value)

/-- What follows the opening of a block comment, up to its first `*/`. -/
inductive Block : Bytes → Prop
  | close : Block ['*'.toUInt8, '/'.toUInt8]
  | step {text : Bytes} {c : UInt8} (hnul : c ≠ 0)
    (hopen : ¬(c = '*'.toUInt8 ∧ text.headD 0 = '/'.toUInt8)) (h : Block text) :
    Block (c :: text)

lemma Block.ne_nil {text : Bytes} (h : Block text) : text ≠ [] := by
  cases h with
  | close => exact List.cons_ne_nil _ _
  | step hnul hopen h => exact List.cons_ne_nil _ _

/-- The characters of numbers, words and punctuation that open no comment. -/
def plain (c : UInt8) : Bool := isalnum c || (ascii "_.=<>+*%(),;").contains c

lemma ne_of_class {p : UInt8 → Bool} {c x : UInt8} (hc : p c) (hx : p x = false) : c ≠ x := by
  rintro rfl
  exact Bool.noConfusion (hc.symm.trans hx)

def inWord (c : UInt8) : Bool := isalnum c || c = '_'.toUInt8

lemma plain_of_inWord {c : UInt8} (h : inWord c) : plain c := by
  rcases Bool.or_eq_true_iff.mp h with h | h
  · rw [plain, h, Bool.true_or]
  · obtain rfl := of_decide_eq_true h
    decide

def inLine (c : UInt8) : Bool := c ≠ '\n'.toUInt8 && c ≠ 0

def inQuotes (c : UInt8) : Bool := c ≠ '"'.toUInt8 && c ≠ 0

/-- The source text of a token with this type and this value. -/
inductive Source : Bytes → TokenType → Bytes → Prop
  | string {text value : Bytes} (h : Quoted text value) :
    Source ('\''.toUInt8 :: text) .STRING value
  | identifier {id : Bytes} (h : ∀ c ∈ id, inQuotes c) :
    Source ('"'.toUInt8 :: (id ++ ['"'.toUInt8])) .IDENTIFIER id
  | word {value : Bytes} (type : TokenType) (hne : value ≠ []) (h : ∀ c ∈ value, plain c) :
    Source value type value
  | minus : Source (ascii "-") .MINUS (ascii "-")
  | divide : Source (ascii "/") .DIVIDE (ascii "/")

lemma Source.ne_nil {text value : Bytes} {type : TokenType} (h : Source text type value) :
    text ≠ [] := by
  cases h with
  | string h => exact List.cons_ne_nil _ _
  | identifier h => exact List.cons_ne_nil _ _
  | word type hne h => exact hne
  | minus => exact List.cons_ne_nil _ _
  | divide => exact List.cons_ne_nil _ _

/-! ### Passing over a text -/

/-- The lexer has moved over the text. -/
structure Passes (l : SQLLexer) (text : Bytes) (l' : SQLLexer) : Prop where
  rest : l.rest = text ++ l'.rest
  cursor : l'.cursor = text.foldl Cursor.advance l.cursor

namespace Passes

variable {l l' l'' : SQLLexer} {text text' rest : Bytes} {k : Cursor} {c : UInt8}

lemma nil (l : SQLLexer) : Passes l [] l := ⟨rfl, rfl⟩

lemma cons (h : Passes ⟨rest, k.advance c⟩ text l') : Passes ⟨c :: rest, k⟩ (c :: text) l' :=
  ⟨congrArg (c :: ·) h.rest, h.cursor⟩

lemma trans (h : Passes l text l') (h' : Passes l' text' l'') : Passes l (text ++ text') l'' := by
  refine ⟨?_, ?_⟩
  · rw [h.rest, h'.rest, List.append_assoc]
  · rw [h'.cursor, h.cursor, List.foldl_append]

lemma advance (hc : l.current = c) (hnul : c ≠ 0) : Passes l [c] l.advance := by
  obtain ⟨_ | ⟨d, rest⟩, k⟩ := l
  · exact absurd hc.symm hnul
  · obtain rfl : d = c := hc
    exact ⟨rfl, rfl⟩

lemma advance_two {d : UInt8} (hc : l.current = c) (hd : l.peek = d) (hnul : c ≠ 0)
    (hnul' : d ≠ 0) : Passes l [c, d] l.advance.advance := by
  obtain ⟨_ | ⟨a, rest⟩, k⟩ := l
  · exact absurd hc.symm hnul
  · exact (advance hc hnul).trans (advance hd hnul')

lemma length (h : Passes l text l') : l'.rest.length + text.length = l.rest.length := by
  rw [h.rest, List.length_append, Nat.add_comm]

/-- Between two characters of which only the first is in the class stands some text. -/
lemma ne_nil {p : UInt8 → Bool} (h : Passes l text l') (hl : p l.current)
    (hl' : p l'.current = false) : text ≠ [] := by
  rintro rfl
  have hrest : l.rest = l'.rest := h.rest
  rw [SQLLexer.current, hrest] at hl
  exact Bool.noConfusion (hl.symm.trans hl')

end Passes

/-! ### The loops -/

lemma readWhile_cons {p : UInt8 → Bool} {c : UInt8} (hc : p c) (rest : Bytes) (k : Cursor) :
    readWhile p (c :: rest) k =
      (c :: (readWhile p rest (k.advance c)).1, (readWhile p rest (k.advance c)).2) := by
  rw [readWhile, if_pos hc]

lemma readWhile_spec {p : UInt8 → Bool} (h0 : p 0 = false) (rest : Bytes) (k : Cursor) :
    Passes ⟨rest, k⟩ (readWhile p rest k).1 (readWhile p rest k).2 ∧
      (∀ c ∈ (readWhile p rest k).1, p c) ∧ p (readWhile p rest k).2.current = false := by
  induction rest generalizing k with
  | nil => exact ⟨.nil _, fun c hc => absurd hc List.not_mem_nil, h0⟩
  | cons c rest ih =>
    by_cases hc : p c
    · rw [readWhile_cons hc]
      obtain ⟨hpass, hall, hstop⟩ := ih (k.advance c)
      exact ⟨hpass.cons, List.forall_mem_cons.mpr ⟨hc, hall⟩, hstop⟩
    · rw [readWhile, if_neg hc]
      exact ⟨.nil _, fun c hc => absurd hc List.not_mem_nil, Bool.eq_false_iff.mpr hc⟩

/-- The loop reads the text that is in the class. -/
lemma readWhile_append {p : UInt8 → Bool} {text rest : Bytes} (htext : ∀ c ∈ text, p c)
    (hrest : p (rest.headD 0) = false) (k : Cursor) :
    readWhile p (text ++ rest) k = (text, ⟨rest, text.foldl Cursor.advance k⟩) := by
  induction text generalizing k with
  | nil =>
    rcases rest with _ | ⟨c, rest⟩
    · rfl
    · exact if_neg (Bool.eq_false_iff.mp hrest)
  | cons c text ih =>
    rw [List.forall_mem_cons] at htext
    rw [List.cons_append, readWhile_cons htext.1, ih htext.2]
    rfl

lemma skipBlock_spec {rest : Bytes} {k : Cursor} {l : SQLLexer}
    (h : skipBlock rest k = some l) : ∃ text, Passes ⟨rest, k⟩ text l ∧ Block text := by
  induction rest generalizing k with
  | nil => exact absurd h (Option.some_ne_none l).symm
  | cons c rest ih =>
    rw [skipBlock] at h
    split_ifs at h with hnul hclose
    · obtain ⟨rfl, hslash⟩ := hclose
      rcases rest with _ | ⟨d, rest⟩
      · exact absurd hslash (by decide)
      · obtain rfl : d = '/'.toUInt8 := hslash
        obtain rfl := Option.some.inj h
        exact ⟨_, ⟨rfl, rfl⟩, .close⟩
    · obtain ⟨text, hpass, hblock⟩ := ih h
      refine ⟨c :: text, hpass.cons, .step hnul (fun hopen => hclose ?_) hblock⟩
      have hrest : rest = text ++ l.rest := hpass.rest
      rcases text with _ | ⟨d, text⟩
      · exact absurd rfl hblock.ne_nil
      · exact ⟨hopen.1, hrest ▸ hopen.2⟩

lemma readQuoted_spec {rest : Bytes} {k : Cursor}
    (h : (readQuoted '\''.toUInt8 rest k).2.current = '\''.toUInt8) :
    ∃ text, Passes ⟨rest, k⟩ text (readQuoted '\''.toUInt8 rest k).2.advance ∧
      Quoted text (readQuoted '\''.toUInt8 rest k).1 := by
  fun_induction readQuoted '\''.toUInt8 rest k with
  | case1 k => exact absurd (show 0 = '\''.toUInt8 from h) (by decide)
  | case2 c rest k hstop => exact ⟨_, .advance h (by decide), .close⟩
  | case3 k => exact absurd (show 0 = '\''.toUInt8 from h) (by decide)
  | case4 k e rest hstop value l hr ih =>
    rw [hr] at ih
    obtain ⟨text, hpass, hquoted⟩ := ih h
    exact ⟨_, hpass.cons.cons, .escape e hquoted⟩
  | case5 c rest k hstop hback value l hr ih =>
    rw [hr] at ih
    obtain ⟨text, hpass, hquoted⟩ := ih h
    rw [not_or] at hstop
    exact ⟨_, hpass.cons, .plain hstop.2 hstop.1 hback hquoted⟩

lemma readDigits_spec (hasDot : Bool) (rest : Bytes) (k : Cursor) :
    Passes ⟨rest, k⟩ (readDigits hasDot rest k).1 (readDigits hasDot rest k).2.2 ∧
      (∀ c ∈ (readDigits hasDot rest k).1, plain c) ∧
      isdigit (readDigits hasDot rest k).2.2.current = false := by
  fun_induction readDigits hasDot rest k with
  | case1 hasDot k => exact ⟨.nil _, fun c hc => absurd hc List.not_mem_nil, rfl⟩
  | case2 hasDot c rest k hc value hasDot' l hr ih =>
    rw [hr] at ih
    obtain ⟨hpass, hall, hstop⟩ := ih
    refine ⟨hpass.cons, List.forall_mem_cons.mpr ⟨?_, hall⟩, hstop⟩
    rcases hc with hc | ⟨rfl, -⟩
    · rw [plain, isalnum, hc, Bool.or_true, Bool.true_or]
    · decide
  | case3 hasDot c rest k hc =>
    rw [not_or] at hc
    exact ⟨.nil _, fun c hc => absurd hc List.not_mem_nil, Bool.eq_false_iff.mpr hc.1⟩

/-! ### Comments -/

section Comments

variable {l l' : SQLLexer}

/-- A line comment goes up to the end of its line, or else to a NUL byte or the end. -/
lemma skipComment_line (hl : l.atLineComment) (h : l.skipComment = .ok l') :
    ∃ body, (∀ c ∈ body, inLine c) ∧ (Passes l (ascii "--" ++ body ++ ['\n'.toUInt8]) l' ∨
      Passes l (ascii "--" ++ body) l' ∧ l'.current = 0) := by
  rw [SQLLexer.skipComment, if_pos hl] at h
  simp only [SQLLexer.atLineComment, Bool.and_eq_true, decide_eq_true_eq] at hl
  have htwo := Passes.advance_two hl.1 hl.2 (by decide) (by decide)
  obtain ⟨hpass, hall, hstop⟩ := readWhile_spec (p := inLine) (by decide)
    l.advance.advance.rest l.advance.advance.cursor
  have hread : (readWhile inLine l.rest l.cursor).2 =
      (readWhile inLine l.advance.advance.rest l.advance.advance.cursor).2 := by
    rw [htwo.rest, htwo.cursor]
    rfl
  rw [← hread] at hpass hstop
  generalize hl₁ : (readWhile inLine l.rest l.cursor).2 = l₁ at hpass hstop
  change Except.ok (if (readWhile inLine l.rest l.cursor).2.current = '\n'.toUInt8 then
    (readWhile inLine l.rest l.cursor).2.advance
    else (readWhile inLine l.rest l.cursor).2) = _ at h
  rw [hl₁] at h
  refine ⟨_, hall, ?_⟩
  split_ifs at h with hline
  · obtain rfl := Except.ok.inj h
    exact .inl ((htwo.trans hpass).trans (.advance hline (by decide)))
  · obtain rfl := Except.ok.inj h
    refine .inr ⟨htwo.trans hpass, ?_⟩
    rw [inLine, decide_eq_true hline, Bool.true_and] at hstop
    exact not_not.mp (of_decide_eq_false hstop)

lemma skipComment_block (hl : ¬l.atLineComment) (hb : l.atBlockComment)
    (h : l.skipComment = .ok l') :
    ∃ text, Block text ∧ Passes l (ascii "/*" ++ text) l' := by
  rw [SQLLexer.skipComment, if_neg hl, if_pos hb] at h
  simp only [SQLLexer.atBlockComment, Bool.and_eq_true, decide_eq_true_eq] at hb
  split at h
  · rename_i l₁ hskip
    obtain rfl := Except.ok.inj h
    obtain ⟨text, hpass, hblock⟩ := skipBlock_spec hskip
    exact ⟨text, hblock, (Passes.advance_two hb.1 hb.2 (by decide) (by decide)).trans hpass⟩
  · cases h

/-- A comment is one of the two kinds. -/
lemma skipComment_cases (hl : l.atLineComment ∨ l.atBlockComment) (h : l.skipComment = .ok l') :
    (∃ body, (∀ c ∈ body, inLine c) ∧ (Passes l (ascii "--" ++ body ++ ['\n'.toUInt8]) l' ∨
      Passes l (ascii "--" ++ body) l' ∧ l'.current = 0)) ∨
      ∃ text, Block text ∧ Passes l (ascii "/*" ++ text) l' := by
  by_cases hline : l.atLineComment
  · exact .inl (skipComment_line hline h)
  · exact .inr (skipComment_block hline (hl.resolve_left hline) h)

end Comments

/-! ### Tokens -/

/-- The token stands where the lexer was, and the lexer has moved over its source text. -/
def Reads (l : SQLLexer) (r : Token × SQLLexer) : Prop :=
  ∃ text type value, r.1 = l.cursor.token type value ∧ Source text type value ∧
    Passes l text r.2

section Reads

variable {l : SQLLexer} {r : Token × SQLLexer}

lemma reads_one {c : UInt8} (type : TokenType) (hl : l.current = c) (hc : plain c) :
    Reads l (l.cursor.token type [c], l.advance) :=
  ⟨[c], type, [c], rfl, .word type (List.cons_ne_nil _ _) (List.forall_mem_singleton.mpr hc),
    .advance hl (ne_of_class hc (by decide))⟩

lemma reads_two {c d : UInt8} (type : TokenType) (hl : l.current = c)
    (hl' : l.advance.current = d) (hc : plain c) (hd : plain d) :
    Reads l (l.cursor.token type [c, d], l.advance.advance) :=
  ⟨[c, d], type, [c, d], rfl, .word type (List.cons_ne_nil _ _)
    (List.forall_mem_cons.mpr ⟨hc, List.forall_mem_singleton.mpr hd⟩),
    (Passes.advance hl (ne_of_class hc (by decide))).trans
      (.advance hl' (ne_of_class hd (by decide)))⟩

lemma readString_spec (hl : l.current = '\''.toUInt8)
    (h : l.readString '\''.toUInt8 = .ok r) : Reads l r := by
  unfold SQLLexer.readString at h
  simp only [ne_eq, ite_not] at h
  split_ifs at h with hquote
  obtain rfl := Except.ok.inj h
  obtain ⟨text, hpass, hquoted⟩ := readQuoted_spec hquote
  exact ⟨_, _, _, rfl, .string hquoted, (Passes.advance hl (by decide)).trans hpass⟩

lemma readQuotedIdentifier_spec (hl : l.current = '"'.toUInt8)
    (h : l.readQuotedIdentifier = .ok r) : Reads l r := by
  unfold SQLLexer.readQuotedIdentifier at h
  simp only [ne_eq, ite_not] at h
  split_ifs at h with hquote
  obtain rfl := Except.ok.inj h
  obtain ⟨hpass, hall, -⟩ := readWhile_spec (p := inQuotes) (by decide) l.advance.rest
    l.advance.cursor
  exact ⟨_, _, _, rfl, .identifier hall, (Passes.advance hl (by decide)).trans
    (hpass.trans (.advance hquote (by decide)))⟩

lemma readNumber_spec (hl : isdigit l.current) (h : l.readNumber = .ok r) : Reads l r := by
  unfold SQLLexer.readNumber at h
  dsimp only at h
  split_ifs at h
  obtain rfl := Except.ok.inj h
  obtain ⟨hpass, hall, hstop⟩ := readDigits_spec false l.rest l.cursor
  exact ⟨_, _, _, rfl, .word _ (hpass.ne_nil hl hstop) hall, hpass⟩

lemma readIdentifier_spec (hl : isalpha l.current ∨ l.current = '_'.toUInt8) :
    Reads l l.readIdentifier := by
  have hfirst : inWord l.current := by
    rcases hl with hl | hl
    · rw [inWord, isalnum, hl, Bool.true_or, Bool.true_or]
    · rw [inWord, hl, decide_eq_true rfl, Bool.or_true]
  obtain ⟨hpass, hall, hstop⟩ := readWhile_spec (p := inWord) (by decide) l.rest l.cursor
  have hne := hpass.ne_nil hfirst hstop
  have hplain := fun c hc => plain_of_inWord (hall c hc)
  unfold SQLLexer.readIdentifier
  dsimp only
  split
  · exact ⟨_, _, _, rfl, .word _ hne hplain, hpass⟩
  · exact ⟨_, _, _, rfl, .word _ hne hplain, hpass⟩

lemma readOperator_spec (h : l.readOperator = .ok r) : Reads l r := by
  rcases ite_eq_iff.mp h with ⟨hl, h⟩ | ⟨-, h⟩
  · exact Except.ok.inj h ▸ reads_one _ hl (by decide)
  rcases ite_eq_iff.mp h with ⟨hl, h⟩ | ⟨-, h⟩
  · rcases ite_eq_iff.mp h with ⟨hl', h⟩ | ⟨-, h⟩
    · exact Except.ok.inj h ▸ reads_two _ hl hl' (by decide) (by decide)
    rcases ite_eq_iff.mp h with ⟨hl', h⟩ | ⟨-, h⟩
    · exact Except.ok.inj h ▸ reads_two _ hl hl' (by decide) (by decide)
    · exact Except.ok.inj h ▸ reads_one _ hl (by decide)
  rcases ite_eq_iff.mp h with ⟨hl, h⟩ | ⟨-, h⟩
  · rcases ite_eq_iff.mp h with ⟨hl', h⟩ | ⟨-, h⟩
    · exact Except.ok.inj h ▸ reads_two _ hl hl' (by decide) (by decide)
    · exact Except.ok.inj h ▸ reads_one _ hl (by decide)
  rcases ite_eq_iff.mp h with ⟨hl, h⟩ | ⟨-, h⟩
  · exact Except.ok.inj h ▸ reads_one _ hl (by decide)
  rcases ite_eq_iff.mp h with ⟨hl, h⟩ | ⟨-, h⟩
  · exact Except.ok.inj h ▸ ⟨_, _, _, rfl, .minus, .advance hl (by decide)⟩
  rcases ite_eq_iff.mp h with ⟨hl, h⟩ | ⟨-, h⟩
  · exact Except.ok.inj h ▸ reads_one _ hl (by decide)
  rcases ite_eq_iff.mp h with ⟨hl, h⟩ | ⟨-, h⟩
  · exact Except.ok.inj h ▸ ⟨_, _, _, rfl, .divide, .advance hl (by decide)⟩
  rcases ite_eq_iff.mp h with ⟨hl, h⟩ | ⟨-, h⟩
  · exact Except.ok.inj h ▸ reads_one _ hl (by decide)
  · cases h

lemma readToken_spec (h : l.readToken = .ok r) : Reads l r := by
  rcases ite_eq_iff.mp h with ⟨hl, h⟩ | ⟨-, h⟩
  · exact readString_spec hl h
  rcases ite_eq_iff.mp h with ⟨hl, h⟩ | ⟨-, h⟩
  · exact readQuotedIdentifier_spec hl h
  rcases ite_eq_iff.mp h with ⟨hl, h⟩ | ⟨-, h⟩
  · exact readNumber_spec hl h
  rcases ite_eq_iff.mp h with ⟨hl, h⟩ | ⟨-, h⟩
  · exact Except.ok.inj h ▸ readIdentifier_spec hl
  -- parentheses, comma, dot, semicolon and star
  iterate 6
    rcases ite_eq_iff.mp h with ⟨hl, h⟩ | ⟨-, h⟩
    · exact Except.ok.inj h ▸ reads_one _ hl (by decide)
  · exact readOperator_spec h

end Reads

/-! ### Turns -/

/-- What a turn of `tokenize` can do. -/
lemma turn_cases {s s' : Scan} (h : turn s = .ok (some s')) :
    ¬s.stopped ∧ s.lexer.rest ≠ [] ∧
      (s.lexer.skipWhitespace.current = 0 ∧
          s' = { s with lexer := s.lexer.skipWhitespace, stopped := true } ∨
        (∃ l, (s.lexer.skipWhitespace.atLineComment ∨ s.lexer.skipWhitespace.atBlockComment) ∧
          s.lexer.skipWhitespace.skipComment = .ok l ∧ s' = { s with lexer := l }) ∨
        ∃ r, ¬s.lexer.skipWhitespace.atLineComment ∧ ¬s.lexer.skipWhitespace.atBlockComment ∧
          s.lexer.skipWhitespace.readToken = .ok r ∧
          s' = { s with lexer := r.2, tokens := s.tokens ++ [r.1] }) := by
  unfold turn at h
  dsimp only at h
  split_ifs at h with hstop hnul hcomment
  · exact absurd (Except.ok.inj h) (Option.some_ne_none s').symm
  all_goals
    rw [not_or] at hstop
    refine ⟨hstop.1, hstop.2, ?_⟩
  · exact .inl ⟨hnul, (Option.some.inj (Except.ok.inj h)).symm⟩
  · rcases hskip : s.lexer.skipWhitespace.skipComment with e | l
    · rw [hskip] at h
      cases h
    · rw [hskip] at h
      exact .inr (.inl ⟨l, hcomment, rfl, (Option.some.inj (Except.ok.inj h)).symm⟩)
  · rw [not_or] at hcomment
    rcases hread : s.lexer.skipWhitespace.readToken with e | r
    · rw [hread] at h
      cases h
    · rw [hread] at h
      have hs' := (Option.some.inj (Except.ok.inj h)).symm
      exact .inr (.inr ⟨r, hcomment.1, hcomment.2, rfl, hs'⟩)

lemma turn_eq_none {s : Scan} (h : turn s = .ok none) : s.stopped ∨ s.lexer.rest = [] := by
  by_contra hgo
  rw [turn, if_neg hgo] at h
  dsimp only at h
  split_ifs at h
  · cases h
  · rcases hskip : s.lexer.skipWhitespace.skipComment with e | l
    · rw [hskip] at h
      cases h
    · rw [hskip] at h
      cases h
  · rcases hread : s.lexer.skipWhitespace.readToken with e | r
    · rw [hread] at h
      cases h
    · rw [hread] at h
      cases h

lemma skipWhitespace_spec (l : SQLLexer) :
    ∃ text, Passes l text l.skipWhitespace ∧ ∀ c ∈ text, isspace c := by
  obtain ⟨hpass, hall, -⟩ := readWhile_spec (p := isspace) (by decide) l.rest l.cursor
  exact ⟨_, hpass, hall⟩

end Dbx4.LexText
