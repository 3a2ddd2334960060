import Dbx4.LexPlaces

/-!
Lexing a text line by line.

A newline ends every token and every line comment, so what `tokenize` reads in a text does not
depend on the lines behind it. Behind the newline the lexer is as at the start, but for the
line it counts.
-/

namespace Dbx4.LexLines

open Dbx4.Word32 Dbx4.Loops Dbx4.SqlAst Dbx4.SqlLexer Dbx4.LexText Dbx4.LexCover Dbx4.LexPlaces

/-! ### Lexers with more text behind, further down -/

def lowerCursor (n : Int32) (k : Cursor) : Cursor := { k with line := k.line + n }

def lowerToken (n : Int32) (t : Token) : Token := { t with line := t.line + n }

/-- The lexer with the text behind its input, and some lines further down. -/
def extend (tail : Bytes) (n : Int32) (l : SQLLexer) : SQLLexer :=
  ⟨l.rest ++ tail, lowerCursor n l.cursor⟩

/-- Texts that take part in no token in front of them. -/
def Apart (tail : Bytes) : Prop := tail = [] ∨ ∃ rest, tail = '\n'.toUInt8 :: rest

lemma Apart.class {tail : Bytes} (h : Apart tail) {p : UInt8 → Bool} (h0 : p 0 = false)
    (hline : p '\n'.toUInt8 = false) : p (tail.headD 0) = false := by
  rcases h with rfl | ⟨rest, rfl⟩
  · exact h0
  · exact hline

lemma Apart.ne {tail : Bytes} (h : Apart tail) {c : UInt8} (h0 : c ≠ 0)
    (hline : c ≠ '\n'.toUInt8) : tail.headD 0 ≠ c := by
  rcases h with rfl | ⟨rest, rfl⟩
  · exact h0.symm
  · exact hline.symm

lemma apart_nil : Apart [] := .inl rfl

lemma lowerCursor_zero (k : Cursor) : lowerCursor 0 k = k := by
  rw [lowerCursor, Int32.add_zero]

lemma lowerToken_zero (t : Token) : lowerToken 0 t = t := by
  rw [lowerToken, Int32.add_zero]

lemma extend_zero (tail : Bytes) (l : SQLLexer) : extend tail 0 l = ⟨l.rest ++ tail, l.cursor⟩ := by
  rw [extend, lowerCursor_zero]

/-- Back up again. -/
lemma extend_neg (n : Int32) (l : SQLLexer) : extend [] (-n) (extend [] n l) = l := by
  simp only [extend, lowerCursor, List.append_nil, Int32.add_assoc, Int32.add_right_neg,
    Int32.add_zero]

lemma lowerCursor_advance (n : Int32) (k : Cursor) (c : UInt8) :
    (lowerCursor n k).advance c = lowerCursor n (k.advance c) := by
  unfold Cursor.advance lowerCursor
  split_ifs
  · rw [Int32.add_assoc, Int32.add_comm n, ← Int32.add_assoc]
  · rfl

section Extend

variable {tail : Bytes} (n : Int32)

/-! ### The loops inside a token -/

lemma readWhile_extend {p : UInt8 → Bool} {rest : Bytes} {k : Cursor}
    (h : (readWhile p rest k).2.rest ≠ [] ∨ p (tail.headD 0) = false) :
    readWhile p (rest ++ tail) (lowerCursor n k) =
      ((readWhile p rest k).1, extend tail n (readWhile p rest k).2) := by
  induction rest generalizing k with
  | nil =>
    have hstop : p (tail.headD 0) = false := h.resolve_left fun hne => hne rfl
    rcases tail with _ | ⟨c, tail⟩
    · rfl
    · exact if_neg (Bool.eq_false_iff.mp hstop)
  | cons c rest ih =>
    by_cases hc : p c
    · rw [readWhile_cons hc] at h ⊢
      rw [List.cons_append, readWhile_cons hc, lowerCursor_advance, ih h]
    · rw [List.cons_append, readWhile, readWhile, if_neg hc, if_neg hc]
      rfl

lemma skipBlock_extend (htail : Apart tail) {rest : Bytes} {k : Cursor} {l : SQLLexer}
    (h : skipBlock rest k = some l) :
    skipBlock (rest ++ tail) (lowerCursor n k) = some (extend tail n l) := by
  induction rest generalizing k with
  | nil => cases h
  | cons c rest ih =>
    rw [skipBlock] at h
    rw [List.cons_append, skipBlock]
    split_ifs at h with hnul hclose
    · obtain ⟨rfl, hslash⟩ := hclose
      rcases rest with _ | ⟨d, rest⟩
      · exact absurd hslash (by decide)
      · obtain rfl := Option.some.inj h
        rw [if_neg hnul, if_pos ⟨rfl, hslash⟩, lowerCursor_advance, lowerCursor_advance]
        rfl
    · have hopen : ¬(c = '*'.toUInt8 ∧ (rest ++ tail).headD 0 = '/'.toUInt8) := by
        rcases rest with _ | ⟨d, rest⟩
        · exact fun hd => htail.ne (by decide) (by decide) hd.2
        · exact hclose
      rw [if_neg hnul, if_neg hopen, lowerCursor_advance, ih h]

lemma readQuoted_extend {rest : Bytes} {k : Cursor}
    (h : (readQuoted '\''.toUInt8 rest k).2.current = '\''.toUInt8) :
    readQuoted '\''.toUInt8 (rest ++ tail) (lowerCursor n k) =
      ((readQuoted '\''.toUInt8 rest k).1,
        extend tail n (readQuoted '\''.toUInt8 rest k).2) := by
  fun_induction readQuoted '\''.toUInt8 rest k with
  | case1 k => exact absurd (show 0 = '\''.toUInt8 from h) (by decide)
  | case2 c rest k hstop =>
    rw [List.cons_append, readQuoted.eq_def]
    exact if_pos hstop
  | case3 k => exact absurd (show 0 = '\''.toUInt8 from h) (by decide)
  | case4 k e rest value l hstop hr ih =>
    rw [hr] at ih
    rw [List.cons_append, List.cons_append, readQuoted.eq_def]
    dsimp only
    rw [if_neg hstop, if_pos rfl, lowerCursor_advance, lowerCursor_advance, ih h]
  | case5 c rest k hstop hback value l hr ih =>
    rw [hr] at ih
    rw [List.cons_append, readQuoted.eq_def]
    dsimp only
    rw [if_neg hstop, if_neg hback, lowerCursor_advance, ih h]

lemma readDigits_extend (htail : Apart tail) (hasDot : Bool) (rest : Bytes) (k : Cursor) :
    readDigits hasDot (rest ++ tail) (lowerCursor n k) =
      ((readDigits hasDot rest k).1, (readDigits hasDot rest k).2.1,
        extend tail n (readDigits hasDot rest k).2.2) := by
  fun_induction readDigits hasDot rest k with
  | case1 hasDot k =>
    rcases htail with rfl | ⟨rest, rfl⟩
    · rfl
    · cases hasDot <;> rfl
  | case2 hasDot c rest k hc value hasDot' l hr ih =>
    rw [hr] at ih
    rw [List.cons_append, readDigits, if_pos hc, lowerCursor_advance, ih]
  | case3 hasDot c rest k hc =>
    rw [List.cons_append, readDigits, if_neg hc]
    rfl

/-! ### The lexer -/

variable {l l' : SQLLexer} {r : Token × SQLLexer}

lemma current_extend (hrest : l.rest ≠ []) : (extend tail n l).current = l.current :=
  headD_append hrest tail

/-- Of the characters that mean something, `current` answers the same. -/
lemma current_extend_iff (htail : Apart tail) {c : UInt8} (h0 : c ≠ 0)
    (hline : c ≠ '\n'.toUInt8) : (extend tail n l).current = c ↔ l.current = c := by
  obtain ⟨_ | ⟨a, rest⟩, k⟩ := l
  · exact iff_of_false (htail.ne h0 hline) h0.symm
  · exact Iff.rfl

lemma rest_ne_nil_of_current (h : l.current ≠ 0) : l.rest ≠ [] := by
  intro hrest
  rw [SQLLexer.current, hrest] at h
  exact h rfl

lemma rest_advance_ne_nil (h : l.peek ≠ 0) : l.advance.rest ≠ [] := by
  obtain ⟨_ | ⟨c, _ | ⟨d, rest⟩⟩, k⟩ := l
  · exact absurd rfl h
  · exact absurd rfl h
  · exact List.cons_ne_nil _ _

lemma advance_extend (hrest : l.rest ≠ []) :
    (extend tail n l).advance = extend tail n l.advance := by
  obtain ⟨_ | ⟨c, rest⟩, k⟩ := l
  · exact absurd rfl hrest
  · exact congrArg (SQLLexer.mk (rest ++ tail)) (lowerCursor_advance n k c)

/-- The character behind the first is as before, or ends the line. -/
lemma peek_extend (htail : Apart tail) (hrest : l.rest ≠ []) {c : UInt8} (h0 : c ≠ 0)
    (hline : c ≠ '\n'.toUInt8) : (extend tail n l).peek = c ↔ l.peek = c := by
  obtain ⟨_ | ⟨a, _ | ⟨b, rest⟩⟩, k⟩ := l
  · exact absurd rfl hrest
  · exact iff_of_false (htail.ne h0 hline) h0.symm
  · exact Iff.rfl

lemma atLineComment_extend (htail : Apart tail) (hrest : l.rest ≠ []) :
    (extend tail n l).atLineComment = l.atLineComment := by
  simp only [SQLLexer.atLineComment, current_extend n hrest,
    peek_extend n htail hrest (c := '-'.toUInt8) (by decide) (by decide)]

lemma atBlockComment_extend (htail : Apart tail) (hrest : l.rest ≠ []) :
    (extend tail n l).atBlockComment = l.atBlockComment := by
  simp only [SQLLexer.atBlockComment, current_extend n hrest,
    peek_extend n htail hrest (c := '*'.toUInt8) (by decide) (by decide)]

lemma skipWhitespace_extend (h : l.skipWhitespace.rest ≠ [] ∨ tail = []) :
    (extend tail n l).skipWhitespace = extend tail n l.skipWhitespace := by
  refine congrArg Prod.snd (readWhile_extend n (h.imp_right ?_))
  rintro rfl
  rfl

/-- What the text behind the newline is left with, where a line comment ends the first text. -/
def Falls (tail : Bytes) (n : Int32) (l : SQLLexer) (l' : SQLLexer) : Prop :=
  l.rest = [] ∧ ∃ rest, tail = '\n'.toUInt8 :: rest ∧
    l' = ⟨rest, lowerCursor n (l.cursor.advance '\n'.toUInt8)⟩

lemma skipComment_of_line (hl : l.atLineComment) :
    l.skipComment = .ok (if (readWhile inLine l.rest l.cursor).2.current = '\n'.toUInt8 then
      (readWhile inLine l.rest l.cursor).2.advance else (readWhile inLine l.rest l.cursor).2) := by
  rw [SQLLexer.skipComment, if_pos hl]
  rfl

lemma skipComment_of_block (hl : ¬l.atLineComment) (hb : l.atBlockComment)
    (h : l.skipComment = .ok l') :
    skipBlock l.advance.advance.rest l.advance.advance.cursor = some l' := by
  rw [SQLLexer.skipComment, if_neg hl, if_pos hb] at h
  rcases hskip : skipBlock l.advance.advance.rest l.advance.advance.cursor with _ | l₁
  · rw [hskip] at h
    cases h
  · rw [hskip] at h
    exact congrArg some (Except.ok.inj h)

/-- A comment is skipped as before, or goes on to the newline. -/
lemma skipComment_extend (htail : Apart tail) (hl : l.atLineComment ∨ l.atBlockComment)
    (hrest : l.rest ≠ []) (h : l.skipComment = .ok l') :
    (extend tail n l).skipComment = .ok (extend tail n l') ∨
      ∃ l'', (extend tail n l).skipComment = .ok l'' ∧ Falls tail n l' l'' := by
  have hline' := atLineComment_extend n htail hrest
  have hblock' := atBlockComment_extend n htail hrest
  by_cases hline : l.atLineComment
  · have hread : (readWhile inLine (extend tail n l).rest (extend tail n l).cursor).2 =
        extend tail n (readWhile inLine l.rest l.cursor).2 :=
      congrArg Prod.snd (readWhile_extend n (.inr (htail.class (by decide) (by decide))))
    rw [skipComment_of_line hline] at h
    rw [skipComment_of_line (hline'.trans hline), hread]
    generalize (readWhile inLine l.rest l.cursor).2 = l₁ at h ⊢
    by_cases hend : l₁.current = '\n'.toUInt8
    · have hne := rest_ne_nil_of_current (l := l₁) (by rw [hend]; decide)
      rw [if_pos hend] at h
      rw [current_extend n hne, if_pos hend, advance_extend n hne, Except.ok.inj h]
      exact .inl rfl
    · rw [if_neg hend] at h
      obtain rfl := Except.ok.inj h
      obtain ⟨_ | ⟨c, rest₁⟩, k⟩ := l₁
      · rcases htail with rfl | ⟨rest, rfl⟩
        · exact .inl (congrArg Except.ok (if_neg hend))
        · refine .inr ⟨_, congrArg Except.ok (if_pos rfl), rfl, rest, rfl, ?_⟩
          exact congrArg (SQLLexer.mk rest) (lowerCursor_advance n k '\n'.toUInt8)
      · have hnil : (SQLLexer.mk (c :: rest₁) k).rest ≠ [] := List.cons_ne_nil _ _
        rw [current_extend n hnil, if_neg hend]
        exact .inl rfl
  · have hblock := hl.resolve_left hline
    have hskip := skipBlock_extend n htail (skipComment_of_block hline hblock h)
    have hpeek : l.peek ≠ 0 := by
      simp only [SQLLexer.atBlockComment, Bool.and_eq_true, decide_eq_true_eq] at hblock
      rw [hblock.2]
      decide
    have hskip' : skipBlock (extend tail n l).advance.advance.rest
        (extend tail n l).advance.advance.cursor = some (extend tail n l') := by
      rw [advance_extend n hrest, advance_extend n (rest_advance_ne_nil hpeek)]
      exact hskip
    left
    rw [SQLLexer.skipComment, if_neg (by rwa [hline']), if_pos (hblock'.trans hblock), hskip']

/-! ### Tokens -/

/-- The token further down, and the lexer behind it. -/
def extendRead (tail : Bytes) (n : Int32) (r : Token × SQLLexer) : Token × SQLLexer :=
  (lowerToken n r.1, extend tail n r.2)

lemma readString_extend (hrest : l.rest ≠ []) (h : l.readString '\''.toUInt8 = .ok r) :
    (extend tail n l).readString '\''.toUInt8 = .ok (extendRead tail n r) := by
  unfold SQLLexer.readString at h ⊢
  simp only [ne_eq, ite_not] at h ⊢
  split_ifs at h with hquote
  obtain rfl := Except.ok.inj h
  have hne := rest_ne_nil_of_current (l := (readQuoted '\''.toUInt8 l.advance.rest
    l.advance.cursor).2) (by rw [hquote]; decide)
  have hread : readQuoted '\''.toUInt8 (extend tail n l.advance).rest
      (extend tail n l.advance).cursor = _ := readQuoted_extend n hquote
  rw [advance_extend n hrest, hread]
  dsimp only
  rw [current_extend n hne, if_pos hquote, advance_extend n hne]
  rfl

lemma readQuotedIdentifier_extend (hrest : l.rest ≠ []) (h : l.readQuotedIdentifier = .ok r) :
    (extend tail n l).readQuotedIdentifier = .ok (extendRead tail n r) := by
  unfold SQLLexer.readQuotedIdentifier at h ⊢
  simp only [ne_eq, ite_not] at h ⊢
  split_ifs at h with hquote
  obtain rfl := Except.ok.inj h
  have hne := rest_ne_nil_of_current (l := (readWhile _ l.advance.rest
    l.advance.cursor).2) (by rw [hquote]; decide)
  have hread : readWhile _ (extend tail n l.advance).rest (extend tail n l.advance).cursor = _ :=
    readWhile_extend n (.inl hne)
  rw [advance_extend n hrest, hread]
  dsimp only
  rw [current_extend n hne, if_pos hquote, advance_extend n hne]
  rfl

lemma readNumber_extend (htail : Apart tail) (h : l.readNumber = .ok r) :
    (extend tail n l).readNumber = .ok (extendRead tail n r) := by
  have hread : readDigits false (extend tail n l).rest (extend tail n l).cursor = _ :=
    readDigits_extend n htail false l.rest l.cursor
  unfold SQLLexer.readNumber at h ⊢
  rw [hread]
  dsimp only at h ⊢
  split_ifs at h with hzero
  obtain rfl := Except.ok.inj h
  rw [if_neg hzero]
  rfl

lemma readIdentifier_extend (htail : Apart tail) :
    (extend tail n l).readIdentifier = extendRead tail n l.readIdentifier := by
  have hread : readWhile (fun c => isalnum c || c = '_'.toUInt8) (extend tail n l).rest
      (extend tail n l).cursor = _ :=
    readWhile_extend (p := fun c => isalnum c || c = '_'.toUInt8) n
      (.inr (htail.class (p := inWord) (by decide) (by decide)))
  unfold SQLLexer.readIdentifier
  dsimp only
  rw [hread]
  dsimp only
  split
  · rfl
  · rfl

lemma readOperator_extend (htail : Apart tail) (hrest : l.rest ≠ []) (h : l.readOperator = .ok r) :
    (extend tail n l).readOperator = .ok (extendRead tail n r) := by
  have hequal := current_extend_iff (l := l.advance) n htail (c := '='.toUInt8) (by decide)
    (by decide)
  have hgreater := current_extend_iff (l := l.advance) n htail (c := '>'.toUInt8) (by decide)
    (by decide)
  have htwo {c : UInt8} (hc : l.advance.current = c) (h0 : c ≠ 0) :
      (extend tail n l.advance).advance = extend tail n l.advance.advance :=
    advance_extend n (rest_ne_nil_of_current (hc ▸ h0))
  unfold SQLLexer.readOperator at h ⊢
  simp only [advance_extend n hrest, current_extend n hrest, hequal, hgreater] at h ⊢
  split_ifs at h ⊢ with heq hless hnext hnext' hgt hnext
  · exact Except.ok.inj h ▸ rfl
  · rw [htwo hnext (by decide), ← Except.ok.inj h]
    rfl
  · rw [htwo hnext' (by decide), ← Except.ok.inj h]
    rfl
  · exact Except.ok.inj h ▸ rfl
  · rw [htwo hnext (by decide), ← Except.ok.inj h]
    rfl
  · exact Except.ok.inj h ▸ rfl
  -- plus, minus, star, slash and percent
  iterate 5
    · exact Except.ok.inj h ▸ rfl

lemma readToken_extend (htail : Apart tail) (hrest : l.rest ≠ []) (h : l.readToken = .ok r) :
    (extend tail n l).readToken = .ok (extendRead tail n r) := by
  rw [SQLLexer.readToken, current_extend n hrest, advance_extend n hrest]
  rcases ite_eq_iff.mp h with ⟨hl, h⟩ | ⟨hl, h⟩
  · rw [if_pos hl]
    exact readString_extend n hrest h
  rw [if_neg hl]
  rcases ite_eq_iff.mp h with ⟨hl, h⟩ | ⟨hl, h⟩
  · rw [if_pos hl]
    exact readQuotedIdentifier_extend n hrest h
  rw [if_neg hl]
  rcases ite_eq_iff.mp h with ⟨hl, h⟩ | ⟨hl, h⟩
  · rw [if_pos hl]
    exact readNumber_extend n htail h
  rw [if_neg hl]
  rcases ite_eq_iff.mp h with ⟨hl, h⟩ | ⟨hl, h⟩
  · rw [if_pos hl, readIdentifier_extend n htail, Except.ok.inj h]
  rw [if_neg hl]
  -- parentheses, comma, dot, semicolon and star
  iterate 6
    rcases ite_eq_iff.mp h with ⟨hl, h⟩ | ⟨hl, h⟩
    · rw [if_pos hl, ← Except.ok.inj h]
      rfl
    rw [if_neg hl]
  · exact readOperator_extend n htail hrest h

/-! ### Turns -/

variable (tokens : List Token) {s s' : Scan}

/-- The scan of the longer text, with tokens in front of its own. -/
def extendScan (tail : Bytes) (n : Int32) (tokens : List Token) (s : Scan) : Scan :=
  ⟨extend tail n s.lexer, tokens ++ s.tokens.map (lowerToken n), s.stopped⟩

/-- The scan is in front of the text. -/
lemma enters_extend (hstop : ¬s.stopped) (hrest : s.lexer.rest ≠ []) :
    ¬((extendScan tail n tokens s).stopped ∨ (extendScan tail n tokens s).lexer.rest = []) := by
  rw [not_or]
  exact ⟨hstop, List.append_ne_nil_of_left_ne_nil hrest tail⟩

/-- A turn does the same in the longer text, or falls through to the line behind. -/
lemma turn_extend (htail : Apart tail)
    (hspace : s.lexer.skipWhitespace.rest ≠ [] ∨ tail = []) (h : turn s = .ok (some s')) :
    turn (extendScan tail n tokens s) = .ok (some (extendScan tail n tokens s')) ∨
      ∃ l, turn (extendScan tail n tokens s) =
          .ok (some { extendScan tail n tokens s' with lexer := l }) ∧
        s'.stopped = false ∧ Falls tail n s'.lexer l := by
  obtain ⟨hstop, hrest, -⟩ := turn_cases h
  rw [turn, if_neg (not_or.mpr ⟨hstop, hrest⟩)] at h
  rw [turn, if_neg (enters_extend n tokens hstop hrest)]
  have hskip : (extendScan tail n tokens s).lexer.skipWhitespace =
    extend tail n s.lexer.skipWhitespace := skipWhitespace_extend n hspace
  dsimp only at h ⊢
  rw [hskip]
  have hcurrent : (extend tail n s.lexer.skipWhitespace).current =
      s.lexer.skipWhitespace.current := by
    rcases hspace with hne | rfl
    · exact current_extend n hne
    · rw [SQLLexer.current, SQLLexer.current, extend, List.append_nil]
  rw [hcurrent]
  by_cases hnul : s.lexer.skipWhitespace.current = 0
  · rw [if_pos hnul] at h ⊢
    cases h
    exact .inl rfl
  · have hne := rest_ne_nil_of_current hnul
    rw [if_neg hnul] at h
    rw [if_neg hnul, atLineComment_extend n htail hne, atBlockComment_extend n htail hne]
    by_cases hcomment : s.lexer.skipWhitespace.atLineComment ∨ s.lexer.skipWhitespace.atBlockComment
    · rw [if_pos hcomment] at h ⊢
      rcases hread : s.lexer.skipWhitespace.skipComment with e | l₁
      · rw [hread] at h
        cases h
      · rw [hread] at h
        cases h
        rcases skipComment_extend n htail hcomment hne hread with hl | ⟨l, hl, hfalls⟩
        · rw [hl]
          exact .inl rfl
        · rw [hl]
          exact .inr ⟨l, rfl, Bool.eq_false_iff.mpr hstop, hfalls⟩
    · rw [if_neg hcomment] at h ⊢
      rcases hread : s.lexer.skipWhitespace.readToken with e | r
      · rw [hread] at h
        cases h
      · rw [hread] at h
        cases h
        rw [readToken_extend n htail hne hread, extendScan, extendScan, List.map_append,
          ← List.append_assoc]
        exact .inl rfl

/-! ### Further down -/

lemma turn_lower {o : Option Scan} (h : turn s = .ok o) :
    turn (extendScan [] n tokens s) = .ok (o.map (extendScan [] n tokens)) := by
  rcases o with _ | s'
  · have hdone : (extendScan [] n tokens s).stopped ∨ (extendScan [] n tokens s).lexer.rest = [] :=
      (turn_eq_none h).imp_right fun hrest => by rw [extendScan, extend, hrest, List.append_nil]
    rw [turn, if_pos hdone]
    rfl
  · rcases turn_extend n tokens apart_nil (.inr rfl) h with hturn | ⟨l, -, -, -, rest, htail, -⟩
    · exact hturn
    · cases htail

/-- The tokens so far have nothing to do with what throws. -/
lemma turn_of_tokens {l : SQLLexer} {stopped : Bool} {o : Option Scan}
    (h : turn ⟨l, tokens, stopped⟩ = .ok o) (tokens' : List Token) :
    ∃ o', turn ⟨l, tokens', stopped⟩ = .ok o' := by
  unfold turn at h ⊢
  dsimp only at h ⊢
  split_ifs at h ⊢
  · exact ⟨_, rfl⟩
  · exact ⟨_, rfl⟩
  · rcases hread : l.skipWhitespace.skipComment with e | l₁
    · rw [hread] at h
      cases h
    · exact ⟨_, rfl⟩
  · rcases hread : l.skipWhitespace.readToken with e | r
    · rw [hread] at h
      cases h
    · exact ⟨_, rfl⟩

lemma turn_lower_error {e : Bytes} (h : turn s = .error e) :
    ∃ e', turn (extendScan [] n tokens s) = .error e' := by
  rcases hturn : turn (extendScan [] n tokens s) with e' | o
  · exact ⟨e', rfl⟩
  · have hback := turn_lower (-n) [] hturn
    rw [extendScan, extendScan, extend_neg] at hback
    obtain ⟨o', ho'⟩ := turn_of_tokens _ hback s.tokens
    rw [h] at ho'
    cases ho'

end Extend

/-! ### Runs -/

section Runs

variable {a b : Bytes} {s s' t : Scan}

/-- Where the run over the longer text is when the run over the first line is over: between
the two lines is white space, or nothing. -/
structure Continues (b : Bytes) (s t : Scan) : Prop where
  stopped : t.stopped = false
  tokens : t.tokens = s.tokens
  gap : ∃ gap, (∀ c ∈ gap, isspace c) ∧ t.lexer.rest = gap ++ b ∧
    gap.foldl Cursor.advance t.lexer.cursor = s.lexer.cursor.advance '\n'.toUInt8

/-- The longer text is read as the first line is, up to its end. -/
def Follows (a b : Bytes) (s : Scan) : Prop :=
  (Reaches turn { lexer := { rest := a ++ '\n'.toUInt8 :: b } }
      (extendScan ('\n'.toUInt8 :: b) 0 [] s) ∧ (s.stopped → s.lexer.rest ≠ [])) ∨
    s.lexer.rest = [] ∧ ∃ t, Reaches turn { lexer := { rest := a ++ '\n'.toUInt8 :: b } } t ∧
      Continues b s t

lemma extendScan_zero (tail : Bytes) (s : Scan) :
    extendScan tail 0 [] s = { s with lexer := ⟨s.lexer.rest ++ tail, s.lexer.cursor⟩ } := by
  have hmap : s.tokens.map (lowerToken 0) = s.tokens := by
    rw [List.map_congr_left fun t _ => lowerToken_zero t, List.map_id']
  rw [extendScan, extend_zero, hmap, List.nil_append]

/-- White space up to the end of the line. -/
lemma continues_of_spaces {gap : Bytes} (hgap : ∀ c ∈ gap, isspace c) (hstop : s.stopped = false)
    (hrest : s.lexer.rest = gap) (hs' : s'.tokens = s.tokens)
    (hcursor : s'.lexer.cursor = gap.foldl Cursor.advance s.lexer.cursor) :
    Continues b s' (extendScan ('\n'.toUInt8 :: b) 0 [] s) := by
  rw [extendScan_zero]
  refine ⟨hstop, hs'.symm, gap ++ ['\n'.toUInt8], fun c hc => ?_, ?_, ?_⟩
  · rcases List.mem_append.mp hc with hc | hc
    · exact hgap c hc
    · rw [List.mem_singleton.mp hc]
      rfl
  · rw [hrest, List.append_assoc]
    rfl
  · rw [List.foldl_append, hcursor]
    rfl

lemma turn_follows (hs : Follows a b s) (h : turn s = .ok (some s')) : Follows a b s' := by
  obtain ⟨hstop, hrest, hcases⟩ := turn_cases h
  rcases hs with ⟨hreach, -⟩ | ⟨hnil, -⟩
  · by_cases hspace : s.lexer.skipWhitespace.rest = []
    · have hnul : s.lexer.skipWhitespace.current = 0 := by
        rw [SQLLexer.current, hspace]
        rfl
      rw [turn, if_neg (not_or.mpr ⟨hstop, hrest⟩)] at h
      dsimp only at h
      rw [if_pos hnul] at h
      cases h
      obtain ⟨gap, hpass, hgap⟩ := skipWhitespace_spec s.lexer
      have hgap' := hpass.rest
      rw [hspace, List.append_nil] at hgap'
      exact .inr ⟨hspace, _, hreach, continues_of_spaces hgap (Bool.eq_false_iff.mpr hstop) hgap'
        rfl hpass.cursor⟩
    · rcases turn_extend 0 [] (.inr ⟨b, rfl⟩) (.inl hspace) h with
        hturn | ⟨l, hturn, hstopped, hnil, rest, htail, rfl⟩
      · refine .inl ⟨hreach.turn hturn, fun hstopped => ?_⟩
        rcases hcases with ⟨-, rfl⟩ | ⟨l, -, -, rfl⟩ | ⟨r, -, -, -, rfl⟩
        · exact hspace
        · exact absurd hstopped hstop
        · exact absurd hstopped hstop
      · cases htail
        refine .inr ⟨hnil, _, hreach.turn hturn, ?_⟩
        rw [extendScan_zero, lowerCursor_zero]
        exact ⟨hstopped, rfl, [], List.forall_mem_nil _, rfl, rfl⟩
  · exact absurd hnil hrest

/-- Where the first line has been read to its end. -/
lemma Follows.finish (hs : Follows a b s) (hrest : s.lexer.rest = []) :
    ∃ t, Reaches turn { lexer := { rest := a ++ '\n'.toUInt8 :: b } } t ∧ Continues b s t := by
  rcases hs with ⟨hreach, hstop⟩ | ⟨-, ht⟩
  · have hstopped := Bool.eq_false_iff.mpr fun hs => hstop hs hrest
    exact ⟨_, hreach, continues_of_spaces (List.forall_mem_nil _) hstopped hrest rfl rfl⟩
  · exact ht

/-! ### White space in front -/

lemma skipWhitespace_gap {gap : Bytes} (hgap : ∀ c ∈ gap, isspace c) (b : Bytes) (k : Cursor) :
    SQLLexer.skipWhitespace ⟨gap ++ b, k⟩ =
      SQLLexer.skipWhitespace ⟨b, gap.foldl Cursor.advance k⟩ := by
  induction gap generalizing k with
  | nil => rfl
  | cons c gap ih =>
    rw [List.forall_mem_cons] at hgap
    have hread := readWhile_cons hgap.1 (gap ++ b) k
    exact (congrArg Prod.snd hread).trans (ih hgap.2 (k.advance c))

lemma turn_gap {gap : Bytes} (hgap : ∀ c ∈ gap, isspace c) (hb : b ≠ []) (k : Cursor)
    (tokens : List Token) : turn ⟨⟨gap ++ b, k⟩, tokens, false⟩ =
      turn ⟨⟨b, gap.foldl Cursor.advance k⟩, tokens, false⟩ := by
  have hne : gap ++ b ≠ [] := List.append_ne_nil_of_right_ne_nil gap hb
  unfold turn
  simp only [skipWhitespace_gap hgap, hne, hb, Bool.false_eq_true, or_self, if_false]

lemma turn_ne_none (hb : b ≠ []) (k : Cursor) (tokens : List Token) :
    turn ⟨⟨b, k⟩, tokens, false⟩ ≠ .ok none := by
  intro h
  rcases turn_eq_none h with hstop | hrest
  · cases hstop
  · exact hb hrest

/-- White space in front of a text is passed over. -/
lemma returns_gap {gap : Bytes} (hgap : ∀ c ∈ gap, isspace c) {k : Cursor} {tokens : List Token}
    (h : Returns (fun n => loop turn n ⟨⟨b, gap.foldl Cursor.advance k⟩, tokens, false⟩) s) :
    ∃ s', Returns (fun n => loop turn n ⟨⟨gap ++ b, k⟩, tokens, false⟩) s' ∧
      s'.tokens = s.tokens ∧ s'.lexer = s.lexer := by
  by_cases hb : b = []
  · subst hb
    obtain rfl := h.unique (returns_stop rfl)
    rcases gap with _ | ⟨c, gap⟩
    · exact ⟨_, h, rfl, rfl⟩
    · have hturn : turn ⟨⟨c :: gap ++ [], k⟩, tokens, false⟩ =
          .ok (some ⟨⟨[], (c :: gap).foldl Cursor.advance k⟩, tokens, true⟩) := by
        rw [turn, if_neg (by simp)]
        dsimp only
        rw [skipWhitespace_gap hgap]
        exact if_pos rfl
      exact ⟨_, returns_step hturn (returns_stop rfl), rfl, rfl⟩
  · have hturn := turn_gap hgap hb k tokens
    refine ⟨s, ?_, rfl, rfl⟩
    have hmove := turn_ne_none hb (gap.foldl Cursor.advance k) tokens
    rw [← hturn] at hmove
    simp only [loop_congr hturn hmove]
    exact h

lemma throws_gap {gap : Bytes} (hgap : ∀ c ∈ gap, isspace c) {k : Cursor} {tokens : List Token}
    {e : Bytes}
    (h : Throws (fun n => loop turn n ⟨⟨b, gap.foldl Cursor.advance k⟩, tokens, false⟩) e) :
    Throws (fun n => loop turn n ⟨⟨gap ++ b, k⟩, tokens, false⟩) e := by
  have hb : b ≠ [] := by
    rintro rfl
    exact (returns_stop rfl).not_throws h
  have hturn := turn_gap hgap hb k tokens
  have hmove := turn_ne_none hb (gap.foldl Cursor.advance k) tokens
  rw [← hturn] at hmove
  simp only [loop_congr hturn hmove]
  exact h

/-! ### The second line -/

/-- What the run over a text returns, some lines further down. -/
def lower (n : ℕ) (r : List Token × SQLLexer) : List Token × SQLLexer :=
  (r.1.map (lowerToken (Int32.ofNat n)), extend [] (Int32.ofNat n) r.2)

/-- The run that a call of `tokenize` makes. -/
lemma tokenize_cases (input : Bytes) :
    (∃ e, Throws (fun n => loop turn n { lexer := { rest := input } }) e ∧
      Throws (tokenize { rest := input }) e) ∨
      ∃ s, Returns (fun n => loop turn n { lexer := { rest := input } }) s ∧
        Reaches turn { lexer := { rest := input } } s ∧
        Returns (tokenize { rest := input })
          (s.tokens ++ [s.lexer.cursor.token .EOF_TOKEN []], s.lexer) := by
  rcases throws_or_returns left (fun _ _ => left_lt) { lexer := { rest := input } } with
    ⟨e, he⟩ | ⟨s, hs, hreach, -⟩
  · exact .inl ⟨e, he, he.bind _⟩
  · exact .inr ⟨s, hs, hreach, hs.bind (returns_const _)⟩

/-- Behind a line that has been read to its end the lexer is as at the start, further down. -/
lemma exists_continues {r : List Token × SQLLexer} (ha : Returns (tokenize { rest := a }) r)
    (hend : r.2.rest = []) (b : Bytes) :
    ∃ gap k, (∀ c ∈ gap, isspace c) ∧
      gap.foldl Cursor.advance k = lowerCursor (Int32.ofNat (lineOf a)) {} ∧
      Reaches turn { lexer := { rest := a ++ '\n'.toUInt8 :: b } }
        ⟨⟨gap ++ b, k⟩, r.1.dropLast, false⟩ := by
  rcases tokenize_cases a with ⟨e, -, he⟩ | ⟨s, -, hreach, hs⟩
  · exact absurd he ha.not_throws
  obtain rfl := ha.unique hs
  have hstart : Follows a b { lexer := { rest := a } } := by
    refine .inl ⟨?_, Bool.noConfusion⟩
    rw [extendScan_zero]
    exact .start
  have hfollows := hreach.inv hstart fun _ _ => turn_follows
  have hplaces : LexPlaces.Inv a { lexer := { rest := a } } [] [] :=
    ⟨.nil _, .nil, List.pairwise_singleton _ _, Bool.noConfusion⟩
  obtain ⟨offsets, before, hinv⟩ := hreach.inv (P := fun s => ∃ offsets before,
    LexPlaces.Inv a s offsets before) ⟨[], [], hplaces⟩ fun _ _ => LexPlaces.turn_inv
  obtain ⟨t, ht, hcontinues⟩ := hfollows.finish hend
  obtain ⟨gap, hgap, hrest, hcursor⟩ := hcontinues.gap
  have hbefore : a = before ++ s.lexer.rest := hinv.passes.rest
  rw [show s.lexer.rest = [] from hend, List.append_nil] at hbefore
  refine ⟨gap, t.lexer.cursor, hgap, ?_, ?_⟩
  · rw [hcursor, LexPlaces.Passes.cursor_eq hinv.passes, ← hbefore, lowerCursor, Int32.add_comm]
    rfl
  · obtain ⟨⟨rest, k⟩, tokens, stopped⟩ := t
    obtain rfl : rest = gap ++ b := hrest
    obtain rfl : stopped = false := hcontinues.stopped
    obtain rfl : tokens = s.tokens := hcontinues.tokens
    rw [List.dropLast_concat]
    exact ht

/-- **Line by line**: behind a line that has been read to its end, the rest of the text is read
as a text of its own, with its tokens that many lines further down. -/
theorem tokenize_newline {r : List Token × SQLLexer} (ha : Returns (tokenize { rest := a }) r)
    (hend : r.2.rest = []) (b : Bytes) :
    (∀ r', Returns (tokenize { rest := b }) r' →
      Returns (tokenize { rest := a ++ '\n'.toUInt8 :: b })
        (r.1.dropLast ++ (lower (lineOf a) r').1, (lower (lineOf a) r').2)) ∧
    ((∃ e, Throws (tokenize { rest := b }) e) →
      ∃ e, Throws (tokenize { rest := a ++ '\n'.toUInt8 :: b }) e) := by
  obtain ⟨gap, k, hgap, hcursor, hreach⟩ := exists_continues ha hend b
  have hstart : extendScan [] (Int32.ofNat (lineOf a)) r.1.dropLast { lexer := { rest := b } } =
      ⟨⟨b, gap.foldl Cursor.advance k⟩, r.1.dropLast, false⟩ := by
    rw [hcursor, extendScan, extend, List.append_nil, List.map_nil, List.append_nil]
  have hbody (s : Scan) (o : Option Scan) : turn s = .ok o →
      turn (extendScan [] (Int32.ofNat (lineOf a)) r.1.dropLast s) =
        .ok (o.map (extendScan [] (Int32.ofNat (lineOf a)) r.1.dropLast)) := turn_lower _ _
  have herror (s : Scan) (e : Bytes) : turn s = .error e →
      ∃ e', turn (extendScan [] (Int32.ofNat (lineOf a)) r.1.dropLast s) = .error e' :=
    turn_lower_error _ _
  rcases tokenize_cases b with ⟨e, he, hthrows⟩ | ⟨s, hs, -, hreturns⟩
  · refine ⟨fun r' hr' => absurd hthrows hr'.not_throws, fun _ => ?_⟩
    obtain ⟨e', he'⟩ := throws_map hbody herror he
    rw [hstart] at he'
    exact ⟨e', (hreach.throws (throws_gap hgap he')).bind _⟩
  · refine ⟨fun r' hr' => ?_, fun ⟨e, he⟩ => absurd he hreturns.not_throws⟩
    obtain rfl := hr'.unique hreturns
    have hlower := returns_map hbody hs
    rw [hstart] at hlower
    obtain ⟨s', hs', htokens, hlexer⟩ := returns_gap hgap hlower
    have hrun := (hreach.returns hs').bind (g := fun _ s => .done
      (s.tokens ++ [s.lexer.cursor.token .EOF_TOKEN []], s.lexer)) (returns_const _)
    rw [htokens, hlexer, extendScan, List.append_assoc] at hrun
    rw [lower, List.map_append]
    exact hrun

end Runs

/-- A letter on each of two lines. -/
theorem tokenize_newline_letters :
    (∀ r', Returns (tokenize { rest := [98] }) r' →
      Returns (tokenize { rest := [97] ++ '\n'.toUInt8 :: [98] })
        ([⟨.IDENTIFIER, [97], 1, 1⟩] ++ (lower (lineOf [97]) r').1, (lower (lineOf [97]) r').2)) ∧
    ((∃ e, Throws (tokenize { rest := [98] }) e) →
      ∃ e, Throws (tokenize { rest := [97] ++ '\n'.toUInt8 :: [98] }) e) := by
  have hrun : Returns (tokenize { rest := [97] })
      ([⟨.IDENTIFIER, [97], 1, 1⟩, ⟨.EOF_TOKEN, [], 1, 2⟩], ⟨[], ⟨1, 2⟩⟩) := by
    refine ⟨2, fun m hm => ?_⟩
    obtain ⟨n, rfl⟩ : ∃ n, m = n + 2 := ⟨m - 2, by omega⟩
    rfl
  exact tokenize_newline hrun rfl [98]

end Dbx4.LexLines
