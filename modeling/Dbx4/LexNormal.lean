import Dbx4.LexPrint
import Dbx4.Substrings

/-!
The tokens that a text can have.

The round trip of `LexPrint` from the other side: every token that the lexer of
`sql_lexer.cpp` reads can be written so that it reads it again. Besides the tokens printed
there, these are strings with NUL bytes in them, and numbers that end with their dot or have
zeros in front of it.
-/

namespace Dbx4.LexNormal

open Dbx4.Word32 Dbx4.Loops Dbx4.SqlAst Dbx4.SqlLexer Dbx4.Substrings Dbx4.LexText
open Dbx4.LexPrint hiding behind

/-! ### Lexemes -/

/-- Digits, or digits around a dot; without the dot, there is no redundant zero in front. -/
def IsNumeral (value : Bytes) : Prop :=
  ∃ whole, whole ≠ [] ∧ (∀ c ∈ whole, isdigit c) ∧
    (value = whole ∧ (whole.headD 0 = '0'.toUInt8 → whole.length = 1) ∨
      ∃ frac, (∀ c ∈ frac, isdigit c) ∧ value = whole ++ '.'.toUInt8 :: frac)

inductive Lexeme : TokenType × Bytes → Prop
  | printable {token : TokenType × Bytes} (h : Printable token) : Lexeme token
  | string (value : Bytes) : Lexeme (.STRING, value)
  | number {value : Bytes} (h : IsNumeral value) : Lexeme (.NUMBER, value)

def kind (token : Token) : TokenType × Bytes := (token.type, token.value)

/-- What stands for a character between single quotes. -/
def quote (c : UInt8) : Bytes :=
  if c = 0 ∨ c = '\\'.toUInt8 ∨ c = '\''.toUInt8 then ['\\'.toUInt8, c] else [c]

def write : TokenType × Bytes → Bytes
  | (.STRING, value) => '\''.toUInt8 :: (value.flatMap quote ++ ['\''.toUInt8])
  | token => print token

lemma write_of_ne {type : TokenType} (htype : type ≠ .STRING) (value : Bytes) :
    write (type, value) = print (type, value) := by
  cases type <;> first | rfl | contradiction

/-- The lexemes with a space between each two. -/
def writeAll (lexemes : List (TokenType × Bytes)) : Bytes :=
  joined ' '.toUInt8 (lexemes.map write)

/-! ### Reading what was written -/

lemma readQuoted_quote (value rest : Bytes) (k : Cursor) :
    readQuoted '\''.toUInt8 (value.flatMap quote ++ '\''.toUInt8 :: rest) k =
      (value, ⟨'\''.toUInt8 :: rest, (value.flatMap quote).foldl Cursor.advance k⟩) := by
  induction value generalizing k with
  | nil =>
    rw [List.flatMap_nil, List.nil_append, readQuoted.eq_def]
    exact if_pos (.inl rfl)
  | cons c value ih =>
    rw [List.flatMap_cons, List.append_assoc]
    by_cases hquote : c = 0 ∨ c = '\\'.toUInt8 ∨ c = '\''.toUInt8
    · have hback : unescape c = c := by
        rcases hquote with rfl | rfl | rfl <;> rfl
      rw [quote, if_pos hquote, List.cons_append, List.cons_append, List.nil_append,
        readQuoted.eq_def]
      dsimp only
      rw [if_neg (by decide), if_pos rfl, ih, hback]
      rfl
    · rw [not_or, not_or] at hquote
      rw [quote, if_neg (by simp [hquote]), List.singleton_append, readQuoted.eq_def]
      dsimp only
      rw [if_neg (by simp [hquote]), if_neg hquote.2.1, ih]
      rfl

lemma readsAs_quoted (value rest : Bytes) (k : Cursor) :
    ReadsAs (write (.STRING, value)) rest k (.STRING, value) := by
  refine readsAs_of_class (p := fun c => c = '\''.toUInt8) (decide_eq_true rfl) (fun x hx => ?_)
    ⟨by decide, by decide, by decide⟩ ?_
  · exact decide_eq_false (ne_of_class hx (by decide))
  · have hread := readQuoted_quote value rest (k.advance '\''.toUInt8)
    have htext : value.flatMap quote ++ ['\''.toUInt8] ++ rest =
        value.flatMap quote ++ '\''.toUInt8 :: rest := List.append_assoc _ _ _
    rw [readToken_quote rfl, List.cons_append, htext, SQLLexer.readString]
    dsimp only [SQLLexer.advance]
    rw [hread, List.foldl_cons, List.foldl_append]
    rfl

lemma readsAs_numeral {value rest : Bytes} (h : IsNumeral value) (hrest : Boundary rest)
    (k : Cursor) : ReadsAs value rest k (.NUMBER, value) := by
  obtain ⟨whole, hne, hwhole, hvalue⟩ := h
  obtain ⟨c, digits, rfl⟩ := List.exists_cons_of_ne_nil hne
  have hc := hwhole c List.mem_cons_self
  rcases hvalue with ⟨rfl, hzero⟩ | ⟨frac, hfrac, rfl⟩
  · refine readsAs_of_class hc (fun x hx => (isspace_spec hx).1)
      ⟨by decide, by decide, by decide⟩ ?_
    rw [readToken_digit (by exact hc)]
    exact readNumber_whole hwhole hzero hrest k
  · refine readsAs_of_class hc (fun x hx => (isspace_spec hx).1)
      ⟨by decide, by decide, by decide⟩ ?_
    rw [readToken_digit (by exact hc)]
    exact readNumber_frac hwhole hfrac hrest k

/-- **One lexeme**: what was written is read back. -/
lemma readsAs_write {token : TokenType × Bytes} (h : Lexeme token) {rest : Bytes}
    (hrest : Boundary rest) (k : Cursor) : ReadsAs (write token) rest k token := by
  cases h with
  | printable h =>
    obtain ⟨type, value⟩ := token
    by_cases htype : type = .STRING
    · subst htype
      exact readsAs_quoted value rest k
    · rw [write_of_ne htype]
      exact readsAs_print h hrest k
  | string value => exact readsAs_quoted value rest k
  | number h => exact readsAs_numeral h hrest k

lemma boundary_words (words : List Bytes) : Boundary (behind ' '.toUInt8 words) := by
  rcases words with _ | ⟨word, words⟩
  · exact .inl rfl
  · exact .inr ⟨word ++ behind ' '.toUInt8 words, rfl⟩

lemma returns_words {lexemes : List (TokenType × Bytes)} (h : ∀ token ∈ lexemes, Lexeme token)
    (k : Cursor) (read : List Token) :
    ∃ s : Scan, Returns (fun n => loop turn n
        { lexer := ⟨behind ' '.toUInt8 (lexemes.map write), k⟩, tokens := read }) s ∧
      s.tokens.map kind = read.map kind ++ lexemes := by
  induction lexemes generalizing k read with
  | nil => exact ⟨_, returns_stop rfl, (List.append_nil _).symm⟩
  | cons token lexemes ih =>
    rw [List.forall_mem_cons] at h
    have hgap : ∀ c ∈ [' '.toUInt8], isspace c := List.forall_mem_singleton.mpr rfl
    have hturn := turn_readsAs hgap (readsAs_write h.1 (boundary_words (lexemes.map write)) _)
      (k := k) read
    obtain ⟨s, hs, htokens⟩ := ih h.2 _ _
    refine ⟨s, returns_step hturn hs, ?_⟩
    rw [htokens, List.map_append, List.append_assoc]
    rfl

lemma tokenize_writeAll {lexemes : List (TokenType × Bytes)}
    (h : ∀ token ∈ lexemes, Lexeme token) :
    ∃ r, Returns (tokenize { rest := writeAll lexemes }) r ∧
      r.1.map kind = lexemes ++ [(.EOF_TOKEN, [])] := by
  have hloop : ∃ s : Scan,
      Returns (fun n => loop turn n { lexer := { rest := writeAll lexemes } }) s ∧
        s.tokens.map kind = lexemes := by
    rcases lexemes with _ | ⟨token, lexemes⟩
    · exact ⟨_, returns_stop rfl, rfl⟩
    · rw [List.forall_mem_cons] at h
      have hgap : ∀ c ∈ ([] : Bytes), isspace c := List.forall_mem_nil _
      have hturn := turn_readsAs hgap (readsAs_write h.1 (boundary_words (lexemes.map write)) _)
        (k := {}) []
      obtain ⟨s, hs, htokens⟩ := returns_words h.2 _ _
      rw [writeAll, List.map_cons, joined, intercalate_cons]
      exact ⟨s, returns_step hturn hs, htokens⟩
  obtain ⟨s, hs, htokens⟩ := hloop
  refine ⟨_, hs.bind (returns_const _), ?_⟩
  rw [List.map_append, htokens]
  rfl

/-! ### What is read -/

lemma readDigits_behindDot (rest : Bytes) (k : Cursor) :
    ∀ c ∈ (readDigits true rest k).1, isdigit c := by
  induction rest generalizing k with
  | nil => exact List.forall_mem_nil _
  | cons c rest ih =>
    by_cases hc : isdigit c
    · rw [readDigits, if_pos (.inl hc)]
      exact List.forall_mem_cons.mpr ⟨hc, ih _⟩
    · rw [readDigits, if_neg (by simp [hc])]
      exact List.forall_mem_nil _

/-- The digits that are read, perhaps with a dot and more digits. -/
lemma readDigits_parts (rest : Bytes) (k : Cursor) :
    ∃ whole, (∀ c ∈ whole, isdigit c) ∧
      ((readDigits false rest k).1 = whole ∧ (readDigits false rest k).2.1 = false ∨
        ∃ frac, (∀ c ∈ frac, isdigit c) ∧
          (readDigits false rest k).1 = whole ++ '.'.toUInt8 :: frac) := by
  induction rest generalizing k with
  | nil => exact ⟨[], List.forall_mem_nil _, .inl ⟨rfl, rfl⟩⟩
  | cons c rest ih =>
    by_cases hc : isdigit c
    · have hdot : c ≠ '.'.toUInt8 := ne_of_class hc (by decide)
      obtain ⟨whole, hwhole, hread⟩ := ih (k.advance c)
      refine ⟨c :: whole, List.forall_mem_cons.mpr ⟨hc, hwhole⟩, ?_⟩
      rw [readDigits, if_pos (.inl hc), decide_eq_false hdot, Bool.or_false]
      rcases hread with ⟨hvalue, hfalse⟩ | ⟨frac, hfrac, hvalue⟩
      · exact .inl ⟨congrArg (c :: ·) hvalue, hfalse⟩
      · exact .inr ⟨frac, hfrac, congrArg (c :: ·) hvalue⟩
    · refine ⟨[], List.forall_mem_nil _, ?_⟩
      by_cases hdot : c = '.'.toUInt8
      · subst hdot
        rw [readDigits, if_pos (.inr ⟨rfl, Bool.false_ne_true⟩)]
        exact .inr ⟨_, readDigits_behindDot rest _, rfl⟩
      · rw [readDigits, if_neg (by simp [hc, hdot])]
        exact .inl ⟨rfl, rfl⟩

section Reads

variable {l : SQLLexer} {r : Token × SQLLexer}

lemma lexeme_readNumber (hl : isdigit l.current) (h : l.readNumber = .ok r) :
    Lexeme (kind r.1) := by
  obtain ⟨whole, hwhole, hparts⟩ := readDigits_parts l.rest l.cursor
  obtain ⟨hpass, -, hstop⟩ := readDigits_spec false l.rest l.cursor
  unfold SQLLexer.readNumber at h
  dsimp only at h
  split_ifs at h with hbad
  obtain rfl := Except.ok.inj h
  have hne : whole ≠ [] := by
    rintro rfl
    rcases hparts with ⟨hvalue, -⟩ | ⟨frac, -, hvalue⟩
    · exact hpass.ne_nil hl hstop hvalue
    · have hrest : l.rest = _ := hpass.rest
      rw [hvalue] at hrest
      rw [SQLLexer.current, hrest] at hl
      exact Bool.noConfusion (hl.symm.trans (by decide : isdigit '.'.toUInt8 = false))
  refine .number ⟨whole, hne, hwhole, ?_⟩
  rcases hparts with ⟨hvalue, hfalse⟩ | ⟨frac, hfrac, hvalue⟩
  · refine .inl ⟨hvalue, fun hzero => ?_⟩
    rw [hvalue, hfalse] at hbad
    have hpos := List.length_pos_iff.mpr hne
    by_contra hlength
    exact hbad ⟨Bool.false_ne_true, by omega, hzero⟩
  · exact .inr ⟨frac, hfrac, hvalue⟩

lemma lexeme_readIdentifier : Lexeme (kind l.readIdentifier.1) := by
  obtain ⟨-, hall, -⟩ := readWhile_spec (p := inWord) (by decide) l.rest l.cursor
  unfold SQLLexer.readIdentifier
  dsimp only
  split
  · rename_i type hkeyword
    exact .printable (.keyword hkeyword)
  · refine .printable (.identifier fun c hc => ?_)
    have hword := hall c hc
    rw [inQuotes, Bool.and_eq_true, decide_eq_true_eq, decide_eq_true_eq]
    exact ⟨ne_of_class hword (by decide), ne_of_class hword (by decide)⟩

lemma lexeme_sign {text : String} {type : TokenType} (h : (text, type) ∈ punctuation)
    (k : Cursor) : Lexeme (kind (k.token type (ascii text))) := .printable (.sign h)

/-- `tokenize` reads a `*` before it comes to the operators. -/
lemma lexeme_readOperator (hstar : l.current ≠ '*'.toUInt8) (h : l.readOperator = .ok r) :
    Lexeme (kind r.1) := by
  rcases ite_eq_iff.mp h with ⟨-, h⟩ | ⟨-, h⟩
  · exact Except.ok.inj h ▸ lexeme_sign (by decide) _
  rcases ite_eq_iff.mp h with ⟨-, h⟩ | ⟨-, h⟩
  · rcases ite_eq_iff.mp h with ⟨-, h⟩ | ⟨-, h⟩
    · exact Except.ok.inj h ▸ lexeme_sign (by decide) _
    rcases ite_eq_iff.mp h with ⟨-, h⟩ | ⟨-, h⟩
    · exact Except.ok.inj h ▸ lexeme_sign (by decide) _
    · exact Except.ok.inj h ▸ lexeme_sign (by decide) _
  rcases ite_eq_iff.mp h with ⟨-, h⟩ | ⟨-, h⟩
  · rcases ite_eq_iff.mp h with ⟨-, h⟩ | ⟨-, h⟩
    · exact Except.ok.inj h ▸ lexeme_sign (by decide) _
    · exact Except.ok.inj h ▸ lexeme_sign (by decide) _
  -- plus and minus
  iterate 2
    rcases ite_eq_iff.mp h with ⟨-, h⟩ | ⟨-, h⟩
    · exact Except.ok.inj h ▸ lexeme_sign (by decide) _
  rcases ite_eq_iff.mp h with ⟨hl, -⟩ | ⟨-, h⟩
  · exact absurd hl hstar
  -- the slash and the percent sign
  iterate 2
    rcases ite_eq_iff.mp h with ⟨-, h⟩ | ⟨-, h⟩
    · exact Except.ok.inj h ▸ lexeme_sign (by decide) _
  · cases h

lemma lexeme_readQuotedIdentifier (h : l.readQuotedIdentifier = .ok r) : Lexeme (kind r.1) := by
  obtain ⟨-, hall, -⟩ := readWhile_spec (p := inQuotes) (by decide) l.advance.rest
    l.advance.cursor
  unfold SQLLexer.readQuotedIdentifier at h
  simp only [ne_eq, ite_not] at h
  split_ifs at h
  exact Except.ok.inj h ▸ .printable (.identifier hall)

lemma lexeme_readString (h : l.readString '\''.toUInt8 = .ok r) : Lexeme (kind r.1) := by
  unfold SQLLexer.readString at h
  simp only [ne_eq, ite_not] at h
  split_ifs at h
  exact Except.ok.inj h ▸ .string _

/-- **Every token is a lexeme.** -/
lemma lexeme_readToken (h : l.readToken = .ok r) : Lexeme (kind r.1) := by
  rcases ite_eq_iff.mp h with ⟨-, h⟩ | ⟨-, h⟩
  · exact lexeme_readString h
  rcases ite_eq_iff.mp h with ⟨-, h⟩ | ⟨-, h⟩
  · exact lexeme_readQuotedIdentifier h
  rcases ite_eq_iff.mp h with ⟨hl, h⟩ | ⟨-, h⟩
  · exact lexeme_readNumber hl h
  rcases ite_eq_iff.mp h with ⟨-, h⟩ | ⟨-, h⟩
  · exact Except.ok.inj h ▸ lexeme_readIdentifier
  -- parentheses, comma, dot and semicolon
  iterate 5
    rcases ite_eq_iff.mp h with ⟨-, h⟩ | ⟨-, h⟩
    · exact Except.ok.inj h ▸ lexeme_sign (by decide) _
  rcases ite_eq_iff.mp h with ⟨-, h⟩ | ⟨hstar, h⟩
  · exact Except.ok.inj h ▸ lexeme_sign (by decide) _
  · exact lexeme_readOperator hstar h

end Reads

lemma lexemes_turn {s s' : Scan} (hs : ∀ token ∈ s.tokens, Lexeme (kind token))
    (h : turn s = .ok (some s')) : ∀ token ∈ s'.tokens, Lexeme (kind token) := by
  obtain ⟨-, -, ⟨-, rfl⟩ | ⟨l, -, -, rfl⟩ | ⟨r, -, -, hread, rfl⟩⟩ := turn_cases h
  · exact hs
  · exact hs
  · exact List.forall_mem_append.mpr
      ⟨hs, List.forall_mem_singleton.mpr (lexeme_readToken hread)⟩

/-- A text that is read to the end gives lexemes, with the end of the input behind them. -/
lemma lexemes_of_returns {input : Bytes} {r : List Token × SQLLexer}
    (h : Returns (tokenize { rest := input }) r) :
    ∃ lexemes, (∀ token ∈ lexemes, Lexeme token) ∧
      r.1.map kind = lexemes ++ [(.EOF_TOKEN, [])] := by
  rcases throws_or_returns LexCover.left (fun _ _ => LexCover.left_lt)
    { lexer := { rest := input } } with ⟨e, he⟩ | ⟨s, hs, hreach, -⟩
  · exact absurd (he.bind _) h.not_throws
  · have hlexemes : ∀ token ∈ s.tokens, Lexeme (kind token) :=
      hreach.inv (P := fun s => ∀ token ∈ s.tokens, Lexeme (kind token))
        (List.forall_mem_nil _) fun _ _ => lexemes_turn
    obtain rfl := h.unique (hs.bind (returns_const _))
    exact ⟨s.tokens.map kind, List.forall_mem_map.mpr hlexemes, List.map_append⟩

/-- **What can be read**: the lexer reads some text as these tokens exactly when each of them
is a lexeme. -/
theorem read_iff (lexemes : List (TokenType × Bytes)) :
    (∃ input r, Returns (tokenize { rest := input }) r ∧
      r.1.map kind = lexemes ++ [(.EOF_TOKEN, [])]) ↔ ∀ token ∈ lexemes, Lexeme token := by
  refine ⟨?_, fun h => ⟨writeAll lexemes, tokenize_writeAll h⟩⟩
  rintro ⟨input, r, hread, hkinds⟩
  obtain ⟨lexemes', hlexemes, hkinds'⟩ := lexemes_of_returns hread
  obtain rfl := List.append_cancel_right (hkinds.symm.trans hkinds')
  exact hlexemes

/-- **Lex, then write**: a text can be replaced by its tokens with a space between each two;
comments, white space and the spelling of strings and names do not matter. -/
theorem tokenize_rewritten {input : Bytes} {r : List Token × SQLLexer}
    (h : Returns (tokenize { rest := input }) r) :
    ∃ r', Returns (tokenize { rest := writeAll (r.1.map kind).dropLast }) r' ∧
      r'.1.map kind = r.1.map kind := by
  obtain ⟨lexemes, hlexemes, hkinds⟩ := lexemes_of_returns h
  rw [hkinds, List.dropLast_concat]
  exact tokenize_writeAll hlexemes

/-- A number that ends with its dot, and a string of one NUL byte. -/
theorem tokenize_rewritten_nul :
    ∃ r', Returns (tokenize { rest := writeAll [(.NUMBER, [49, 46]), (.STRING, [0])] }) r' ∧
      r'.1.map kind = [(.NUMBER, [49, 46]), (.STRING, [0]), (.EOF_TOKEN, [])] := by
  have hrun : Returns (tokenize { rest := [49, 46, 9, 39, 92, 0, 39] })
      ([⟨.NUMBER, [49, 46], 1, 1⟩, ⟨.STRING, [0], 1, 4⟩, ⟨.EOF_TOKEN, [], 1, 8⟩],
        ⟨[], ⟨1, 8⟩⟩) := by
    refine ⟨3, fun m hm => ?_⟩
    obtain ⟨n, rfl⟩ : ∃ n, m = n + 3 := ⟨m - 3, by omega⟩
    rfl
  exact tokenize_rewritten hrun

end Dbx4.LexNormal
