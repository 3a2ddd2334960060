import Mathlib.Data.Bool.AllAny
import Dbx4.LexCover

/-!
Lexing what was printed.

Tokens are printed with one space between them: strings between single quotes with backslashes
in front of quotes and backslashes, identifiers between double quotes, all others as they are.
The lexer reads each token up to the space behind it.
-/

namespace Dbx4.LexPrint

open Dbx4.Word32 Dbx4.Loops Dbx4.SqlAst Dbx4.SqlLexer Dbx4.LexText Dbx4.LexCover

/-! ### Printing -/

/-- The punctuation and the operators that the lexer knows; a `*` is a `STAR`. -/
def punctuation : List (String × TokenType) :=
  [("(", .LPAREN), (")", .RPAREN), (",", .COMMA), (".", .DOT), (";", .SEMICOLON), ("*", .STAR),
    ("=", .EQUALS), ("<>", .NOT_EQUALS), ("<", .LESS), ("<=", .LESS_EQUAL), (">", .GREATER),
    (">=", .GREATER_EQUAL), ("+", .PLUS), ("-", .MINUS), ("/", .DIVIDE), ("%", .MODULO)]

/-- Digits without a redundant zero in front, and perhaps a dot and more digits. -/
def IsNumber (value : Bytes) : Prop :=
  ∃ whole, whole ≠ [] ∧ (∀ c ∈ whole, isdigit c) ∧
    (whole.headD 0 = '0'.toUInt8 → whole.length = 1) ∧
    (value = whole ∨
      ∃ frac, frac ≠ [] ∧ (∀ c ∈ frac, isdigit c) ∧ value = whole ++ '.'.toUInt8 :: frac)

/-- The tokens that can be printed, by their type and value. -/
inductive Printable : TokenType × Bytes → Prop
  | keyword {type : TokenType} {word : Bytes} (h : keyword (word.map toupper) = some type) :
    Printable (type, word)
  | string {value : Bytes} (h : ∀ c ∈ value, c ≠ 0) : Printable (.STRING, value)
  | identifier {value : Bytes} (h : ∀ c ∈ value, inQuotes c) : Printable (.IDENTIFIER, value)
  | number {value : Bytes} (h : IsNumber value) : Printable (.NUMBER, value)
  | sign {text : String} {type : TokenType} (h : (text, type) ∈ punctuation) :
    Printable (type, ascii text)

def escape (c : UInt8) : Bytes :=
  if c = '\\'.toUInt8 ∨ c = '\''.toUInt8 then ['\\'.toUInt8, c] else [c]

def print : TokenType × Bytes → Bytes
  | (.STRING, value) => '\''.toUInt8 :: (value.flatMap escape ++ ['\''.toUInt8])
  | (.IDENTIFIER, value) => '"'.toUInt8 :: (value ++ ['"'.toUInt8])
  | (_, value) => value

/-- The texts with a space between each two. -/
def printAll (tokens : List (TokenType × Bytes)) : Bytes :=
  [' '.toUInt8].intercalate (tokens.map print)

/-! ### Reading one token -/

/-- What stands behind a token: nothing, or a space. -/
def Boundary (rest : Bytes) : Prop := rest = [] ∨ ∃ rest', rest = ' '.toUInt8 :: rest'

lemma Boundary.class {rest : Bytes} (h : Boundary rest) {p : UInt8 → Bool} (h0 : p 0 = false)
    (hspace : p ' '.toUInt8 = false) : p (rest.headD 0) = false := by
  rcases h with rfl | ⟨rest', rfl⟩
  · exact h0
  · exact hspace

/-- The lexer reads the token from the text, up to a boundary. -/
structure ReadsAs (text rest : Bytes) (k : Cursor) (token : TokenType × Bytes) : Prop where
  visible : isspace (SQLLexer.current ⟨text ++ rest, k⟩) = false
  notNul : SQLLexer.current ⟨text ++ rest, k⟩ ≠ 0
  notLine : ¬SQLLexer.atLineComment ⟨text ++ rest, k⟩
  notBlock : ¬SQLLexer.atBlockComment ⟨text ++ rest, k⟩
  read : SQLLexer.readToken ⟨text ++ rest, k⟩ =
    .ok (k.token token.1 token.2, ⟨rest, text.foldl Cursor.advance k⟩)

/-- The first character tells that no comment starts. -/
lemma readsAs_of_class {p : UInt8 → Bool} {c : UInt8} {text rest : Bytes} {k : Cursor}
    {token : TokenType × Bytes} (hc : p c) (hspace : ∀ x, isspace x → p x = false)
    (hp : p 0 = false ∧ p '-'.toUInt8 = false ∧ p '/'.toUInt8 = false)
    (hread : SQLLexer.readToken ⟨c :: text ++ rest, k⟩ =
      .ok (k.token token.1 token.2, ⟨rest, (c :: text).foldl Cursor.advance k⟩)) :
    ReadsAs (c :: text) rest k token where
  visible := by
    by_contra h
    exact Bool.noConfusion (hc.symm.trans (hspace c (Bool.not_eq_false _ ▸ h)))
  notNul := ne_of_class hc hp.1
  notLine := by
    rw [SQLLexer.atLineComment, Bool.and_eq_true]
    exact fun h => ne_of_class hc hp.2.1 (of_decide_eq_true h.1)
  notBlock := by
    rw [SQLLexer.atBlockComment, Bool.and_eq_true]
    exact fun h => ne_of_class hc hp.2.2 (of_decide_eq_true h.1)
  read := hread

/-- **Escapes**: the loop of `read_string` gives back the value. -/
lemma readQuoted_escape {value : Bytes} (h : ∀ c ∈ value, c ≠ 0) (rest : Bytes) (k : Cursor) :
    readQuoted '\''.toUInt8 (value.flatMap escape ++ '\''.toUInt8 :: rest) k =
      (value, ⟨'\''.toUInt8 :: rest, (value.flatMap escape).foldl Cursor.advance k⟩) := by
  induction value generalizing k with
  | nil =>
    rw [List.flatMap_nil, List.nil_append, readQuoted.eq_def]
    exact if_pos (.inl rfl)
  | cons c value ih =>
    rw [List.forall_mem_cons] at h
    rw [List.flatMap_cons, List.append_assoc]
    by_cases hescape : c = '\\'.toUInt8 ∨ c = '\''.toUInt8
    · have hback : unescape c = c := by
        rcases hescape with rfl | rfl <;> rfl
      rw [escape, if_pos hescape, List.cons_append, List.cons_append, List.nil_append,
        readQuoted.eq_def]
      dsimp only
      rw [if_neg (by decide), if_pos rfl, ih h.2, hback]
      rfl
    · rw [not_or] at hescape
      rw [escape, if_neg (by simp [hescape]), List.singleton_append,
        readQuoted.eq_def]
      dsimp only
      rw [if_neg (by simp [hescape, h.1]), if_neg hescape.1, ih h.2]
      rfl

section Dispatch

variable {l : SQLLexer}

lemma readToken_quote (h : l.current = '\''.toUInt8) :
    l.readToken = l.readString '\''.toUInt8 := if_pos h

lemma readToken_double (h : l.current = '"'.toUInt8) :
    l.readToken = l.readQuotedIdentifier := by
  rw [SQLLexer.readToken, if_neg (by rw [h]; decide), if_pos h]

lemma readToken_digit (h : isdigit l.current) : l.readToken = l.readNumber := by
  rw [SQLLexer.readToken, if_neg (ne_of_class h (by decide)), if_neg (ne_of_class h (by decide)),
    if_pos h]

lemma readToken_alpha (h : isalpha l.current) : l.readToken = .ok l.readIdentifier := by
  have hdigit : ¬isdigit l.current := by
    rw [isalpha_iff] at h
    rw [isdigit_iff]
    omega
  rw [SQLLexer.readToken, if_neg (ne_of_class h (by decide)), if_neg (ne_of_class h (by decide)),
    if_neg hdigit, if_pos (.inl h)]

end Dispatch

lemma readsAs_string {value : Bytes} (h : ∀ c ∈ value, c ≠ 0) (rest : Bytes) (k : Cursor) :
    ReadsAs (print (.STRING, value)) rest k (.STRING, value) := by
  refine readsAs_of_class (p := fun c => c = '\''.toUInt8) (decide_eq_true rfl) (fun x hx => ?_)
    ⟨by decide, by decide, by decide⟩ ?_
  · exact decide_eq_false (ne_of_class hx (by decide))
  · have hread := readQuoted_escape h rest (k.advance '\''.toUInt8)
    have htext : value.flatMap escape ++ ['\''.toUInt8] ++ rest =
        value.flatMap escape ++ '\''.toUInt8 :: rest := List.append_assoc _ _ _
    rw [readToken_quote rfl, List.cons_append, htext, SQLLexer.readString]
    dsimp only [SQLLexer.advance]
    rw [hread, List.foldl_cons, List.foldl_append]
    rfl

lemma readsAs_identifier {value : Bytes} (h : ∀ c ∈ value, inQuotes c) (rest : Bytes)
    (k : Cursor) : ReadsAs (print (.IDENTIFIER, value)) rest k (.IDENTIFIER, value) := by
  refine readsAs_of_class (p := fun c => c = '"'.toUInt8) (decide_eq_true rfl) (fun x hx => ?_)
    ⟨by decide, by decide, by decide⟩ ?_
  · exact decide_eq_false (ne_of_class hx (by decide))
  · have hclose : inQuotes (('"'.toUInt8 :: rest).headD 0) = false :=
      (show inQuotes '"'.toUInt8 = false by decide)
    have hread : readWhile (fun c => c ≠ '"'.toUInt8 && c ≠ 0) (value ++ '"'.toUInt8 :: rest)
        (k.advance '"'.toUInt8) = _ := readWhile_append h hclose (k.advance '"'.toUInt8)
    have htext : value ++ ['"'.toUInt8] ++ rest = value ++ '"'.toUInt8 :: rest :=
      List.append_assoc _ _ _
    rw [readToken_double rfl, List.cons_append, htext, SQLLexer.readQuotedIdentifier]
    dsimp only [SQLLexer.advance]
    rw [hread, List.foldl_cons, List.foldl_append]
    rfl

/-! ### Numbers -/

lemma readDigits_append {digits : Bytes} (h : ∀ c ∈ digits, isdigit c) (hasDot : Bool)
    (rest : Bytes) (k : Cursor) :
    readDigits hasDot (digits ++ rest) k =
      (digits ++ (readDigits hasDot rest (digits.foldl Cursor.advance k)).1,
        (readDigits hasDot rest (digits.foldl Cursor.advance k)).2) := by
  induction digits generalizing k with
  | nil => rfl
  | cons c digits ih =>
    rw [List.forall_mem_cons] at h
    have hdot : c ≠ '.'.toUInt8 := ne_of_class h.1 (by decide)
    rw [List.cons_append, readDigits, if_pos (.inl h.1), decide_eq_false hdot, Bool.or_false,
      ih h.2]
    rfl

lemma readDigits_boundary {rest : Bytes} (h : Boundary rest) (hasDot : Bool) (k : Cursor) :
    readDigits hasDot rest k = ([], hasDot, ⟨rest, k⟩) := by
  rcases h with rfl | ⟨rest', rfl⟩
  · rfl
  · cases hasDot <;> rfl

section Number

variable {whole frac rest : Bytes}

lemma readNumber_whole (h : ∀ c ∈ whole, isdigit c)
    (hzero : whole.headD 0 = '0'.toUInt8 → whole.length = 1) (hrest : Boundary rest) (k : Cursor) :
    SQLLexer.readNumber ⟨whole ++ rest, k⟩ =
      .ok (k.token .NUMBER whole, ⟨rest, whole.foldl Cursor.advance k⟩) := by
  have hread := readDigits_append h false rest k
  rw [readDigits_boundary hrest, List.append_nil] at hread
  rw [SQLLexer.readNumber, hread]
  refine if_neg fun hbad => ?_
  exact Nat.lt_irrefl 1 (hzero hbad.2.2 ▸ hbad.2.1)

lemma readNumber_frac (h : ∀ c ∈ whole, isdigit c) (hfrac : ∀ c ∈ frac, isdigit c)
    (hrest : Boundary rest) (k : Cursor) :
    SQLLexer.readNumber ⟨whole ++ '.'.toUInt8 :: frac ++ rest, k⟩ =
      .ok (k.token .NUMBER (whole ++ '.'.toUInt8 :: frac),
        ⟨rest, (whole ++ '.'.toUInt8 :: frac).foldl Cursor.advance k⟩) := by
  have hdot (k' : Cursor) : readDigits false ('.'.toUInt8 :: (frac ++ rest)) k' =
      ('.'.toUInt8 :: frac, true,
        ⟨rest, ('.'.toUInt8 :: frac).foldl Cursor.advance k'⟩) := by
    rw [readDigits, if_pos (.inr ⟨rfl, Bool.false_ne_true⟩), Bool.false_or, decide_eq_true rfl,
      readDigits_append hfrac, readDigits_boundary hrest, List.append_nil]
    rfl
  have hread := readDigits_append h false ('.'.toUInt8 :: (frac ++ rest)) k
  rw [hdot, ← List.foldl_append] at hread
  rw [List.append_assoc, List.cons_append, SQLLexer.readNumber, hread]
  exact if_neg fun hbad => hbad.1 rfl

end Number

lemma isspace_spec {x : UInt8} (hx : isspace x) : isdigit x = false ∧ isalpha x = false := by
  rw [isspace_iff] at hx
  rw [← Bool.not_eq_true, ← Bool.not_eq_true, isdigit_iff, isalpha_iff]
  omega

lemma readsAs_number {value rest : Bytes} (h : IsNumber value) (hrest : Boundary rest)
    (k : Cursor) : ReadsAs value rest k (.NUMBER, value) := by
  obtain ⟨whole, hne, hwhole, hzero, hvalue⟩ := h
  obtain ⟨c, digits, rfl⟩ := List.exists_cons_of_ne_nil hne
  have hc := hwhole c List.mem_cons_self
  rcases hvalue with rfl | ⟨frac, -, hfrac, rfl⟩
  · refine readsAs_of_class hc (fun x hx => (isspace_spec hx).1)
      ⟨by decide, by decide, by decide⟩ ?_
    rw [readToken_digit (by exact hc)]
    exact readNumber_whole hwhole hzero hrest k
  · refine readsAs_of_class hc (fun x hx => (isspace_spec hx).1)
      ⟨by decide, by decide, by decide⟩ ?_
    rw [readToken_digit (by exact hc)]
    exact readNumber_frac hwhole hfrac hrest k

/-! ### Words -/

lemma isalpha_of_toupper {c : UInt8} (h : isalpha (toupper c)) : isalpha c := by
  rw [toupper] at h
  split_ifs at h with hlower
  · rw [isalpha_iff]
    exact .inr ⟨UInt8.le_iff_toNat_le.mp hlower.1, UInt8.le_iff_toNat_le.mp hlower.2⟩
  · exact h

/-- A keyword is some letters, and its type is not one of the types that print with quotes. -/
lemma keyword_spec {upper : Bytes} {type : TokenType} (h : keyword upper = some type) :
    upper ≠ [] ∧ (∀ c ∈ upper, isalpha c) ∧ type ≠ .STRING ∧ type ≠ .IDENTIFIER := by
  obtain ⟨entry, hfind, rfl⟩ := Option.map_eq_some_iff.mp h
  have hupper := List.find?_some hfind
  rw [decide_eq_true_eq] at hupper
  have hall : ∀ e ∈ keywords, ascii e.1 ≠ [] ∧ (ascii e.1).all isalpha ∧
      e.2 ≠ .STRING ∧ e.2 ≠ .IDENTIFIER := by
    decide
  obtain ⟨hne, hletters, htypes⟩ := hall entry (List.mem_of_find?_eq_some hfind)
  exact hupper ▸ ⟨hne, List.all_eq_true.mp hletters, htypes⟩

lemma print_of_ne {type : TokenType} {value : Bytes} (hstring : type ≠ .STRING)
    (hidentifier : type ≠ .IDENTIFIER) : print (type, value) = value := by
  cases type <;> first | rfl | contradiction

lemma readsAs_keyword {type : TokenType} {word rest : Bytes}
    (h : keyword (word.map toupper) = some type) (hrest : Boundary rest) (k : Cursor) :
    ReadsAs word rest k (type, word) := by
  obtain ⟨hne, hletters, -, -⟩ := keyword_spec h
  have halpha (c : UInt8) (hc : c ∈ word) : isalpha c :=
    isalpha_of_toupper (hletters _ (List.mem_map_of_mem hc))
  obtain ⟨c, text, rfl⟩ := List.exists_cons_of_ne_nil fun hnil => hne (congrArg _ hnil)
  have hc := halpha c List.mem_cons_self
  refine readsAs_of_class hc (fun x hx => (isspace_spec hx).2) ⟨by decide, by decide, by decide⟩ ?_
  have hword (x : UInt8) (hx : x ∈ c :: text) : inWord x := by
    rw [inWord, isalnum, halpha x hx, Bool.true_or, Bool.true_or]
  have hread : readWhile (fun c => isalnum c || c = '_'.toUInt8) (c :: text ++ rest) k = _ :=
    readWhile_append hword (hrest.class (by decide) (by decide)) k
  rw [readToken_alpha (by exact hc), SQLLexer.readIdentifier]
  dsimp only
  rw [hread, h]

/-! ### Punctuation -/

lemma readsAs_of_eq {text rest : Bytes} {k : Cursor} {token : TokenType × Bytes}
    (hvisible : isspace (SQLLexer.current ⟨text ++ rest, k⟩) = false)
    (hnul : decide (SQLLexer.current ⟨text ++ rest, k⟩ = 0) = false)
    (hline : SQLLexer.atLineComment ⟨text ++ rest, k⟩ = false)
    (hblock : SQLLexer.atBlockComment ⟨text ++ rest, k⟩ = false)
    (hread : SQLLexer.readToken ⟨text ++ rest, k⟩ =
      .ok (k.token token.1 token.2, ⟨rest, text.foldl Cursor.advance k⟩)) :
    ReadsAs text rest k token :=
  ⟨hvisible, of_decide_eq_false hnul, Bool.eq_false_iff.mp hline, Bool.eq_false_iff.mp hblock,
    hread⟩

/-- The space behind `<`, `>`, `-` and `/` keeps them apart from what follows. -/
lemma readsAs_sign {text : String} {type : TokenType} (h : (text, type) ∈ punctuation)
    {rest : Bytes} (hrest : Boundary rest) (k : Cursor) :
    ReadsAs (ascii text) rest k (type, ascii text) := by
  have hall : ∀ entry ∈ punctuation, ReadsAs (ascii entry.1) rest k (entry.2, ascii entry.1) := by
    simp only [punctuation, List.forall_mem_cons]
    rcases hrest with rfl | ⟨rest', rfl⟩
    all_goals
      and_intros
      all_goals first
        | exact readsAs_of_eq rfl rfl rfl rfl rfl
        | exact List.forall_mem_nil _
  exact hall (text, type) h

lemma print_of_punctuation {text : String} {type : TokenType} (h : (text, type) ∈ punctuation) :
    print (type, ascii text) = ascii text := by
  have hall : ∀ entry ∈ punctuation, entry.2 ≠ .STRING ∧ entry.2 ≠ .IDENTIFIER := by decide
  exact print_of_ne (hall _ h).1 (hall _ h).2

/-- **One token**: what was printed is read back. -/
lemma readsAs_print {token : TokenType × Bytes} (h : Printable token) {rest : Bytes}
    (hrest : Boundary rest) (k : Cursor) : ReadsAs (print token) rest k token := by
  cases h with
  | keyword h =>
    obtain ⟨-, -, hstring, hidentifier⟩ := keyword_spec h
    rw [print_of_ne hstring hidentifier]
    exact readsAs_keyword h hrest k
  | string h => exact readsAs_string h rest k
  | identifier h => exact readsAs_identifier h rest k
  | number h => exact readsAs_number h hrest k
  | sign h =>
    rw [print_of_punctuation h]
    exact readsAs_sign h hrest k

/-! ### Reading all tokens -/

/-- One turn passes over the white space in front of a token, and over the token. -/
lemma turn_readsAs {gap text rest : Bytes} {k : Cursor} {token : TokenType × Bytes}
    (hgap : ∀ c ∈ gap, isspace c) (h : ReadsAs text rest (gap.foldl Cursor.advance k) token)
    (tokens : List Token) :
    turn { lexer := ⟨gap ++ (text ++ rest), k⟩, tokens } =
      .ok (some { lexer := ⟨rest, text.foldl Cursor.advance (gap.foldl Cursor.advance k)⟩,
                  tokens := tokens ++
                    [(gap.foldl Cursor.advance k).token token.1 token.2] }) := by
  have hskip : SQLLexer.skipWhitespace ⟨gap ++ (text ++ rest), k⟩ =
      ⟨text ++ rest, gap.foldl Cursor.advance k⟩ :=
    congrArg Prod.snd (readWhile_append hgap h.visible k)
  have hne : gap ++ (text ++ rest) ≠ [] := by
    refine List.append_ne_nil_of_right_ne_nil gap fun hnil => h.notNul ?_
    rw [SQLLexer.current, hnil]
    rfl
  rw [turn, if_neg (by simpa using hne)]
  dsimp only
  rw [hskip, if_neg h.notNul, if_neg (not_or.mpr ⟨h.notLine, h.notBlock⟩), h.read]
  rfl

/-- The tokens with a space in front of each. -/
def behind (tokens : List (TokenType × Bytes)) : Bytes :=
  tokens.flatMap fun token => ' '.toUInt8 :: print token

lemma boundary_behind (tokens : List (TokenType × Bytes)) : Boundary (behind tokens) := by
  rcases tokens with _ | ⟨token, tokens⟩
  · exact .inl rfl
  · exact .inr ⟨print token ++ behind tokens, rfl⟩

lemma printAll_cons (token : TokenType × Bytes) (tokens : List (TokenType × Bytes)) :
    printAll (token :: tokens) = print token ++ behind tokens := by
  induction tokens generalizing token with
  | nil => simp [printAll, behind]
  | cons next tokens ih =>
    have hstep : printAll (token :: next :: tokens) =
        print token ++ ' '.toUInt8 :: printAll (next :: tokens) := by
      simp [printAll, List.intercalate_cons_cons]
    rw [hstep, ih]
    rfl

lemma returns_behind {tokens : List (TokenType × Bytes)} (h : ∀ token ∈ tokens, Printable token)
    (k : Cursor) (read : List Token) :
    ∃ s : Scan, Returns (fun n => loop turn n { lexer := ⟨behind tokens, k⟩, tokens := read }) s ∧
      s.tokens.map (fun token => (token.type, token.value)) =
        read.map (fun token => (token.type, token.value)) ++ tokens := by
  induction tokens generalizing k read with
  | nil => exact ⟨_, returns_stop rfl, (List.append_nil _).symm⟩
  | cons token tokens ih =>
    rw [List.forall_mem_cons] at h
    have hgap : ∀ c ∈ [' '.toUInt8], isspace c := List.forall_mem_singleton.mpr rfl
    have hturn := turn_readsAs hgap (readsAs_print h.1 (boundary_behind tokens) _) (k := k) read
    obtain ⟨s, hs, htokens⟩ := ih h.2 _ _
    refine ⟨s, returns_step hturn hs, ?_⟩
    rw [htokens, List.map_append, List.append_assoc]
    rfl

/-- **Print, then lex**: the tokens come back, with the end of the input behind them. -/
theorem tokenize_printAll {tokens : List (TokenType × Bytes)}
    (h : ∀ token ∈ tokens, Printable token) :
    ∃ r, Returns (tokenize { rest := printAll tokens }) r ∧
      r.1.map (fun token => (token.type, token.value)) = tokens ++ [(.EOF_TOKEN, [])] := by
  have hloop : ∃ s : Scan,
      Returns (fun n => loop turn n { lexer := { rest := printAll tokens } }) s ∧
        s.tokens.map (fun token => (token.type, token.value)) = tokens := by
    rcases tokens with _ | ⟨token, tokens⟩
    · exact ⟨_, returns_stop rfl, rfl⟩
    · rw [List.forall_mem_cons] at h
      have hgap : ∀ c ∈ ([] : Bytes), isspace c := List.forall_mem_nil _
      have hturn := turn_readsAs hgap (readsAs_print h.1 (boundary_behind tokens) _) (k := {}) []
      obtain ⟨s, hs, htokens⟩ := returns_behind h.2 _ _
      rw [printAll_cons]
      exact ⟨s, returns_step hturn hs, htokens⟩
  obtain ⟨s, hs, htokens⟩ := hloop
  refine ⟨_, hs.bind (returns_const _), ?_⟩
  rw [List.map_append, htokens]
  rfl

/-- A keyword in small letters, a string with a quote in it, and a number. -/
theorem tokenize_printAll_select :
    ∃ r, Returns (tokenize { rest := ascii "select 'it\\'s' 0.5" }) r ∧
      r.1.map (fun token => (token.type, token.value)) =
        [(.SELECT, ascii "select"), (.STRING, ascii "it's"), (.NUMBER, ascii "0.5"),
          (.EOF_TOKEN, [])] := by
  have hnumber : IsNumber (ascii "0.5") :=
    ⟨ascii "0", by decide, List.all_eq_true.mp rfl, fun _ => rfl,
      .inr ⟨ascii "5", by decide, List.all_eq_true.mp rfl, rfl⟩⟩
  have htext : ∀ c ∈ ascii "it's", c ≠ 0 := List.all_iff_forall_prop.mp rfl
  exact @tokenize_printAll
    [(.SELECT, ascii "select"), (.STRING, ascii "it's"), (.NUMBER, ascii "0.5")]
    (List.forall_mem_cons.mpr ⟨.keyword rfl, List.forall_mem_cons.mpr ⟨.string htext,
      List.forall_mem_singleton.mpr (.number hnumber)⟩⟩)

end Dbx4.LexPrint
