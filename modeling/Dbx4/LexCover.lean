import Dbx4.LexText

/-!
What the lexer of `sql_lexer.cpp` covers.

Every turn of `tokenize` passes over white space and then over one comment or one token. The
lexer takes a NUL byte for the end of the input, so a turn that meets one stops with the
rest unread. NUL bytes behind a backslash in a string are read; no others can be.
-/

namespace Dbx4.LexCover

open Dbx4.Word32 Dbx4.Loops Dbx4.SqlAst Dbx4.SqlLexer Dbx4.LexText

/-! ### Readings -/

/-- Every character of the text belongs to white space, to a comment, or to the source text
of one of the tokens, which stand in their order. -/
inductive Reading : Bytes → List Token → Prop
  | nil : Reading [] []
  | space {c : UInt8} {rest : Bytes} {tokens : List Token} (hc : isspace c)
    (h : Reading rest tokens) : Reading (c :: rest) tokens
  | line {body rest : Bytes} {tokens : List Token} (hbody : ∀ c ∈ body, inLine c)
    (h : Reading rest tokens) : Reading (ascii "--" ++ body ++ ['\n'.toUInt8] ++ rest) tokens
  | lastLine {body : Bytes} (hbody : ∀ c ∈ body, inLine c) : Reading (ascii "--" ++ body) []
  | block {text rest : Bytes} {tokens : List Token} (htext : Block text)
    (h : Reading rest tokens) : Reading (ascii "/*" ++ text ++ rest) tokens
  | token {text rest : Bytes} {t : Token} {tokens : List Token}
    (htext : Source text t.type t.value) (h : Reading rest tokens) :
    Reading (text ++ rest) (t :: tokens)

/-- The lexer is at the end of the input, and the tokens before the last are a reading of all
of it. -/
def Covered (input : Bytes) (r : List Token × SQLLexer) : Prop :=
  r.2.rest = [] ∧ ∃ tokens, Reading input tokens ∧
    r.1 = tokens ++ [r.2.cursor.token .EOF_TOKEN []]

/-! ### NUL bytes -/

/-- Where a character of the input stands. -/
inductive Mode
  | code | string | escape | quoted | line | opening | block | closing

/-- Where the next character stands; a NUL byte that is not escaped has none behind it. -/
def Mode.next : Mode → UInt8 → UInt8 → Option Mode
  | .code, c, peek =>
    if c = 0 then none
    else if c = '\''.toUInt8 then some .string
    else if c = '"'.toUInt8 then some .quoted
    else if c = '-'.toUInt8 ∧ peek = '-'.toUInt8 then some .line
    else if c = '/'.toUInt8 ∧ peek = '*'.toUInt8 then some .opening
    else some .code
  | .string, c, _ =>
    if c = 0 then none
    else if c = '\''.toUInt8 then some .code
    else if c = '\\'.toUInt8 then some .escape
    else some .string
  | .escape, _, _ => some .string
  | .quoted, c, _ =>
    if c = 0 then none else if c = '"'.toUInt8 then some .code else some .quoted
  | .line, c, _ =>
    if c = 0 then none else if c = '\n'.toUInt8 then some .code else some .line
  | .opening, _, _ => some .block
  | .block, c, peek =>
    if c = 0 then none
    else if c = '*'.toUInt8 ∧ peek = '/'.toUInt8 then some .closing
    else some .block
  | .closing, _, _ => some .code

/-- Every NUL byte stands behind a backslash in a string. -/
def nulsEscaped : Mode → Bytes → Bool
  | _, [] => true
  | mode, c :: rest =>
    match mode.next c (rest.headD 0) with
    | some mode => nulsEscaped mode rest
    | none => false

lemma nulsEscaped_cons {mode mode' : Mode} {c : UInt8} {rest : Bytes}
    (h : mode.next c (rest.headD 0) = some mode') :
    nulsEscaped mode (c :: rest) = nulsEscaped mode' rest := by
  simp only [nulsEscaped, h]

lemma nulsEscaped_run {mode : Mode} {text : Bytes}
    (h : ∀ c ∈ text, ∀ peek, mode.next c peek = some mode) (rest : Bytes) :
    nulsEscaped mode (text ++ rest) = nulsEscaped mode rest := by
  induction text with
  | nil => rfl
  | cons c text ih =>
    rw [List.cons_append, nulsEscaped_cons (h c List.mem_cons_self _)]
    exact ih fun d hd => h d (List.mem_cons_of_mem c hd)

lemma next_code {c peek : UInt8} (hnul : c ≠ 0) (hquote : c ≠ '\''.toUInt8)
    (hdouble : c ≠ '"'.toUInt8) (hline : ¬(c = '-'.toUInt8 ∧ peek = '-'.toUInt8))
    (hblock : ¬(c = '/'.toUInt8 ∧ peek = '*'.toUInt8)) :
    Mode.code.next c peek = some .code := by
  rw [Mode.next, if_neg hnul, if_neg hquote, if_neg hdouble, if_neg hline, if_neg hblock]

lemma next_plain {c : UInt8} (h : isspace c ∨ plain c) (peek : UInt8) :
    Mode.code.next c peek = some .code := by
  have hclass : isspace c || plain c := Bool.or_eq_true_iff.mpr h
  have hne {x : UInt8} (hx : (isspace x || plain x) = false) : c ≠ x :=
    ne_of_class (p := fun c => isspace c || plain c) hclass hx
  exact next_code (hne (by decide)) (hne (by decide)) (hne (by decide))
    (fun hc => hne (by decide) hc.1) fun hc => hne (by decide) hc.1

lemma nulsEscaped_quoted {text value : Bytes} (h : Quoted text value) (rest : Bytes) :
    nulsEscaped .string (text ++ rest) = nulsEscaped .code rest := by
  induction h with
  | close => exact nulsEscaped_cons rfl
  | escape c h ih =>
    rw [← ih]
    exact (nulsEscaped_cons rfl).trans (nulsEscaped_cons rfl)
  | plain hnul hquote hback h ih =>
    rw [List.cons_append, nulsEscaped_cons, ih]
    rw [Mode.next, if_neg hnul, if_neg hquote, if_neg hback]

lemma headD_append {text : Bytes} (h : text ≠ []) (rest : Bytes) :
    (text ++ rest).headD 0 = text.headD 0 := by
  cases text with
  | nil => exact absurd rfl h
  | cons c text => rfl

lemma nulsEscaped_block {text : Bytes} (h : Block text) (rest : Bytes) :
    nulsEscaped .block (text ++ rest) = nulsEscaped .code rest := by
  induction h with
  | close => rfl
  | step hnul hopen h ih =>
    rw [List.cons_append, nulsEscaped_cons, ih]
    rw [Mode.next, headD_append h.ne_nil, if_neg hnul, if_neg hopen]

lemma nulsEscaped_line {body : Bytes} (h : ∀ c ∈ body, inLine c) (rest : Bytes) :
    nulsEscaped .line (body ++ rest) = nulsEscaped .line rest := by
  refine nulsEscaped_run (fun c hc peek => ?_) rest
  rw [Mode.next, if_neg (ne_of_class (h c hc) (by decide)),
    if_neg (ne_of_class (h c hc) (by decide))]

lemma nulsEscaped_inQuotes {id : Bytes} (h : ∀ c ∈ id, inQuotes c) (rest : Bytes) :
    nulsEscaped .quoted (id ++ rest) = nulsEscaped .quoted rest := by
  refine nulsEscaped_run (fun c hc peek => ?_) rest
  rw [Mode.next, if_neg (ne_of_class (h c hc) (by decide)),
    if_neg (ne_of_class (h c hc) (by decide))]

/-- Outside of comments a token changes nothing about the NUL bytes behind it. -/
lemma nulsEscaped_source {l l' : SQLLexer} {text value : Bytes} {type : TokenType}
    (hline : ¬l.atLineComment) (hblock : ¬l.atBlockComment) (hpass : Passes l text l')
    (h : Source text type value) : nulsEscaped .code l.rest = nulsEscaped .code l'.rest := by
  have hrest := hpass.rest
  simp only [SQLLexer.atLineComment, SQLLexer.atBlockComment, SQLLexer.current, SQLLexer.peek,
    hrest, Bool.and_eq_true, decide_eq_true_eq] at hline hblock
  rw [hrest]
  cases h with
  | string h => exact nulsEscaped_quoted h _
  | identifier h =>
    rw [List.cons_append, List.append_assoc]
    exact nulsEscaped_inQuotes h _
  | word _ hne h => exact nulsEscaped_run (fun c hc => next_plain (.inr (h c hc))) _
  | minus =>
    have hslash : '-'.toUInt8 ≠ '/'.toUInt8 := by decide
    exact nulsEscaped_cons (next_code (by decide) (by decide) (by decide) hline
      fun h => hslash h.1)
  | divide =>
    have hminus : '/'.toUInt8 ≠ '-'.toUInt8 := by decide
    exact nulsEscaped_cons (next_code (by decide) (by decide) (by decide)
      (fun h => hminus h.1) hblock)

/-- Where the lexer sees the end, no NUL byte is left exactly at the end of the input. -/
lemma nulsEscaped_stop {rest : Bytes} (h : rest.headD 0 = 0) :
    nulsEscaped .code rest ↔ rest = [] := by
  rcases rest with _ | ⟨c, rest⟩
  · exact iff_of_true rfl rfl
  · obtain rfl : c = 0 := h
    exact iff_of_false (by simp [nulsEscaped, Mode.next]) (List.cons_ne_nil _ _)

/-! ### Turns -/

lemma Source.head {text value : Bytes} {type : TokenType} (h : Source text type value) :
    text.headD 0 ≠ 0 := by
  cases h with
  | string h => exact (by decide : '\''.toUInt8 ≠ 0)
  | identifier h => exact (by decide : '"'.toUInt8 ≠ 0)
  | word _ hne h =>
    rcases text with _ | ⟨c, text⟩
    · exact absurd rfl hne
    · exact ne_of_class (h c List.mem_cons_self) (by decide)
  | minus => decide
  | divide => decide

/-- No reading starts with a NUL byte. -/
lemma reading_stop {rest : Bytes} {tokens : List Token} (h : Reading rest tokens)
    (hrest : rest.headD 0 = 0) : rest = [] ∧ tokens = [] := by
  cases h with
  | nil => exact ⟨rfl, rfl⟩
  | space hc h => exact absurd hrest (ne_of_class hc (by decide))
  | line hbody h => exact absurd hrest (by decide : '-'.toUInt8 ≠ 0)
  | lastLine hbody => exact absurd hrest (by decide : '-'.toUInt8 ≠ 0)
  | block htext h => exact absurd hrest (by decide : '/'.toUInt8 ≠ 0)
  | token htext h =>
    rw [headD_append htext.ne_nil] at hrest
    exact absurd hrest (Source.head htext)

lemma reading_spaces {text rest : Bytes} {tokens : List Token} (htext : ∀ c ∈ text, isspace c)
    (h : Reading rest tokens) : Reading (text ++ rest) tokens := by
  induction text with
  | nil => exact h
  | cons c text ih =>
    rw [List.forall_mem_cons] at htext
    exact .space htext.1 (ih htext.2)

/-- The lexer has moved on over the source texts of these tokens. -/
structure Moves (l : SQLLexer) (new : List Token) (l' : SQLLexer) : Prop where
  reading : ∀ {tokens}, Reading l'.rest tokens → Reading l.rest (new ++ tokens)
  nuls : nulsEscaped .code l.rest = nulsEscaped .code l'.rest

lemma Moves.trans {l l' l'' : SQLLexer} {new new' : List Token} (h : Moves l new l')
    (h' : Moves l' new' l'') : Moves l (new ++ new') l'' := by
  refine ⟨fun hread => ?_, h.nuls.trans h'.nuls⟩
  rw [List.append_assoc]
  exact h.reading (h'.reading hread)

lemma moves_whitespace (l : SQLLexer) : Moves l [] l.skipWhitespace := by
  obtain ⟨text, hpass, hspace⟩ := skipWhitespace_spec l
  refine ⟨fun hread => ?_, ?_⟩
  · rw [hpass.rest]
    exact reading_spaces hspace hread
  · rw [hpass.rest]
    exact nulsEscaped_run (fun c hc => next_plain (.inl (hspace c hc))) _

/-- A line comment without an end of its line is read only at the end of the input. -/
lemma moves_comment {l l' : SQLLexer} (hl : l.atLineComment ∨ l.atBlockComment)
    (h : l.skipComment = .ok l') : Moves l [] l' := by
  obtain ⟨body, hbody, hpass | ⟨hpass, hstop⟩⟩ | ⟨text, hblock, hpass⟩ := skipComment_cases hl h
  · refine ⟨fun hread => ?_, ?_⟩
    · rw [hpass.rest]
      exact .line hbody hread
    · rw [hpass.rest, List.append_assoc, List.append_assoc]
      exact nulsEscaped_line hbody _
  · refine ⟨fun hread => ?_, ?_⟩
    · obtain ⟨hrest, rfl⟩ := reading_stop hread hstop
      rw [hpass.rest, hrest, List.append_nil]
      exact .lastLine hbody
    · rw [hpass.rest, List.append_assoc]
      refine (nulsEscaped_line hbody _).trans ?_
      rcases hrest : l'.rest with _ | ⟨c, rest⟩
      · rfl
      · obtain rfl : c = 0 := by simpa [SQLLexer.current, hrest] using hstop
        rfl
  · refine ⟨fun hread => ?_, ?_⟩
    · rw [hpass.rest]
      exact .block hblock hread
    · rw [hpass.rest, List.append_assoc]
      exact nulsEscaped_block hblock _

lemma moves_token {l : SQLLexer} {r : Token × SQLLexer} (hl : ¬l.atLineComment)
    (hb : ¬l.atBlockComment) (h : l.readToken = .ok r) : Moves l [r.1] r.2 := by
  obtain ⟨text, type, value, htoken, hsource, hpass⟩ := readToken_spec h
  refine ⟨fun hread => ?_, nulsEscaped_source hl hb hpass hsource⟩
  rw [hpass.rest]
  exact .token (by rw [htoken]; exact hsource) hread

/-! ### Runs -/

/-- The input up to the lexer is a reading of the tokens; a lexer that has stopped sees a NUL
byte or the end. -/
structure Inv (input : Bytes) (s : Scan) : Prop where
  moves : Moves { rest := input } s.tokens s.lexer
  stopped : s.stopped → s.lexer.current = 0

lemma turn_inv {input : Bytes} {s s' : Scan} (hs : Inv input s)
    (h : turn s = .ok (some s')) : Inv input s' := by
  have hspace := hs.moves.trans (moves_whitespace s.lexer)
  rw [List.append_nil] at hspace
  obtain ⟨hgo, -, ⟨hnul, rfl⟩ | ⟨l, hcomment, hskip, rfl⟩ | ⟨r, hline, hblock, hread, rfl⟩⟩ :=
    turn_cases h
  · exact ⟨hspace, fun _ => hnul⟩
  · have hmoves := hspace.trans (moves_comment hcomment hskip)
    rw [List.append_nil] at hmoves
    exact ⟨hmoves, fun hstop => absurd hstop hgo⟩
  · exact ⟨hspace.trans (moves_token hline hblock hread), fun hstop => absurd hstop hgo⟩

/-- What the turns of `tokenize` make smaller. -/
def left (s : Scan) : ℕ := if s.stopped then 0 else s.lexer.rest.length + 1

lemma left_lt {s s' : Scan} (h : turn s = .ok (some s')) : left s' < left s := by
  obtain ⟨text₀, hspace, -⟩ := skipWhitespace_spec s.lexer
  have hle := hspace.length
  have hlt {l : SQLLexer} {text : Bytes} (hpass : Passes s.lexer.skipWhitespace text l)
      (hne : text ≠ []) : l.rest.length + 1 < s.lexer.rest.length + 1 := by
    have hlength := hpass.length
    have hpos := List.length_pos_iff.mpr hne
    omega
  obtain ⟨hgo, -, ⟨hnul, rfl⟩ | ⟨l, hcomment, hskip, rfl⟩ | ⟨r, hline, hblock, hread, rfl⟩⟩ :=
    turn_cases h
  · rw [left, left, if_pos rfl, if_neg hgo]
    exact Nat.succ_pos _
  all_goals rw [left, left, if_neg hgo, if_neg hgo]
  · obtain ⟨body, -, hpass | ⟨hpass, -⟩⟩ | ⟨text, -, hpass⟩ := skipComment_cases hcomment hskip
    · exact hlt hpass (List.cons_ne_nil _ _)
    · exact hlt hpass (List.cons_ne_nil _ _)
    · exact hlt hpass (List.cons_ne_nil _ _)
  · obtain ⟨text, type, value, -, hsource, hpass⟩ := readToken_spec hread
    exact hlt hpass hsource.ne_nil

/-- `tokenize` throws, or else it covers the input exactly when every NUL byte is escaped in
a string. -/
theorem throws_or_covered_iff (input : Bytes) :
    (∃ e, Throws (tokenize { rest := input }) e) ∨
      ∃ r, Returns (tokenize { rest := input }) r ∧
        (Covered input r ↔ nulsEscaped .code input) := by
  rcases throws_or_returns left (fun _ _ => left_lt) { lexer := { rest := input } } with
    ⟨e, he⟩ | ⟨s, hs, hreach, hstop⟩
  · exact .inl ⟨e, he.bind _⟩
  · have hinv : Inv input s := hreach.inv ⟨⟨id, rfl⟩, Bool.noConfusion⟩ fun _ _ => turn_inv
    have hend : s.lexer.current = 0 := by
      rcases turn_eq_none hstop with hstop | hstop
      · exact hinv.stopped hstop
      · rw [SQLLexer.current, hstop]
        rfl
    refine .inr ⟨_, hs.bind (returns_const _), ?_⟩
    rw [show nulsEscaped .code input = _ from hinv.moves.nuls, nulsEscaped_stop hend]
    refine ⟨fun h => h.1, fun h => ⟨h, s.tokens, ?_, rfl⟩⟩
    have hread : Reading [] [] → Reading input (s.tokens ++ []) := h ▸ hinv.moves.reading
    rw [List.append_nil] at hread
    exact hread .nil

-- a NUL byte behind a backslash
example : nulsEscaped .code [39, 92, 0, 39] := by decide

/-- A digit, a NUL byte and a digit: the second digit is dropped. -/
theorem not_forall_covered : ¬∀ input r, Returns (tokenize { rest := input }) r →
    Covered input r := by
  intro h
  have hrun : Returns (tokenize { rest := [49, 0, 50] })
      ([⟨.NUMBER, [49], 1, 1⟩, ⟨.EOF_TOKEN, [], 1, 2⟩], ⟨[0, 50], ⟨1, 2⟩⟩) := by
    refine ⟨3, fun m hm => ?_⟩
    obtain ⟨n, rfl⟩ : ∃ n, m = n + 3 := ⟨m - 3, by omega⟩
    rfl
  exact List.cons_ne_nil _ _ (h _ _ hrun).1

end Dbx4.LexCover
