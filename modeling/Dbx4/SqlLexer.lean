import Dbx4.Decimals
import Dbx4.Loops
import Dbx4.SqlAst

/-!
The lexer of `sql_lexer.cpp`.

The input is bytes, and `current` answers a NUL byte at its end. The loops that read a text
go along the input; `tokenize` reads one token or comment in a turn. Characters are told
apart as in the locale `"C"`, where no byte above 127 is a letter, a digit or a space.
-/

namespace Dbx4.SqlLexer

open Dbx4.Word32 Dbx4.Loops Dbx4.Decimals Dbx4.SqlAst

def ascii (s : String) : Bytes := s.toList.map Char.toUInt8

def isspace (c : UInt8) : Bool := c = 32 || (9 ≤ c && c ≤ 13)

def isdigit (c : UInt8) : Bool := 48 ≤ c && c ≤ 57

def isalpha (c : UInt8) : Bool := (65 ≤ c && c ≤ 90) || (97 ≤ c && c ≤ 122)

def isalnum (c : UInt8) : Bool := isalpha c || isdigit c

def toupper (c : UInt8) : UInt8 := if 97 ≤ c ∧ c ≤ 122 then c - 32 else c

section Classes

variable {c : UInt8}

lemma isspace_iff : isspace c ↔ c.toNat = 32 ∨ 9 ≤ c.toNat ∧ c.toNat ≤ 13 := by
  simp [isspace, UInt8.le_iff_toNat_le, ← UInt8.toNat_inj]

lemma isdigit_iff : isdigit c ↔ 48 ≤ c.toNat ∧ c.toNat ≤ 57 := by
  simp [isdigit, UInt8.le_iff_toNat_le]

lemma isalpha_iff :
    isalpha c ↔ 65 ≤ c.toNat ∧ c.toNat ≤ 90 ∨ 97 ≤ c.toNat ∧ c.toNat ≤ 122 := by
  simp [isalpha, UInt8.le_iff_toNat_le]

end Classes

/-- What an `SQLParseException` says. -/
def parseException (msg : Bytes) : Bytes := ascii "SQL Parse Error: " ++ msg

structure Token where
  type : TokenType
  value : Bytes
  line : Int32
  column : Int32
  deriving DecidableEq

/-- The line and the column of the lexer. -/
structure Cursor where
  line : Int32 := 1
  column : Int32 := 1
  deriving DecidableEq

namespace Cursor

def advance (k : Cursor) (c : UInt8) : Cursor :=
  if c = '\n'.toUInt8 then { line := k.line + 1, column := 1 }
  else { k with column := k.column + 1 }

def token (k : Cursor) (type : TokenType) (value : Bytes) : Token :=
  { type, value, line := k.line, column := k.column }

end Cursor

structure SQLLexer where
  /-- The input from `pos_` on. -/
  rest : Bytes
  cursor : Cursor := {}
  deriving DecidableEq

def keywords : List (String × TokenType) :=
  [("SELECT", .SELECT), ("FROM", .FROM), ("WHERE", .WHERE), ("INSERT", .INSERT),
    ("INTO", .INTO), ("VALUES", .VALUES), ("UPDATE", .UPDATE), ("SET", .SET),
    ("DELETE", .DELETE), ("CREATE", .CREATE), ("TABLE", .TABLE), ("DROP", .DROP),
    ("ALTER", .ALTER), ("ADD", .ADD), ("MODIFY", .MODIFY), ("PRIMARY", .PRIMARY),
    ("KEY", .KEY), ("NOT", .NOT_KEYWORD), ("NULL", .NULL_KEYWORD), ("UNIQUE", .UNIQUE),
    ("FOREIGN", .FOREIGN), ("REFERENCES", .REFERENCES), ("DEFAULT", .DEFAULT),
    ("CHECK", .CHECK), ("CONSTRAINT", .CONSTRAINT), ("AND", .AND), ("OR", .OR), ("IN", .IN),
    ("BETWEEN", .BETWEEN), ("LIKE", .LIKE), ("IS", .IS), ("ORDER", .ORDER), ("BY", .BY),
    ("GROUP", .GROUP), ("HAVING", .HAVING), ("LIMIT", .LIMIT), ("OFFSET", .OFFSET),
    ("DISTINCT", .DISTINCT), ("INNER", .INNER), ("LEFT", .LEFT), ("RIGHT", .RIGHT),
    ("FULL", .FULL), ("OUTER", .OUTER), ("JOIN", .JOIN), ("ON", .ON), ("USING", .USING),
    ("UNION", .UNION), ("INTERSECT", .INTERSECT), ("EXCEPT", .EXCEPT), ("CASE", .CASE),
    ("WHEN", .WHEN), ("THEN", .THEN), ("ELSE", .ELSE), ("END", .END), ("AS", .AS),
    ("ASC", .ASC), ("DESC", .DESC), ("INT", .INT), ("BIGINT", .BIGINT), ("FLOAT", .FLOAT),
    ("DOUBLE", .DOUBLE), ("DECIMAL", .DECIMAL), ("VARCHAR", .VARCHAR), ("CHAR", .CHAR),
    ("BOOLEAN", .BOOLEAN), ("DATE", .DATE), ("TIMESTAMP", .TIMESTAMP), ("TEXT", .TEXT),
    ("BLOB", .BLOB)]

/-- The keyword that a word in capitals is. -/
def keyword (upper : Bytes) : Option TokenType :=
  (keywords.find? fun entry => ascii entry.1 = upper).map Prod.snd

/-! ### The loops inside a token -/

/-- `while (p(current())) { value += current(); advance(); }`, where `p` is false at NUL. -/
def readWhile (p : UInt8 → Bool) : Bytes → Cursor → Bytes × SQLLexer
  | [], k => ([], { rest := [], cursor := k })
  | c :: rest, k =>
    if p c then
      let (value, l) := readWhile p rest (k.advance c)
      (c :: value, l)
    else ([], { rest := c :: rest, cursor := k })

/-- The loop of `skip_comment` up to the first `*/`; it throws at NUL. -/
def skipBlock : Bytes → Cursor → Option SQLLexer
  | [], _ => none
  | c :: rest, k =>
    if c = 0 then none
    else if c = '*'.toUInt8 ∧ rest.headD 0 = '/'.toUInt8 then
      some { rest := rest.tail, cursor := (k.advance c).advance '/'.toUInt8 }
    else skipBlock rest (k.advance c)

/-- The character that stands behind a backslash. -/
def unescape (c : UInt8) : UInt8 :=
  if c = 'n'.toUInt8 then '\n'.toUInt8
  else if c = 't'.toUInt8 then '\t'.toUInt8
  else if c = 'r'.toUInt8 then '\r'.toUInt8
  else c

/-- The loop of `read_string`: it stops at the quote and at NUL. Behind a backslash at the
end of the input `current` is NUL, and `advance` does nothing. -/
def readQuoted (quoteChar : UInt8) : Bytes → Cursor → Bytes × SQLLexer
  | [], k => ([], { rest := [], cursor := k })
  | c :: rest, k =>
    if c = quoteChar ∨ c = 0 then ([], { rest := c :: rest, cursor := k })
    else if c = '\\'.toUInt8 then
      match rest with
      | [] => ([unescape 0], { rest := [], cursor := k.advance c })
      | e :: rest =>
        let (value, l) := readQuoted quoteChar rest ((k.advance c).advance e)
        (unescape e :: value, l)
    else
      let (value, l) := readQuoted quoteChar rest (k.advance c)
      (c :: value, l)

/-- The loop of `read_number`, with `has_dot`. -/
def readDigits (hasDot : Bool) : Bytes → Cursor → Bytes × Bool × SQLLexer
  | [], k => ([], hasDot, { rest := [], cursor := k })
  | c :: rest, k =>
    if isdigit c ∨ (c = '.'.toUInt8 ∧ ¬ hasDot) then
      let (value, hasDot, l) :=
        readDigits (hasDot || c = '.'.toUInt8) rest (k.advance c)
      (c :: value, hasDot, l)
    else ([], hasDot, { rest := c :: rest, cursor := k })

/-! ### The lexer -/

namespace SQLLexer

def current (l : SQLLexer) : UInt8 := l.rest.headD 0

def peek (l : SQLLexer) : UInt8 := l.rest.tail.headD 0

def advance (l : SQLLexer) : SQLLexer :=
  match l.rest with
  | [] => l
  | c :: rest => { rest, cursor := l.cursor.advance c }

def skipWhitespace (l : SQLLexer) : SQLLexer := (readWhile isspace l.rest l.cursor).2

def atLineComment (l : SQLLexer) : Bool := l.current = '-'.toUInt8 && l.peek = '-'.toUInt8

def atBlockComment (l : SQLLexer) : Bool := l.current = '/'.toUInt8 && l.peek = '*'.toUInt8

def skipComment (l : SQLLexer) : Except Bytes SQLLexer :=
  if l.atLineComment then
    let l := (readWhile (fun c => c ≠ '\n'.toUInt8 && c ≠ 0) l.rest l.cursor).2
    .ok (if l.current = '\n'.toUInt8 then l.advance else l)
  else if l.atBlockComment then
    match skipBlock l.advance.advance.rest l.advance.advance.cursor with
    | some l => .ok l
    | none => .error (parseException (ascii "Unterminated block comment"))
  else .ok l

/-- The message with the line a token starts in. -/
def complaint (l : SQLLexer) (msg : String) : Bytes :=
  parseException (ascii msg ++ decimal l.cursor.line.toInt)

def readString (l : SQLLexer) (quoteChar : UInt8) : Except Bytes (Token × SQLLexer) :=
  let (value, l') := readQuoted quoteChar l.advance.rest l.advance.cursor
  if l'.current ≠ quoteChar then .error (l.complaint "Unterminated string literal at line ")
  else .ok (l.cursor.token .STRING value, l'.advance)

def readNumber (l : SQLLexer) : Except Bytes (Token × SQLLexer) :=
  let (value, hasDot, l') := readDigits false l.rest l.cursor
  if ¬ hasDot ∧ 1 < value.length ∧ value.headD 0 = '0'.toUInt8 then
    .error (l.complaint "Invalid numeric literal at line ")
  else .ok (l.cursor.token .NUMBER value, l')

def readIdentifier (l : SQLLexer) : Token × SQLLexer :=
  let (value, l') := readWhile (fun c => isalnum c || c = '_'.toUInt8) l.rest l.cursor
  match keyword (value.map toupper) with
  | some type => (l.cursor.token type value, l')
  | none => (l.cursor.token .IDENTIFIER value, l')

def readOperator (l : SQLLexer) : Except Bytes (Token × SQLLexer) :=
  let l' := l.advance
  if l.current = '='.toUInt8 then .ok (l.cursor.token .EQUALS (ascii "="), l')
  else if l.current = '<'.toUInt8 then
    if l'.current = '='.toUInt8 then
      .ok (l.cursor.token .LESS_EQUAL (ascii "<="), l'.advance)
    else if l'.current = '>'.toUInt8 then
      .ok (l.cursor.token .NOT_EQUALS (ascii "<>"), l'.advance)
    else .ok (l.cursor.token .LESS (ascii "<"), l')
  else if l.current = '>'.toUInt8 then
    if l'.current = '='.toUInt8 then
      .ok (l.cursor.token .GREATER_EQUAL (ascii ">="), l'.advance)
    else .ok (l.cursor.token .GREATER (ascii ">"), l')
  else if l.current = '+'.toUInt8 then .ok (l.cursor.token .PLUS (ascii "+"), l')
  else if l.current = '-'.toUInt8 then .ok (l.cursor.token .MINUS (ascii "-"), l')
  else if l.current = '*'.toUInt8 then .ok (l.cursor.token .MULTIPLY (ascii "*"), l')
  else if l.current = '/'.toUInt8 then .ok (l.cursor.token .DIVIDE (ascii "/"), l')
  else if l.current = '%'.toUInt8 then .ok (l.cursor.token .MODULO (ascii "%"), l')
  else .error (l.complaint "Unexpected character at line ")

/-- The branch of `tokenize` at a double quote. -/
def readQuotedIdentifier (l : SQLLexer) : Except Bytes (Token × SQLLexer) :=
  let (id, l') :=
    readWhile (fun c => c ≠ '"'.toUInt8 && c ≠ 0) l.advance.rest l.advance.cursor
  if l'.current ≠ '"'.toUInt8 then .error (l.complaint "Unterminated identifier at line ")
  else .ok (l.cursor.token .IDENTIFIER id, l'.advance)

/-- The branches of `tokenize` that push a token. -/
def readToken (l : SQLLexer) : Except Bytes (Token × SQLLexer) :=
  if l.current = '\''.toUInt8 then l.readString '\''.toUInt8
  else if l.current = '"'.toUInt8 then l.readQuotedIdentifier
  else if isdigit l.current then l.readNumber
  else if isalpha l.current ∨ l.current = '_'.toUInt8 then .ok l.readIdentifier
  else if l.current = '('.toUInt8 then .ok (l.cursor.token .LPAREN (ascii "("), l.advance)
  else if l.current = ')'.toUInt8 then .ok (l.cursor.token .RPAREN (ascii ")"), l.advance)
  else if l.current = ','.toUInt8 then .ok (l.cursor.token .COMMA (ascii ","), l.advance)
  else if l.current = '.'.toUInt8 then .ok (l.cursor.token .DOT (ascii "."), l.advance)
  else if l.current = ';'.toUInt8 then .ok (l.cursor.token .SEMICOLON (ascii ";"), l.advance)
  else if l.current = '*'.toUInt8 then .ok (l.cursor.token .STAR (ascii "*"), l.advance)
  else l.readOperator

end SQLLexer

/-! ### The loop of `tokenize` -/

structure Scan where
  lexer : SQLLexer
  tokens : List Token := []
  /-- Left by `break`. -/
  stopped : Bool := false

def turn (s : Scan) : Except Bytes (Option Scan) :=
  if s.stopped ∨ s.lexer.rest = [] then .ok none
  else
    let l := s.lexer.skipWhitespace
    if l.current = 0 then .ok (some { s with lexer := l, stopped := true })
    else if l.atLineComment ∨ l.atBlockComment then do
      let l ← l.skipComment
      .ok (some { s with lexer := l })
    else do
      let (token, l) ← l.readToken
      .ok (some { s with lexer := l, tokens := s.tokens ++ [token] })

/-- The tokens, and the lexer the call leaves. -/
def tokenize (l : SQLLexer) (fuel : ℕ) : Outcome Bytes (List Token × SQLLexer) :=
  (loop turn fuel { lexer := l }).bind fun s =>
    .done (s.tokens ++ [s.lexer.cursor.token .EOF_TOKEN []], s.lexer)

end Dbx4.SqlLexer
