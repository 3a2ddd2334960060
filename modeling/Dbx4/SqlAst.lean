import Mathlib.Tactic.Common

/-!
Tokens, expressions and statements of `sql_lexer.h` and `sql_parser.h`.
-/

namespace Dbx4.SqlAst

inductive TokenType
  | SELECT | FROM | WHERE | INSERT | INTO | VALUES | UPDATE | SET | DELETE | CREATE | TABLE
  | DROP | ALTER | ADD | MODIFY | PRIMARY | KEY | NOT_KEYWORD | NULL_KEYWORD | UNIQUE | FOREIGN
  | REFERENCES | DEFAULT | CHECK | CONSTRAINT | AND | OR | NOT_OP | IN | BETWEEN | LIKE | IS
  | ORDER | BY | GROUP | HAVING | LIMIT | OFFSET | DISTINCT | INNER | LEFT | RIGHT | FULL
  | OUTER | JOIN | ON | USING | UNION | INTERSECT | EXCEPT | CASE | WHEN | THEN | ELSE | END
  | AS | ASC | DESC | INT | BIGINT | FLOAT | DOUBLE | DECIMAL | VARCHAR | CHAR | BOOLEAN | DATE
  | TIMESTAMP | TEXT | BLOB | EQUALS | NOT_EQUALS | LESS | LESS_EQUAL | GREATER
  | GREATER_EQUAL | PLUS | MINUS | MULTIPLY | DIVIDE | MODULO | CONCAT | LPAREN | RPAREN
  | COMMA | DOT | SEMICOLON | STAR | NUMBER | STRING | IDENTIFIER | EOF_TOKEN | UNKNOWN
  deriving DecidableEq

/-- What a pointer to an expression points to; `other` is a null pointer, or a node that is
none of the four kinds. -/
inductive Expression
  | literal (value : String) (type : TokenType)
  | identifier (name : String)
  | binaryOp (left right : Expression) (op : TokenType)
  | unaryOp (operand : Expression) (op : TokenType)
  | other

structure ColumnDef where
  name : String
  type : TokenType
  notNull : Bool := false
  primaryKey : Bool := false
  unique : Bool := false
  defaultValue : String := ""

structure CreateTableStmt where
  tableName : String
  columns : List ColumnDef

structure SelectStatement where
  columns : List Expression
  tableName : String
  whereClause : Option Expression := none
  /-- Column, and whether the order is descending. -/
  orderBy : List (String × Bool) := []
  limit : Int32 := -1
  offset : Int32 := 0

structure InsertStmt where
  tableName : String
  columns : List String := []
  values : List (List Expression)

structure UpdateStmt where
  tableName : String
  assignments : List (String × Expression)
  whereClause : Option Expression := none

structure DeleteStmt where
  tableName : String
  whereClause : Option Expression := none

/-- What a pointer to a statement points to; `other` is a null pointer, or a node that is no
statement. -/
inductive Statement
  | createTable (stmt : CreateTableStmt)
  | insert (stmt : InsertStmt)
  | select (stmt : SelectStatement)
  | update (stmt : UpdateStmt)
  | delete (stmt : DeleteStmt)
  | other

end Dbx4.SqlAst
