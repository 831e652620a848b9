import UnixNote.Chat.Types
import UnixNote.Lib.Quoted

/-!
# The text of `write_to_sql`

The format continues on a second line of the source, whose tabs are part of the string. `sprintf` has
no bound, so a text that `sql_cmd` has no room for runs over it. `Insert` is the statement as MySQL
reads it.
-/

namespace UnixNote.Sql

open Quoted

/-- The bytes of an ASCII string of the source. -/
def ascii (s : String) : CStr := s.toList.map fun c => UInt8.ofNat c.toNat

/-- `sizeof(sql_cmd)` -/
def SQL_CMD : Nat := 1024

/-- What `sprintf` writes in `write_to_sql`, without the NUL. -/
def insertText (username password : CStr) : List UInt8 :=
  ascii "insert into user(username, password) values\t\t\t('" ++ username ++ ascii "','" ++ password ++ ascii "')"

/-- `sql_cmd` of `write_to_sql`, none when `sprintf` writes behind it. -/
def writeToSql (user : User) : Option (List UInt8) :=
  if (insertText user.username user.password).length < SQL_CMD then some (insertText user.username user.password)
  else none

/-- Both fields denote themselves in the statement, and `sql_cmd` has room for it. -/
def Verbatim (username password : CStr) : Prop :=
  Plain username ∧ Plain password ∧ username.length + password.length < 971

instance (username password : CStr) : Decidable (Verbatim username password) := inferInstanceAs (Decidable (_ ∧ _))

/-- `INSERT INTO table (columns) VALUES row, …`. -/
structure Insert where
  table : CStr
  columns : List CStr
  rows : List (List CStr)
  deriving DecidableEq, Repr

def OPEN : Token := .punct 40

def CLOSE : Token := .punct 41

def COMMA : Token := .punct 44

/-- A row: its values as literals. -/
def rowTokens (row : List CStr) : List Token := OPEN :: (row.map Token.str).intersperse COMMA ++ [CLOSE]

/-- The grammar of the statement. -/
def Insert.tokens (s : Insert) : List Token :=
  [.word (ascii "insert"), .word (ascii "into"), .word s.table, OPEN] ++ (s.columns.map Token.word).intersperse COMMA ++
    [CLOSE, .word (ascii "values")] ++ ((s.rows.map rowTokens).intersperse [COMMA]).flatten

/-- `text` is one statement, and it is `s`. -/
def Reads (text : List UInt8) (s : Insert) : Prop := lex text = some s.tokens

instance (text : List UInt8) (s : Insert) : Decidable (Reads text s) := inferInstanceAs (Decidable (_ = _))

/-- One row into `user(username, password)`. -/
def insertUser (username password : CStr) : Insert :=
  ⟨ascii "user", [ascii "username", ascii "password"], [[username, password]]⟩

end UnixNote.Sql
