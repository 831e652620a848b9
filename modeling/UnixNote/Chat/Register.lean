import UnixNote.Chat.Mmsql
import UnixNote.Lib.Threads

/-!
# `register_action` in several threads

Each SQL statement is one step, refused or executed; between two statements of one
registration any number of steps of others may happen. `author` is not in the code: it
notes which registration inserted a row, the last row first.
-/

namespace UnixNote.Register

/-- Where a call of `register_action` stands. -/
inductive Pc where
  | start
  /-- `write_to_sql` returned. -/
  | inserted
  /-- The row with the maximal id was fetched. -/
  | selected (id : Int)
  /-- Before `Write_server` of `OP_REGISTER_SUCCESS`. -/
  | answering (id : Int)
  /-- The client was sent `id`. -/
  | told (id : Int)
  deriving DecidableEq, Repr

/-- The database, and whether a registration has brought the process down. -/
structure Shared (ι : Type*) where
  db : Database
  author : List (Int × ι)
  down : Bool

/-- The statement `q`, refused or executed. -/
def send (ok : Bool) (q : Stmt) (db : Database) : Outcome × Database := if ok then db.exec q else (.error, db)

/-- Who inserted the rows that `db'` has more than `db`: the last row comes first. -/
def inserted {ι : Type*} (db db' : Database) (i : ι) : List (Int × ι) :=
  ((db'.user.drop db.user.length).map fun row => (row.id, i)).reverse

/-- `register_action` for the request `user i`. -/
def registerStep {ι : Type*} (user : ι → User) (i : ι) (ok : Bool) (pc : Pc) (s : Shared ι) : Option (Pc × Shared ι) :=
  if s.down then none
  else
    match pc with
    | .start =>
      let db := (send ok (.insertUser (user i).username (user i).password) s.db).2
      some (.inserted, { s with db, author := inserted s.db db i ++ s.author })
    | .inserted =>
      let (r, db) := send ok .selectMaxUser s.db
      if r = .ok then
        match db.maxUser with
        -- `atoi(row[0])` with a null `row`
        | none => some (.inserted, { s with db, down := true })
        | some row => some (.selected row.id, { s with db })
      else some (.answering (-1), { s with db })
    | .selected id =>
      let (r, db) := send ok (.createTable id) s.db
      if r = .ok then some (.answering id, { s with db }) else some (.answering (-1), { s with db })
    | .answering id => some (.told id, s)
    | .told _ => none

/-- Any number of registrations. -/
def program {ι : Type*} (user : ι → User) : Program ι Bool Pc (Shared ι) where
  start _ := .start
  step := registerStep user

end UnixNote.Register
