import UnixNote.Chat.Sql

/-!
# The database behind `mmsql.c`

The statements the handlers send, what each one selects, and what each one does
to the tables `user` and `id<N>`. A statement fails on a missing table, on a
table that already exists, on a row that violates the primary key, and whenever
the server refuses it; a failed statement changes nothing. The column `id` of `user` is an `int`, as
it is in `USER`: an insert that runs out of numbers fails.
-/

namespace UnixNote

/-- A friend table `id<N>`: `id int(6) not null primary key`. -/
structure FriendTable where
  rows : List Int
  primary : rows.Nodup

/-- The table right after `create table`. -/
def FriendTable.empty : FriendTable := ⟨[], List.nodup_nil⟩

/-- `insert into id<N> values(x)`, or nothing when `x` is there already. -/
def FriendTable.insert (t : FriendTable) (x : Int) : Option FriendTable :=
  if h : x ∈ t.rows then none
  else some ⟨t.rows ++ [x], List.nodup_append.2 ⟨t.primary, by simp, by
    rintro a ha b hb rfl
    exact h (by simpa using List.mem_singleton.1 hb ▸ ha)⟩⟩

/-- The database `user`: the rows of the table `user`, the next value of its
`auto_increment` id, and the tables `id<N>`. -/
structure Database where
  user : List User
  nextId : Int
  tables : Nat → Option FriendTable
  /-- The rows that the statement of `write_to_sql` inserts when it does not denote the two fields (a
  quote, a backslash, a text longer than `sql_cmd`), empty when it is refused. -/
  unplain : CStr → CStr → List (List UInt8 × List UInt8) := fun _ _ => []

/-- The statements of `server_action.c` and `mmsql.c`. -/
inductive Stmt where
  | insertUser (username password : CStr)
  | selectUser (id : Int)
  | selectMaxUser
  | createTable (id : Int)
  | selectFriends (id : Int)
  | selectFriend (src dst : Int)
  | insertFriend (src dst : Int)
  deriving DecidableEq, Repr

/-- How a statement ends. -/
inductive Outcome where
  | ok
  | duplicate
  | error
  deriving DecidableEq, Repr

namespace Database

/-- The table `id<N>` for `N = id`. With a negative number `id-5` is no table name. -/
def table (db : Database) (id : Int) : Option FriendTable :=
  if 0 ≤ id then db.tables id.toNat else none

/-- The friends in table `id<N>`, none when there is no such table. -/
def friends (db : Database) (id : Int) : List Int := ((db.table id).map FriendTable.rows).getD []

/-- `select * from user where id=...`. -/
def selectUser (db : Database) (id : Int) : Option User := db.user.find? (fun u => u.id = id)

/-- `select * from user where id=(select max(id) from user)`. -/
def maxUser (db : Database) : Option User :=
  db.user.foldl (fun best u =>
    match best with
    | none => some u
    | some b => if b.id < u.id then some u else some b) none

/-- Put `t` in place of the table of `id`. -/
def setTable (db : Database) (id : Int) (t : FriendTable) : Database :=
  { db with tables := fun n => if n = id.toNat then some t else db.tables n }

/-- The rows in the statement of `write_to_sql`, as the strings of `mysql_fetch_row`. -/
def rows (db : Database) (username password : CStr) : List (CStr × CStr) :=
  if Sql.Verbatim username password then [(username, password)]
  else (db.unplain username password).map fun row => (cstr row.1, cstr row.2)

/-- One more row. -/
def addRow (db : Database) (row : CStr × CStr) : Database :=
  { db with user := db.user ++ [⟨db.nextId, row.1, row.2⟩], nextId := db.nextId + 1 }

/-- What a statement that reaches the database does. -/
def exec (db : Database) : Stmt → Outcome × Database
  | .insertUser username password =>
    let rows := db.rows username password
    if rows ≠ [] ∧ db.nextId + rows.length ≤ 2147483648 then (.ok, rows.foldl addRow db) else (.error, db)
  | .selectUser _ => (.ok, db)
  | .selectMaxUser => (.ok, db)
  | .createTable id =>
    if 0 ≤ id ∧ db.table id = none then (.ok, db.setTable id .empty) else (.error, db)
  | .selectFriends id => if (db.table id).isSome then (.ok, db) else (.error, db)
  | .selectFriend src _ => if (db.table src).isSome then (.ok, db) else (.error, db)
  | .insertFriend src dst =>
    match db.table src with
    | none => (.error, db)
    | some t =>
      match t.insert dst with
      | none => (.duplicate, db)
      | some t' => (.ok, db.setTable src t')

end Database

end UnixNote
