import Mathlib.Logic.Function.Basic
import UnixNote.Chat.Types
import UnixNote.Lib.Runs

/-!
# The registration service of `UNIX-8-5/test`

The thread `register_action` of `server.c` takes one message from the queue `0x1000`, removes the
queue, and hands the new id to the client in a shared integer, behind a semaphore. `main` reads
requests from `./fifo` and replies on the queue `0x2000`. A call succeeds if its object is there, and a
blocked one waits. A client that has returned from its function is back in `menu`, with its end
of the FIFO open.
-/

namespace UnixNote.Ipc

/-! ## The table `student` -/

/-- `Stu` and a row, without `score`, which no statement reads or writes. -/
structure Stu where
  id : Int
  name : CStr
  password : CStr
  deriving DecidableEq, Repr

/-- `id` is `auto_increment`. -/
structure Table where
  rows : List Stu
  nextId : Int
  below : ∀ r ∈ rows, r.id < nextId

/-- `write_to_sql` -/
def Table.insert (t : Table) (name password : CStr) : Table where
  rows := t.rows ++ [⟨t.nextId, name, password⟩]
  nextId := t.nextId + 1
  below := by
    intro r hr
    rcases List.mem_append.1 hr with hr | hr
    · have := t.below r hr
      omega
    · rw [List.mem_singleton.1 hr]
      exact Int.lt_succ _

/-- `select * from student where id=(select max(id) from student)` -/
def Table.maxRow (t : Table) : Option Stu :=
  t.rows.foldl (fun best r =>
    match best with
    | none => some r
    | some b => if b.id < r.id then some r else some b) none

/-- `select * from student where id=...` -/
def Table.row (t : Table) (id : Int) : Option Stu := t.rows.find? (fun r => r.id = id)

/-- What `main` makes of a request and the row it selects. -/
def Table.login (t : Table) (stu : Stu) : Stu :=
  match t.row stu.id with
  | none => { stu with id := -1 }
  | some row =>
    if row.password ≠ stu.password then { stu with id := -2 } else { stu with id := row.id, name := row.name }

/-! ## Registrations -/

variable {ι κ : Type*}

/-- A message or a record. `author` is not in the code: the client it is from, or the one whose request
it answers. -/
structure Msg (ι : Type*) where
  author : ι
  stu : Stu
  deriving DecidableEq, Repr

/-- Where a client stands in `register_fun`. -/
inductive RegisterFun where
  | start
  /-- `msgget` returned. -/
  | got (msgid : Nat)
  /-- Before `semop`. -/
  | sent
  /-- Before the `printf` of the shared integer. -/
  | left
  | printed (id : Int)
  deriving DecidableEq, Repr

/-- Where `register_action` stands: before which call. -/
inductive RegisterAction (ι : Type*) where
  | msgget
  | msgrcv (msgid : Nat)
  | msgctl (msgid : Nat) (mb : Msg ι)
  | insert (mb : Msg ι)
  | select (pid : Int)
  | kill (pid : Int) (row : Stu)
  | store (row : Stu)
  | semop
  deriving DecidableEq, Repr

/-- The objects of a registration. `queue` is the one with key `0x1000`, if there is one;
`nextMsqid` has not been used. `author` and `queued` are not in the code: whose row an id
belongs to, and who has a message in the queue or had. -/
structure Registry (ι : Type*) where
  table : Table
  queue : Option (Nat × List (Msg ι))
  nextMsqid : Nat
  sem : Nat
  shm : Int
  server : RegisterAction ι
  client : ι → RegisterFun
  author : List (Int × ι)
  queued : List ι

namespace Registry

/-- `msgget(0x1000, IPC_CREAT|0777)` -/
def msgget (r : Registry ι) : Nat × Registry ι :=
  match r.queue with
  | some (msgid, _) => (msgid, r)
  | none => (r.nextMsqid, { r with queue := some (r.nextMsqid, []), nextMsqid := r.nextMsqid + 1 })

/-- `msgsnd` to the queue `msgid`. On a queue that was removed it fails. -/
def msgsnd (r : Registry ι) (msgid : Nat) (mb : Msg ι) : Registry ι :=
  match r.queue with
  | some (q, mbs) =>
    if q = msgid then { r with queue := some (q, mbs ++ [mb]), queued := mb.author :: r.queued } else r
  | none => r

/-- A step of `register_action`. -/
def registerAction (r : Registry ι) : Option (Registry ι) :=
  match r.server with
  | .msgget => some { r.msgget.2 with server := .msgrcv r.msgget.1 }
  | .msgrcv msgid =>
    match r.queue with
    | some (q, mb :: mbs) =>
      if q = msgid then some { r with queue := some (q, mbs), server := .msgctl msgid mb } else none
    | _ => none
  | .msgctl _ mb => some { r with queue := none, server := .insert mb }
  | .insert mb => some { r with
      table := r.table.insert mb.stu.name mb.stu.password
      author := (r.table.nextId, mb.author) :: r.author
      server := .select mb.stu.id }
  | .select pid =>
    match r.table.maxRow with
    -- `atoi(row[0])` with a null `row`
    | none => none
    | some row => some { r with server := .kill pid row }
  | .kill _ row => some { r with server := .store row }
  | .store row => some { r with shm := row.id, server := .semop }
  | .semop => some { r with sem := r.sem + 1, server := .msgget }

variable [DecidableEq ι]

def goto (r : Registry ι) (i : ι) (pc : RegisterFun) : Registry ι := { r with client := Function.update r.client i pc }

/-- A step of `register_fun`, which looks at no result. `stu` is as it fills in `mb.stu`, with its
`getpid()` as the id. -/
def registerFun (stu : ι → Stu) (r : Registry ι) (i : ι) : Option (Registry ι) :=
  match r.client i with
  | .start => some (r.msgget.2.goto i (.got r.msgget.1))
  | .got msgid => some ((r.msgsnd msgid ⟨i, stu i⟩).goto i .sent)
  | .sent => if r.sem = 0 then none else some ({ r with sem := r.sem - 1 }.goto i .left)
  | .left => some (r.goto i (.printed r.shm))
  | .printed _ => none

end Registry

/-! ## Logins -/

/-- Where a client stands in `login_fun`. -/
inductive LoginFun (κ : Type*) where
  | start
  /-- Before `msgrcv`. -/
  | requested
  | received (mb : Msg κ)
  deriving DecidableEq, Repr

/-- Where the loop of `main` of the server stands: before which call. -/
inductive MainLoop (κ : Type*) where
  | read
  | select (mb : Msg κ)
  | msgsnd (mb : Msg κ)
  deriving DecidableEq, Repr

/-- The objects of a login: `./fifo` and the queue `0x2000`. -/
structure Counter (κ : Type*) where
  fifo : List (Msg κ)
  replies : List (Msg κ)
  server : MainLoop κ
  client : κ → LoginFun κ

namespace Counter

/-- A step of the loop of `main`. -/
def main (t : Table) (c : Counter κ) : Option (Counter κ) :=
  match c.server with
  | .read =>
    match c.fifo with
    | [] => none
    | mb :: mbs => some { c with fifo := mbs, server := .select mb }
  | .select mb => some { c with server := .msgsnd ⟨mb.author, t.login mb.stu⟩ }
  | .msgsnd mb => some { c with replies := c.replies ++ [mb], server := .read }

/-- A step of `login_fun`, with `stu` as it was typed in. -/
def loginFun [DecidableEq κ] (stu : κ → Stu) (c : Counter κ) (k : κ) : Option (Counter κ) :=
  match c.client k with
  | .start => some { c with fifo := c.fifo ++ [⟨k, stu k⟩], client := Function.update c.client k .requested }
  | .requested =>
    match c.replies with
    | [] => none
    | mb :: mbs => some { c with replies := mbs, client := Function.update c.client k (.received mb) }
  | .received _ => none

end Counter

/-! ## The service -/

structure State (ι κ : Type*) where
  registry : Registry ι
  counter : Counter κ

/-- Whose step it is. -/
inductive Act (ι κ : Type*) where
  | registerFun (i : ι)
  | registerAction
  | loginFun (k : κ)
  | main
  deriving DecidableEq, Repr

/-- One step, if it can be taken. `stu` and `req` are what the clients type in. -/
def State.step [DecidableEq ι] [DecidableEq κ] (stu : ι → Stu) (req : κ → Stu) (s : State ι κ) :
    Act ι κ → Option (State ι κ)
  | .registerFun i => (s.registry.registerFun stu i).map fun r => { s with registry := r }
  | .registerAction => s.registry.registerAction.map fun r => { s with registry := r }
  | .loginFun k => (s.counter.loginFun req k).map fun c => { s with counter := c }
  | .main => (s.counter.main s.registry.table).map fun c => { s with counter := c }

/-- The server is running, and no client has called its function. -/
structure Fresh (s : State ι κ) : Prop where
  queue : ∀ q mbs, s.registry.queue = some (q, mbs) → mbs = []
  sem : s.registry.sem = 0
  registerAction : s.registry.server = .msgget
  registering : ∀ i, s.registry.client i = .start
  author : s.registry.author = []
  queued : s.registry.queued = []
  fifo : s.counter.fifo = []
  replies : s.counter.replies = []
  main : s.counter.server = .read
  loggingIn : ∀ k, s.counter.client k = .start

end UnixNote.Ipc
