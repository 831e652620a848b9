import UnixNote.Chat.Server
import UnixNote.Lib.Runs

/-!
# The handlers of `server_action.c` and the runs of the server

`analysisReceive` dispatches a frame to its handler. `Server.lts` is the server as a
transition system whose steps are an accepted connection, a handled frame and a
failed read; handlers run one at a time.
-/

namespace UnixNote.Server

/-! ## Registration and login -/

/-- The end of `register_action`: the id (or -1) to the client. -/
def registerReply (env : Env) (confd id : Int) (conn : Option Nat) (s : Server) : Server :=
  (s.writeServer env confd (.registerSuccess id)).1.mysqlEnd conn

/-- `register_action`. The insert of `write_to_sql` is not checked; with no row at all
`row[0]` dereferences `NULL`. -/
def registerAction (env : Env) (confd : Int) (user : User) (s : Server) : Server :=
  let s := s.query env (.insertUser user.username user.password)
  let (s, conn) := s.mysqlGo env .selectMaxUser
  match conn with
  | none => s.registerReply env confd (-1) none
  | some c =>
    let s := s.emit (.fetchRow (some c))
    match s.db.maxUser with
    -- `atoi(row[0])` with a null `row`
    | none => s.emit .crash
    | some row =>
      let (s, conn') := s.mysqlGo env (.createTable row.id)
      match conn' with
      -- the second `mysql_go` assigns the same `res` and `mysql_conn`
      | some c' => s.registerReply env confd row.id (some c')
      | none => s.registerReply env confd (-1) (some c)

/-- The common end of `login_action`: the flag to the client. -/
def loginReply (env : Env) (confd flag : Int) (conn : Option Nat) (s : Server) : Server :=
  (s.writeServer env confd (.loginFeedback flag)).1.mysqlEnd conn

/-- The loop of `login_action` over the friend table: the new user to every friend that
is online, and that friend to the new user. -/
def exchangeOnline (env : Env) (confd : Int) (temp : OnlineNode) (conn : Option Nat) :
    List Int → Server → Server
  | [], s => s.emit (.fetchRow conn)
  | id :: rows, s =>
    let s := s.emit (.fetchRow conn)
    match s.pOnline.searchList id .byId with
    | none => exchangeOnline env confd temp conn rows s
    | some p =>
      let (s, node) := s.deref env p
      let (s, ok) := s.writeServer env node.sockfd (.online temp)
      -- `error1`, then `continue`; `error2` below leaves the loop
      if ok = false then exchangeOnline env confd temp conn rows s
      else
        let (s, node) := s.deref env p
        let (s, ok) := s.writeServer env confd (.online node)
        if ok = false then s else exchangeOnline env confd temp conn rows s

/-- `login_action` once password and duplicate check are passed. -/
def openSession (env : Env) (confd : Int) (user : User) (conn : Option Nat) (s : Server) : Server :=
  match env.getpeername s.log confd with
  | none => ((s.emit (.getpeername confd false)).offlineAction env confd (-1)).mysqlEnd conn
  | some addr =>
    let temp : OnlineNode := ⟨user.id, confd, addr⟩
    let s := (s.emit (.getpeername confd true)).addList temp
    -- the return value is not looked at
    let (s, _) := s.writeServer env confd (.loginFeedback 0)
    let (s, conn') := s.mysqlGo env (.selectFriends temp.id)
    match conn' with
    | some c => (s.exchangeOnline env confd temp (some c) (s.db.friends temp.id)).mysqlEnd (some c)
    -- `res` and `mysql_conn` are still those of the first query
    | none => (s.offlineAction env confd user.id).mysqlEnd conn

/-- `login_action`. -/
def loginAction (env : Env) (confd : Int) (user : User) (s : Server) : Server :=
  let (s, conn) := s.mysqlGo env (.selectUser user.id)
  match conn with
  | none => s.loginReply env confd (-2) none
  | some c =>
    let s := s.emit (.fetchRow (some c))
    match s.db.selectUser user.id with
    | none => s.loginReply env confd (-1) (some c)
    | some row =>
      if row.password ≠ user.password then s.loginReply env confd (-1) (some c)
      else
        match s.pOnline.searchList user.id .byId with
        | some _ => s.loginReply env confd (-3) (some c)
        | none => s.openSession env confd user (some c)

/-! ## The other handlers -/

/-- `heartbeat_action`. -/
def heartbeatAction (_confd _id : Int) (s : Server) : Server := s

/-- `add_friend_action`. The connection is never closed, and `mysql_fetch_row` runs also
when the query failed. -/
def addFriendAction (env : Env) (confd src dst : Int) (s : Server) : Server :=
  let pdst := s.pOnline.searchList dst .byId
  let (s, conn) := s.mysqlGo env (.selectFriend src dst)
  let s := s.emit (.fetchRow conn)
  match conn with
  | none => (s.writeServer env confd (.allowAddf src dst 3)).1
  | some _ =>
    if dst ∈ s.db.friends src then (s.writeServer env confd (.allowAddf src dst 4)).1
    else
      match pdst with
      | none => (s.writeServer env confd (.allowAddf src dst 2)).1
      | some pdst =>
        let (s, node) := s.deref env pdst
        (s.writeServer env node.sockfd (.addFriend src dst)).1

/-- The answer of `allow_addf_action` to the requester, when it is online. -/
def answerRequest (env : Env) (psrc : Option Node) (src dst verdict : Int) (s : Server) : Server :=
  match psrc with
  | none => s
  | some p =>
    let (s, node) := s.deref env p
    (s.writeServer env node.sockfd (.allowAddf src dst verdict)).1

/-- The two `OP_ONLINE` of `allow_addf_action`: each side gets the node of the other. -/
def introduce (env : Env) (psrc pdst : Option Node) (s : Server) : Server :=
  match psrc, pdst with
  | some psrc, some pdst =>
    -- either pointer may be of a node that an earlier write has removed
    let (s, side) := s.deref env psrc
    let (s, node) := s.deref env pdst
    let s := (s.writeServer env side.sockfd (.online node)).1
    let (s, side) := s.deref env pdst
    let (s, node) := s.deref env psrc
    (s.writeServer env side.sockfd (.online node)).1
  | _, _ => s

/-- `allow_addf_action`. Both inserts run whatever the first returned, and `res` and
`mysql_conn` hold what the last successful one assigned. -/
def allowAddfAction (env : Env) (src dst verdict : Int) (s : Server) : Server :=
  let psrc := s.pOnline.searchList src .byId
  let pdst := s.pOnline.searchList dst .byId
  if verdict = 1 then
    let (s, ret) := s.mysqlGo env (.insertFriend src dst)
    let (s, ret2) := s.mysqlGo env (.insertFriend dst src)
    let s :=
      if ret.isSome && ret2.isSome then
        (s.answerRequest env psrc src dst verdict).introduce env psrc pdst
      -- `id[2] = 3`
      else s.answerRequest env psrc src dst 3
    s.mysqlEnd (ret2.or ret)
  else if verdict = 0 then s.answerRequest env psrc src dst verdict
  else s

/-- `analysis_receive` of `server_action.c`. -/
def analysisReceive (env : Env) (confd : Int) (f : Frame) (s : Server) : Server :=
  match f with
  | .register user => s.registerAction env confd user
  | .login user => s.loginAction env confd user
  | .heartbeat id => s.heartbeatAction confd id
  | .offline id => s.offlineAction env confd id
  | .addFriend src dst => s.addFriendAction env confd src dst
  | .allowAddf src dst verdict => s.allowAddfAction env src dst verdict
  | .other _ => s

/-! ## Runs -/

/-- What the server process does next. -/
inductive Act where
  | accept (fd : Int)
  | frame (fd : Int) (f : Frame)
  | hangup (fd : Int)
  deriving DecidableEq, Repr

/-- The branch of the main loop that accepts a connection and registers it. -/
def accept (fd : Int) (s : Server) : Server :=
  { s with opened := fd :: s.opened, epfd := fd :: s.epfd, log := s.log ++ [.accept fd] }

/-- One action: a connection accepted, a frame read and handled, a read that failed. -/
def act (env : Env) (s : Server) : Act → Server
  | .accept fd => s.accept fd
  | .frame fd f => s.analysisReceive env fd f
  | .hangup fd => s.readServerFail env fd

/-- The kernel gives a new connection a descriptor that is not open, and reports events
on registered descriptors only. Nothing follows a crash. -/
def Enabled (s : Server) (a : Act) : Prop :=
  .crash ∉ s.log ∧
    match a with
    | .accept fd => 0 ≤ fd ∧ fd ∉ s.opened
    | .frame fd _ => fd ∈ s.epfd
    | .hangup fd => fd ∈ s.epfd

instance (s : Server) (a : Act) : Decidable (s.Enabled a) := by
  unfold Enabled; cases a <;> infer_instance

/-- The server right after `main` set up its list, over the database `db`. -/
def boot (db : Database) : Server := ⟨.create, db, [], [], []⟩

/-- The server over every initial database. -/
def lts (env : Env) : Lts Server Act where
  init s := ∃ db, s = boot db
  step s a s' := s.Enabled a ∧ s' = s.act env a

/-! ## A small instance -/

/-- Nothing fails, and every client connects from one address. -/
def calm : Env where
  write _ _ _ := true
  getpeername _ _ := some ⟨0, 0⟩
  sql _ _ := true
  stale _ _ := ⟨0, 0, ⟨0, 0⟩⟩

/-- Two users with empty passwords, who are not friends. -/
def pairDb : Database where
  user := [⟨1, [], []⟩, ⟨2, [], []⟩]
  nextId := 3
  tables n := if n = 1 ∨ n = 2 then some .empty else none

example : (((boot pairDb).act calm (.accept 5)).act calm (.frame 5 (.login ⟨1, [], []⟩))).pOnline.nodes =
    [⟨⟨1, 5, ⟨0, 0⟩⟩, 0⟩] := by decide

end UnixNote.Server
