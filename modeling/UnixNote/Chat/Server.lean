import UnixNote.Chat.Mmsql

/-!
# The server's state and the teardown of a connection

The global state of `server.c` (`POnline`, `epfd`, the open descriptors, the
database) together with the sequence of system and library calls made so far, and
the pair of mutually recursive functions of `socket.c` and `server_action.c`:
`Write_server` calls `offline_action` when a write fails, `offline_action` calls
`Write_server` for every friend. `offlineFuel` bounds the depth of that recursion,
`offlineAction` is the call with a bound that always suffices
(`UnixNote.Proof.Cascade`).

Whether a call succeeds is up to the environment, which sees everything that
happened before.
-/

namespace UnixNote

/-- A call the server makes, with its result. `conn` arguments are what the local
variables `res` and `mysql_conn` hold: `none` while no `mysql_go` has assigned them,
else the connection, named by the position of its query in the log. -/
inductive Event where
  | accept (fd : Int)
  | epollDel (fd : Int)
  | close (fd : Int)
  | write (fd : Int) (m : Msg) (ok : Bool)
  | getpeername (fd : Int) (ok : Bool)
  | query (q : Stmt) (r : Outcome)
  | fetchRow (conn : Option Nat)
  | freeResult (conn : Option Nat)
  | mysqlClose (conn : Option Nat)
  | deref (ref : Nat) (live : Bool)
  | crash
  deriving DecidableEq, Repr

/-- Everything but a write. -/
def Event.quiet : Event → Bool
  | .write .. => false
  | _ => true

/-- The environment: which calls succeed after a given history, and what the memory of
a freed node reads as. -/
structure Env where
  write : List Event → Int → Msg → Bool
  getpeername : List Event → Int → Option SockAddr
  sql : List Event → Stmt → Bool
  stale : List Event → Nat → OnlineNode

/-- The state of the server process. `opened` are the connections it holds open,
`epfd` those registered in the epoll instance. -/
structure Server where
  pOnline : OnlineList
  db : Database
  opened : List Int
  epfd : List Int
  log : List Event

namespace Server

/-! ## Single calls -/

def emit (s : Server) (e : Event) : Server := { s with log := s.log ++ [e] }

/-- `epoll_ctl(epfd, EPOLL_CTL_DEL, fd, ..)`. -/
def epollDel (s : Server) (fd : Int) : Server :=
  { s with epfd := s.epfd.filter (· ≠ fd), log := s.log ++ [.epollDel fd] }

/-- `close(fd)`. The kernel drops a closed descriptor from every epoll instance. -/
def close (s : Server) (fd : Int) : Server :=
  { s with
    opened := s.opened.filter (· ≠ fd)
    epfd := s.epfd.filter (· ≠ fd)
    log := s.log ++ [.close fd] }

/-- `add_list(POnline, temp)`. -/
def addList (s : Server) (temp : OnlineNode) : Server := { s with pOnline := s.pOnline.addList temp }

/-- `del_list(POnline, id, BY_ID)`. -/
def delList (s : Server) (id : Int) : Server := { s with pOnline := s.pOnline.delList id .byId }

/-- `Write(fd, ..)`: one frame, sent or failed. -/
def write (env : Env) (fd : Int) (m : Msg) (s : Server) : Server × Bool :=
  let ok := env.write s.log fd m
  (s.emit (.write fd m ok), ok)

/-- Reading the node behind a pointer: its fields while it is in the list, whatever the
memory holds once it was freed. -/
def deref (env : Env) (p : Node) (s : Server) : Server × OnlineNode :=
  if s.pOnline.live p then (s.emit (.deref p.ref true), p.toOnlineNode)
  else (s.emit (.deref p.ref false), env.stale s.log p.ref)

/-- What the statement `q` comes to: refused, or executed. -/
def answer (env : Env) (q : Stmt) (s : Server) : Outcome × Database :=
  if env.sql s.log q then s.db.exec q else (.error, s.db)

/-- The statement `q`, sent to the database. -/
def query (env : Env) (q : Stmt) (s : Server) : Server :=
  { s with db := (s.answer env q).2, log := s.log ++ [.query q (s.answer env q).1] }

/-- `mysql_go`: the new connection when it returns 0, `none` when it returns -1. A
connection that cannot be set up ends the process (`exit(0)`); such runs stop there. -/
def mysqlGo (env : Env) (q : Stmt) (s : Server) : Server × Option Nat :=
  (s.query env q, if (s.answer env q).1 = .ok then some s.log.length else none)

/-- `mysql_free_result(res)` and `mysql_close(mysql_conn)`. -/
def mysqlEnd (conn : Option Nat) (s : Server) : Server :=
  (s.emit (.freeResult conn)).emit (.mysqlClose conn)

/-- The id under which `Write_server`, `Write_file_server` and `Read_server` tear the
connection `fd` down: that of the first node with this descriptor, else -1. -/
def sessionId (s : Server) (fd : Int) : Int :=
  match s.pOnline.searchList fd .bySockfd with
  | none => -1
  | some p => p.id

/-! ## What single calls leave alone -/

section Fields

variable (s : Server) (env : Env) (e : Event) (fd id : Int) (q : Stmt) (c : Option Nat) (p : Node)

@[simp] theorem emit_pOnline : (s.emit e).pOnline = s.pOnline := rfl
@[simp] theorem emit_db : (s.emit e).db = s.db := rfl
@[simp] theorem emit_opened : (s.emit e).opened = s.opened := rfl
@[simp] theorem emit_epfd : (s.emit e).epfd = s.epfd := rfl
@[simp] theorem emit_log : (s.emit e).log = s.log ++ [e] := rfl

@[simp] theorem epollDel_pOnline : (s.epollDel fd).pOnline = s.pOnline := rfl
@[simp] theorem epollDel_db : (s.epollDel fd).db = s.db := rfl
@[simp] theorem epollDel_opened : (s.epollDel fd).opened = s.opened := rfl
@[simp] theorem epollDel_epfd : (s.epollDel fd).epfd = s.epfd.filter (· ≠ fd) := rfl
@[simp] theorem epollDel_log : (s.epollDel fd).log = s.log ++ [.epollDel fd] := rfl

@[simp] theorem close_pOnline : (s.close fd).pOnline = s.pOnline := rfl
@[simp] theorem close_db : (s.close fd).db = s.db := rfl
@[simp] theorem close_opened : (s.close fd).opened = s.opened.filter (· ≠ fd) := rfl
@[simp] theorem close_epfd : (s.close fd).epfd = s.epfd.filter (· ≠ fd) := rfl
@[simp] theorem close_log : (s.close fd).log = s.log ++ [.close fd] := rfl

@[simp] theorem delList_pOnline : (s.delList id).pOnline = s.pOnline.delList id .byId := rfl
@[simp] theorem delList_db : (s.delList id).db = s.db := rfl
@[simp] theorem delList_opened : (s.delList id).opened = s.opened := rfl
@[simp] theorem delList_epfd : (s.delList id).epfd = s.epfd := rfl
@[simp] theorem delList_log : (s.delList id).log = s.log := rfl

@[simp] theorem addList_pOnline (t : OnlineNode) : (s.addList t).pOnline = s.pOnline.addList t := rfl
@[simp] theorem addList_db (t : OnlineNode) : (s.addList t).db = s.db := rfl
@[simp] theorem addList_opened (t : OnlineNode) : (s.addList t).opened = s.opened := rfl
@[simp] theorem addList_epfd (t : OnlineNode) : (s.addList t).epfd = s.epfd := rfl
@[simp] theorem addList_log (t : OnlineNode) : (s.addList t).log = s.log := rfl

@[simp] theorem query_pOnline : (s.query env q).pOnline = s.pOnline := rfl
@[simp] theorem query_opened : (s.query env q).opened = s.opened := rfl
@[simp] theorem query_epfd : (s.query env q).epfd = s.epfd := rfl
@[simp] theorem query_log : (s.query env q).log = s.log ++ [.query q (s.answer env q).1] := rfl

@[simp] theorem mysqlEnd_pOnline : (s.mysqlEnd c).pOnline = s.pOnline := rfl
@[simp] theorem mysqlEnd_db : (s.mysqlEnd c).db = s.db := rfl
@[simp] theorem mysqlEnd_opened : (s.mysqlEnd c).opened = s.opened := rfl
@[simp] theorem mysqlEnd_epfd : (s.mysqlEnd c).epfd = s.epfd := rfl
@[simp] theorem mysqlEnd_log : (s.mysqlEnd c).log = s.log ++ [.freeResult c, .mysqlClose c] := by
  simp [mysqlEnd]

/-- A pointer to a node of the list reads that node. -/
theorem deref_live {s : Server} {p : Node} (hp : p ∈ s.pOnline.nodes) :
    s.deref env p = (s.emit (.deref p.ref true), p.toOnlineNode) := by
  unfold deref; rw [if_pos (OnlineList.live_of_mem hp)]

/-- Reading through a pointer is one event and changes nothing. -/
theorem deref_fst : ∃ b, (s.deref env p).1 = s.emit (.deref p.ref b) := by
  unfold deref
  split
  · exact ⟨true, rfl⟩
  · exact ⟨false, rfl⟩

end Fields

/-! ## `Write_server` and `offline_action` -/

/-- `Write_server`, with the `offline_action` it calls. -/
def writeServerWith (env : Env) (off : Int → Int → Server → Option Server) (fd : Int) (m : Msg) (s : Server) :
    Option Server :=
  let (s, ok) := s.write env fd m
  -- a failed write takes the session of this descriptor down, whoever is writing
  if ok then some s else off fd (s.sessionId fd) s

/-- The loop of `offline_action` over the rows of the friend table: `OP_OFFLINE` with
`id` to every friend that is online. -/
def notifyFriends (env : Env) (off : Int → Int → Server → Option Server) (id : Int) (conn : Option Nat) :
    List Int → Server → Option Server
  | [], s => some (s.emit (.fetchRow conn))
  | friendId :: rows, s =>
    let s := s.emit (.fetchRow conn)
    match s.pOnline.searchList friendId .byId with
    | none => notifyFriends env off id conn rows s
    | some p =>
      let (s, node) := s.deref env p
      match writeServerWith env off node.sockfd (.offline id) s with
      | none => none
      | some s => notifyFriends env off id conn rows s

/-- `offline_action(confd, id)`, with calls nested at most `fuel` deep. -/
def offlineFuel (env : Env) : Nat → Int → Int → Server → Option Server
  | 0, _, _, _ => none
  | fuel + 1, confd, id, s =>
    let s := s.epollDel confd
    -- nobody has logged in on this connection
    if id < 0 then some (s.close confd)
    else
      let s := s.delList id
      let (s, conn) := s.mysqlGo env (.selectFriends id)
      let told :=
        match conn with
        | some _ => notifyFriends env (offlineFuel env fuel) id conn (s.db.friends id) s
        -- the loop is skipped, the farewell is not
        | none => some s
      match told with
      | none => none
      | some s =>
        match writeServerWith env (offlineFuel env fuel) confd .allowDisconnect s with
        | none => none
        | some s => some ((s.mysqlEnd conn).close confd)

/-- `offline_action(confd, id)`. -/
def offlineAction (env : Env) (confd id : Int) (s : Server) : Server :=
  (offlineFuel env (s.pOnline.nodes.length + 2) confd id s).getD s

/-- `Write_server(fd, ..)`, with its return value. -/
def writeServer (env : Env) (fd : Int) (m : Msg) (s : Server) : Server × Bool :=
  let (s, ok) := s.write env fd m
  if ok then (s, true) else (s.offlineAction env fd (s.sessionId fd), false)

/-- `Read_server(fd, ..)` when `Read` fails. -/
def readServerFail (env : Env) (fd : Int) (s : Server) : Server := s.offlineAction env fd (s.sessionId fd)

end Server

end UnixNote
