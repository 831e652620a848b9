import UnixNote.Chat.Action
import UnixNote.Lib.Threads

/-!
# `login_action` in several threads

`login_action`, and the `offline_action` it calls when it cannot read the friend table,
cut at their list operations and calls: `add_list`, `search_list` and `del_list` hold the
mutex of the list, and anything may happen between two of them. The threads share the
server's state; what fails is up to `Env`, which sees all calls of all threads.
-/

namespace UnixNote.Login

open Server

/-- Where a call of `login_action` stands. `c` is the connection of its first query. -/
inductive Pc where
  | start
  /-- Before the last `Write_server`, with `flag`. -/
  | refuse (flag : Int) (conn : Option Nat)
  /-- The password is right, before `search_list`. -/
  | checked (c : Nat)
  /-- `search_list` found nobody, before `getpeername`. -/
  | free (c : Nat)
  /-- Before `add_list`. -/
  | peer (temp : OnlineNode) (c : Nat)
  /-- Before `Write_server` with flag 0. -/
  | added (temp : OnlineNode) (c : Nat)
  /-- Before the query of the friend table. -/
  | welcomed (temp : OnlineNode) (c : Nat)
  /-- In the loop over the friends, with the rows to come. -/
  | exchange (temp : OnlineNode) (c : Nat) (rows : List Int)
  /-- Before `OP_ONLINE` to the friend. -/
  | tell (temp : OnlineNode) (c : Nat) (p : Node) (rows : List Int)
  /-- Before `OP_ONLINE` with the friend. -/
  | reply (temp : OnlineNode) (c : Nat) (p : Node) (rows : List Int)
  /-- At the call of `offline_action(confd, user->id)`. -/
  | down (c : Nat)
  /-- Behind its `del_list`. -/
  | deleted (c : Nat)
  /-- In its loop over the friends. -/
  | bye (c conn : Nat) (rows : List Int)
  /-- Before `OP_OFFLINE` to a friend. -/
  | byeTo (c conn : Nat) (p : Node) (rows : List Int)
  /-- Before its `OP_ALLOW_DISCONNECT`. -/
  | farewell (c : Nat) (conn : Option Nat)
  | done
  deriving DecidableEq, Repr

/-- The next step of `login_action(confd, user)`. -/
def loginStep (env : Env) (confd : Int) (user : User) (pc : Pc) (s : Server) : Option (Pc × Server) :=
  match pc with
  | .start =>
    let (s, conn) := s.mysqlGo env (.selectUser user.id)
    match conn with
    | none => some (.refuse (-2) none, s)
    | some c =>
      let s := s.emit (.fetchRow (some c))
      match s.db.selectUser user.id with
      | none => some (.refuse (-1) (some c), s)
      | some row =>
        if row.password ≠ user.password then some (.refuse (-1) (some c), s) else some (.checked c, s)
  | .refuse flag conn => some (.done, s.loginReply env confd flag conn)
  | .checked c =>
    match s.pOnline.searchList user.id .byId with
    | some _ => some (.refuse (-3) (some c), s)
    | none => some (.free c, s)
  | .free c =>
    match env.getpeername s.log confd with
    | none => some (.done, ((s.emit (.getpeername confd false)).offlineAction env confd (-1)).mysqlEnd (some c))
    | some addr => some (.peer ⟨user.id, confd, addr⟩ c, s.emit (.getpeername confd true))
  | .peer temp c => some (.added temp c, s.addList temp)
  | .added temp c => some (.welcomed temp c, (s.writeServer env confd (.loginFeedback 0)).1)
  | .welcomed temp c =>
    let (s, conn') := s.mysqlGo env (.selectFriends temp.id)
    match conn' with
    | some c' => some (.exchange temp c' (s.db.friends temp.id), s)
    | none => some (.down c, s)
  | .exchange _ c [] => some (.done, (s.emit (.fetchRow (some c))).mysqlEnd (some c))
  | .exchange temp c (id :: rows) =>
    let s := s.emit (.fetchRow (some c))
    match s.pOnline.searchList id .byId with
    | none => some (.exchange temp c rows, s)
    | some p => some (.tell temp c p rows, s)
  | .tell temp c p rows =>
    let (s, node) := s.deref env p
    let (s, ok) := s.writeServer env node.sockfd (.online temp)
    -- `continue`
    if ok = false then some (.exchange temp c rows, s) else some (.reply temp c p rows, s)
  | .reply temp c p rows =>
    let (s, node) := s.deref env p
    let (s, ok) := s.writeServer env confd (.online node)
    if ok = false then some (.done, s.mysqlEnd (some c)) else some (.exchange temp c rows, s)
  -- from here on the steps of `offline_action(confd, user->id)`
  | .down c =>
    let s := s.epollDel confd
    if user.id < 0 then some (.done, (s.close confd).mysqlEnd (some c)) else some (.deleted c, s.delList user.id)
  | .deleted c =>
    let (s, conn) := s.mysqlGo env (.selectFriends user.id)
    match conn with
    | some c' => some (.bye c c' (s.db.friends user.id), s)
    | none => some (.farewell c none, s)
  | .bye c conn [] => some (.farewell c (some conn), s.emit (.fetchRow (some conn)))
  | .bye c conn (id :: rows) =>
    let s := s.emit (.fetchRow (some conn))
    match s.pOnline.searchList id .byId with
    | none => some (.bye c conn rows, s)
    | some p => some (.byeTo c conn p rows, s)
  | .byeTo c conn p rows =>
    let (s, node) := s.deref env p
    some (.bye c conn rows, (s.writeServer env node.sockfd (.offline user.id)).1)
  | .farewell c conn =>
    let s := (s.writeServer env confd .allowDisconnect).1
    some (.done, ((s.mysqlEnd conn).close confd).mysqlEnd (some c))
  | .done => none

/-- Any number of logins, each on its connection. -/
def program {ι : Type*} (env : Env) (confd : ι → Int) (user : ι → User) : Program ι Unit Pc Server where
  start _ := .start
  step i _ := loginStep env (confd i) (user i)

end UnixNote.Login
