import Mathlib.Logic.Function.Basic
import UnixNote.Lib.Delimited
import UnixNote.TcpUdp.Server

/-!
# `TCP_UDP`: the server, its clients and the connections between them

The server handles a join or a leave only after the writes of the one before. It never closes a
descriptor, so that `accept` returns one that is new. A client reads one record in `main`, its own;
`server_con` then calls `receive_from_server` over and over. A record read there that is the first
one of its call throws the list away.
-/

namespace UnixNote.TcpUdp

open Delimited (Reader)

/-- The end of a list, as a record shows it: `cnode.next == NULL`. -/
def Ends (c : Cell CNode) : Prop := c.next = none

instance : DecidablePred Ends := fun c => inferInstanceAs (Decidable (c.next = none))

/-! ## Clients -/

/-- A client in a call of `receive_from_server`. `log` are the records read, those of each call. -/
structure Con where
  mycnode : Cell CNode
  phead : Nat
  heap : Heap CNode
  flag : Bool
  log : Reader (Cell CNode)

/-- The global `myid`. -/
def Con.myid (con : Con) : Int := con.mycnode.val.cliattr.id

/-- `main` up to the thread `server_con`, and `Create_list` there: `malloc` returns `phead` and
leaves `x` in it. -/
def Con.main (cnode : Cell CNode) (phead : Nat) (x : CNode) : Con :=
  ⟨cnode, phead, Heap.create phead x, true, ⟨[], []⟩⟩

/-- The list that a record is added to: the first record of a call has the old one thrown away. -/
def Con.cleared (con : Con) : Option (Heap CNode) :=
  if con.flag then con.heap.clear con.phead else some con.heap

/-- A record arrives in `receive_from_server`: `malloc` returns `pnode`, which is not in use. The
call ends with `next == NULL`, and `server_con` makes the next one. -/
def Con.receiveFromServer (con : Con) (pnode : Nat) (cnode : Cell CNode) : Option Con := do
  let H ← con.cleared
  if pnode ∈ H.cells then none else do
    let H ← H.push con.phead pnode cnode
    some { con with heap := H, flag := decide (Ends cnode), log := con.log.next Ends cnode }

/-- The process at the other end of a connection. -/
inductive Client where
  | main
  | serverCon (con : Con)

/-! ## The network -/

/-- The server's list and its epoll set, the writes it has still to make, and for each connection
the records on their way, the client and the snapshots that `write_cli` has made for it. -/
structure Net where
  heap : Heap CNode
  phead : Nat
  epoll : List Int
  out : List (Int × Cell CNode)
  chan : Int → List (Cell CNode)
  client : Int → Option Client
  sent : Int → List (List (Cell CNode))

/-- The records that writes send to a connection. -/
def addressed (fd : Int) (ws : List (Int × Cell CNode)) : List (Cell CNode) :=
  (ws.filter fun w => w.1 = fd).map Prod.snd

/-- The snapshots after the writes of one `write_cli`. -/
def snapshots (sent : Int → List (List (Cell CNode))) (ws : List (Int × Cell CNode)) :
    Int → List (List (Cell CNode)) :=
  fun fd => if addressed fd ws = [] then sent fd else sent fd ++ [addressed fd ws]

/-- `join` and `leave` are what `main` of the server does for an event, up to its writes, `write`
is one of these; `connect` and `read` are reads of a client. The addresses are those that `malloc`
returns, `ptemp` is `cnode` after `accept`. -/
inductive Act where
  | join (ptemp : Cell CNode) (pnode : Nat)
  | leave (fd : Int)
  | write
  | connect (fd : Int) (phead : Nat) (x : CNode)
  | read (fd : Int) (pnode : Nat)

namespace Net

def join (s : Net) (ptemp : Cell CNode) (pnode : Nat) : Option Net := do
  if s.out ≠ [] ∨ (s.client ptemp.val.sockfd).isSome ∨ pnode ∈ s.heap.cells then none else do
    let H ← Server.addList s.heap s.phead pnode ptemp
    let h ← H.read s.phead
    let first ← h.next >>= H.read
    let ws ← Server.writeCli H s.phead
    some { s with
      heap := H
      epoll := ptemp.val.sockfd :: s.epoll
      out := (ptemp.val.sockfd, first) :: ws
      client := Function.update s.client ptemp.val.sockfd (some .main)
      sent := snapshots s.sent ws }

/-- `read` from `fd` returns 0 or fails. -/
def leave (s : Net) (fd : Int) : Option Net := do
  if s.out ≠ [] ∨ fd ∉ s.epoll then none else do
    let H ← Server.delList s.heap s.phead fd
    let ws ← Server.writeCli H s.phead
    some { s with heap := H, epoll := s.epoll.erase fd, out := ws, sent := snapshots s.sent ws }

def write (s : Net) : Option Net :=
  match s.out with
  | [] => none
  | (fd, c) :: ws => some { s with out := ws, chan := Function.update s.chan fd (s.chan fd ++ [c]) }

def connect (s : Net) (fd : Int) (phead : Nat) (x : CNode) : Option Net :=
  match s.client fd, s.chan fd with
  | some .main, c :: cs => some { s with
      chan := Function.update s.chan fd cs
      client := Function.update s.client fd (some (.serverCon (.main c phead x))) }
  | _, _ => none

def read (s : Net) (fd : Int) (pnode : Nat) : Option Net :=
  match s.client fd, s.chan fd with
  | some (.serverCon con), c :: cs => do
    let con ← con.receiveFromServer pnode c
    some { s with
      chan := Function.update s.chan fd cs
      client := Function.update s.client fd (some (.serverCon con)) }
  | _, _ => none

def step (s : Net) : Act → Option Net
  | .join ptemp pnode => s.join ptemp pnode
  | .leave fd => s.leave fd
  | .write => s.write
  | .connect fd phead x => s.connect fd phead x
  | .read fd pnode => s.read fd pnode

/-- Before the first client: `Create_list` has returned `phead`. -/
def start (phead : Nat) (x : CNode) : Net where
  heap := Heap.create phead x
  phead := phead
  epoll := []
  out := []
  chan := fun _ => []
  client := fun _ => none
  sent := fun _ => []

/-- What was written to a connection or will be, and has not been read. -/
def pending (s : Net) (fd : Int) : List (Cell CNode) := s.chan fd ++ addressed fd s.out

end Net

/-- Server and clients, at any relative speed. -/
def lts (phead : Nat) (x : CNode) : Lts Net Act where
  init s := s = Net.start phead x
  step s a s' := s.step a = some s'

end UnixNote.TcpUdp
