import UnixNote.Lib.CInt
import UnixNote.Lib.Heap
import UnixNote.Lib.Runs
import UnixNote.Chat.Types

/-!
# The list of `TCP_UDP/server.c`

The server numbers its clients itself: a new node gets the id after the one of the first node. It
tells every client the whole list after each change, node by node as they are in memory, so that
the pointer of a record is the server's own.
-/

namespace UnixNote.TcpUdp

/-- `struct client_attr`. -/
structure CliAttr where
  cliaddr : SockAddr
  id : Int
  deriving DecidableEq, Repr

/-- `C_node`, without `next`: a record is a `Cell CNode`. -/
structure CNode where
  cliattr : CliAttr
  sockfd : Int
  deriving DecidableEq, Repr

namespace Server

/-- The id of a new node. -/
def newId (H : Heap CNode) (phead : Nat) : Option Int := do
  let h ← H.read phead
  match h.next with
  | none => some 1001
  | some p => do
    let c ← H.read p
    some (CInt.wrap (c.val.cliattr.id + 1))

/-- A node with its id set. -/
def withId (c : Cell CNode) (id : Int) : Cell CNode :=
  { c with val := { c.val with cliattr := { c.val.cliattr with id := id } } }

/-- `add_list`. `malloc` returns `pnode`. -/
def addList (H : Heap CNode) (phead pnode : Nat) (ptemp : Cell CNode) : Option (Heap CNode) := do
  let id ← newId H phead
  H.push phead pnode (withId ptemp id)

/-- `del_list`, for a `phead` that `Create_list` made. -/
def delList (H : Heap CNode) (phead : Nat) (fd : Int) : Option (Heap CNode) :=
  Heap.unlink (fun n => n.sockfd = fd) H.size phead H

/-- `write_cli`: the writes it makes, each with its descriptor. -/
def writeCli (H : Heap CNode) (phead : Nat) : Option (List (Int × Cell CNode)) := do
  let h ← H.read phead
  let heads ← H.walk H.size h.next
  some (heads.flatMap fun head2 => heads.map fun head => (head2.val.sockfd, head))

/-! ## Sequences of calls -/

/-- A call for a join, with the address `malloc` returns in it, or for a leave. -/
inductive Call where
  | addList (ptemp : Cell CNode) (pnode : Nat)
  | delList (fd : Int)

/-- A call on the list at `phead`; `malloc` returns no address that is in use. -/
def Call.exec (H : Heap CNode) (phead : Nat) : Call → Option (Heap CNode)
  | .addList ptemp pnode => if pnode ∈ H.cells then none else Server.addList H phead pnode ptemp
  | .delList fd => Server.delList H phead fd

/-- Calls one after the other on a list that `Create_list` made. -/
def lts (phead : Nat) (x : CNode) : Lts (Heap CNode) Call where
  init H := H = Heap.create phead x
  step H c H' := c.exec H phead = some H'

end Server

end UnixNote.TcpUdp
