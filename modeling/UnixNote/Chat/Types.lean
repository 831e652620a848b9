import Mathlib.Data.List.Nodup
import UnixNote.Lib.Keyed

/-!
# The data of `comtype.h` and the list of `linklist.c`

* `Frame`: what a client sends to the server, one constructor for each optype that
  `analysis_receive` of `server_action.c` dispatches, with its payload read as
  the handler reads it.
* `Msg`: what the server writes to a client.
* `OnlineList`: the linked list behind `POnline`, as the sequence of its nodes after
  the sentinel. A node keeps the address `malloc` gave it, so that a pointer
  returned by `search_list` is told apart from the node it pointed to.
-/

namespace UnixNote

/-- The bytes of a C string before its NUL. -/
abbrev CStr := List UInt8

/-- The string in a field. -/
def cstr (bytes : List UInt8) : CStr := bytes.takeWhile (· ≠ 0)

/-! ## Operation codes -/

def OP_REGISTER : Int := 0
def OP_LOGIN : Int := 1
def OP_HEARTBEAT : Int := 2
def OP_FILE : Int := 3
def OP_ONLINE : Int := 4
def OP_ALLOW_DISCONNECT : Int := 5
def OP_REGISTER_SUCCESS : Int := 6
def OP_LOGIN_FEEDBACK : Int := 7
def OP_OFFLINE : Int := 8
def OP_ADD_FRIEND : Int := 9
def OP_ALLOW_ADDF : Int := 10

/-- `struct sockaddr_in`, without its constant family. -/
structure SockAddr where
  ip : Nat
  port : Nat
  deriving DecidableEq, Repr

/-- `Online_node`, without `time` (never read) and `next` (the list itself). -/
structure OnlineNode where
  id : Int
  sockfd : Int
  addr : SockAddr
  deriving DecidableEq, Repr

/-- `USER`: an id and two C strings. -/
structure User where
  id : Int
  username : CStr
  password : CStr
  deriving DecidableEq, Repr

/-- A frame from a client. `other` is any optype without a case in the dispatch. -/
inductive Frame where
  | register (user : User)
  | login (user : User)
  | heartbeat (id : Int)
  | offline (id : Int)
  | addFriend (src dst : Int)
  | allowAddf (src dst verdict : Int)
  | other (optype : Int)
  deriving DecidableEq, Repr

/-- A message from the server. -/
inductive Msg where
  | registerSuccess (id : Int)
  | loginFeedback (flag : Int)
  | online (node : OnlineNode)
  | offline (id : Int)
  | allowDisconnect
  | addFriend (src dst : Int)
  | allowAddf (src dst verdict : Int)
  deriving DecidableEq, Repr

/-! ## The list -/

/-- A node in the heap: its contents and the address it was allocated at. -/
structure Node extends OnlineNode where
  ref : Nat
  deriving DecidableEq, Repr

/-- `BY_ID` and `BY_SOCKFD`. -/
inductive Flag where
  | byId
  | bySockfd
  deriving DecidableEq, Repr

/-- The field of a node that a search with `flag` compares. -/
def Flag.field : Flag → Node → Int
  | .byId, n => n.id
  | .bySockfd, n => n.sockfd

/-- The nodes behind the sentinel, first node first, and the next address `malloc`
returns. Live nodes have pairwise distinct addresses. -/
structure OnlineList where
  nodes : List Node
  brk : Nat
  allocated : ∀ n ∈ nodes, n.ref < brk
  distinct : Keyed.Distinct Node.ref nodes

namespace OnlineList

/-- `Create_list`: the sentinel alone. -/
def create : OnlineList := ⟨[], 0, by simp, Keyed.Distinct.nil⟩

/-- `add_list`: a copy of `temp` right behind the sentinel. -/
def addList (l : OnlineList) (temp : OnlineNode) : OnlineList where
  nodes := ⟨temp, l.brk⟩ :: l.nodes
  brk := l.brk + 1
  allocated := by
    intro n hn
    rcases List.mem_cons.1 hn with rfl | hn
    · exact Nat.lt_succ_self _
    · exact Nat.lt_succ_of_lt (l.allocated n hn)
  distinct := l.distinct.cons fun n hn => Nat.ne_of_lt (l.allocated n hn)

/-- `del_list`: the first node with the key is unlinked and freed. -/
def delList (l : OnlineList) (fdId : Int) (flag : Flag) : OnlineList where
  nodes := l.nodes.eraseP (fun n => flag.field n = fdId)
  brk := l.brk
  allocated := fun n hn => l.allocated n (List.mem_of_mem_eraseP hn)
  distinct := l.distinct.sublist List.eraseP_sublist

/-- `search_list`: the first node with the key, or `NULL`. -/
def searchList (l : OnlineList) (fdId : Int) (flag : Flag) : Option Node :=
  l.nodes.find? (fun n => flag.field n = fdId)

/-- Whether the node a pointer was taken to is still in the list. -/
def live (l : OnlineList) (p : Node) : Bool := l.nodes.any (fun n => n.ref = p.ref)

variable {l : OnlineList} {temp : OnlineNode} {k : Int} {p : Node}

@[simp] theorem addList_nodes : (l.addList temp).nodes = ⟨temp, l.brk⟩ :: l.nodes := rfl

@[simp] theorem create_nodes : create.nodes = [] := rfl

theorem delList_nodes (flag : Flag) :
    (l.delList k flag).nodes = l.nodes.eraseP (fun n => flag.field n = k) := rfl

theorem delList_sublist (flag : Flag) : (l.delList k flag).nodes.Sublist l.nodes := List.eraseP_sublist

theorem live_of_mem (hp : p ∈ l.nodes) : l.live p = true := by
  simp only [live, List.any_eq_true, decide_eq_true_eq]
  exact ⟨p, hp, rfl⟩

theorem searchId_some (h : l.searchList k .byId = some p) : p ∈ l.nodes ∧ p.id = k :=
  Keyed.find?_spec h

theorem searchId_none : l.searchList k .byId = none ↔ ∀ n ∈ l.nodes, n.id ≠ k :=
  Keyed.find?_none

theorem searchSockfd_some (h : l.searchList k .bySockfd = some p) : p ∈ l.nodes ∧ p.sockfd = k :=
  Keyed.find?_spec h

theorem searchSockfd_none : l.searchList k .bySockfd = none ↔ ∀ n ∈ l.nodes, n.sockfd ≠ k :=
  Keyed.find?_none

end OnlineList

end UnixNote
