import UnixNote.Chat.Linklist
import UnixNote.Lib.Threads

/-!
# `linklist.c` between threads

Any number of threads call the functions of `linklist.c` on one list, as the threads of the server
and of the client do; in mode `A` of `send_message_mgmt` the client walks the list by itself. A step
is one statement or condition with all its accesses: `comparing`, `linking` and `bypassing` touch two
cells, under the mutex, and `printing` reads all that one line of `show_list` prints of its node. An
access to a cell that is not live, or through `NULL`, is a fault, after which the thread takes no step.
`malloc` returns a cell.
-/

namespace UnixNote.Concurrent

open Linklist

/-- The mutex of the list, with the thread that has locked it, and the heap. -/
structure Shared (ι : Type*) where
  mutex : Option ι
  heap : Heap OnlineNode

/-- What begins with `pthread_mutex_lock(&mutex)`. -/
inductive Fn where
  | addList (ptemp : Cell OnlineNode)
  | delList (fdId : Int) (flag : Flag)
  | searchList (fdId : Int) (flag : Flag)
  /-- `send_message_mgmt` in mode `A`, once a line is typed. -/
  | sendAll
  deriving DecidableEq

/-- What a call has come to. -/
inductive Result where
  | void
  | pointer (p : Option Nat)
  /-- The lines that `show_list` printed. -/
  | shown (nodes : List OnlineNode)
  /-- The addresses that were sent to, and whether every `sendto` succeeded. -/
  | sent (addrs : List SockAddr) (ok : Bool)
  deriving DecidableEq

/-- The two functions with the same loop. -/
inductive Goal where
  | delList
  | searchList
  deriving DecidableEq

/-- One of them with its key. -/
structure Query where
  goal : Goal
  fdId : Int
  flag : Flag
  deriving DecidableEq

/-- Whether the loop stops at a node. -/
def Query.accepts (q : Query) (n : OnlineNode) : Bool := key q.flag n = q.fdId

/-- The call that a query is. -/
def Query.call (q : Query) : Linklist.Call :=
  match q.goal with
  | .delList => .delList q.fdId q.flag
  | .searchList => .searchList q.fdId q.flag

/-- What it returns when the loop ends. -/
def Query.missed (q : Query) : Result :=
  match q.goal with
  | .delList => .void
  | .searchList => .pointer none

/-- Where a thread stands: before the statement or the condition that is quoted. -/
inductive Pc where
  /-- Not in a call; what the last one came to. -/
  | out (r : Result)
  /-- `pthread_mutex_lock(&mutex)` -/
  | locking (f : Fn)
  /-- `malloc(sizeof(Online_node))` -/
  | allocating (ptemp : Cell OnlineNode)
  /-- `*pnode = *ptemp` -/
  | copying (ptemp : Cell OnlineNode) (pnode : Nat)
  /-- `pnode->next = phead->next` -/
  | linking (ptemp : Cell OnlineNode) (pnode : Nat)
  /-- `phead->next = pnode` -/
  | entering (ptemp : Cell OnlineNode) (pnode : Nat)
  /-- `phead->next != NULL` -/
  | testing (q : Query) (phead : Nat)
  /-- `phead->next->id == fd_id`, or with `sockfd` -/
  | comparing (q : Query) (phead : Nat)
  /-- `phead = phead->next` -/
  | advancing (q : Query) (phead : Nat)
  /-- `p = phead->next` -/
  | keeping (q : Query) (phead : Nat)
  /-- `phead->next = phead->next->next` -/
  | bypassing (q : Query) (phead p : Nat)
  /-- `free(p)` -/
  | freeing (q : Query) (p : Nat)
  /-- `pthread_mutex_unlock(&mutex)`, and a return that reads no node; `q` if its loop has ended at `NULL`. -/
  | unlocking (q : Option Query) (r : Result)
  /-- The `pthread_mutex_unlock(&mutex)` of `search_list` in front of `return phead->next`. -/
  | releasing (q : Query) (phead : Nat)
  /-- `return phead->next` -/
  | returning (q : Query) (phead : Nat)
  /-- `POnline->next != NULL` -/
  | looking (pOnline : Nat) (lines : List OnlineNode)
  /-- `POnline = POnline->next` -/
  | moving (pOnline : Nat) (lines : List OnlineNode)
  /-- The `printf` calls of one line. -/
  | printing (pOnline : Nat) (lines : List OnlineNode)
  /-- `ptemp = POnline->next` -/
  | heading
  /-- `ptemp != NULL`, then the address of the node and `sendto` -/
  | sending (ptemp : Option Nat) (addrs : List SockAddr)
  /-- `ptemp = ptemp->next` -/
  | following (ptemp : Nat) (addrs : List SockAddr)
  | fault
  deriving DecidableEq

/-- What is not up to the thread. -/
inductive Choice where
  | go
  | call (f : Fn)
  | showList
  /-- The address that `malloc` returns, and what is there. -/
  | malloc (pnode : Nat) (c : Cell OnlineNode)
  | sendto (ok : Bool)
  deriving DecidableEq

/-- The first statement behind `pthread_mutex_lock`. -/
def Fn.body (phead : Nat) : Fn → Pc
  | .addList ptemp => .allocating ptemp
  | .delList fdId flag => .testing ⟨.delList, fdId, flag⟩ phead
  | .searchList fdId flag => .testing ⟨.searchList, fdId, flag⟩ phead
  | .sendAll => .heading

/-- Where the loop is left for the node behind `phead`. -/
def Query.found (q : Query) (phead : Nat) : Pc :=
  match q.goal with
  | .delList => .keeping q phead
  | .searchList => .releasing q phead

/-- Where a read of the cell at `a` leads. -/
def load (H : Heap OnlineNode) (a : Nat) (k : Cell OnlineNode → Pc) : Pc :=
  match H.read a with
  | none => .fault
  | some c => k c

/-- Where following a pointer leads. -/
def follow (p : Option Nat) (k : Nat → Pc) : Pc :=
  match p with
  | none => .fault
  | some a => k a

variable {ι : Type*}

/-- What a write leads to. -/
def store (s : Shared ι) (H : Option (Heap OnlineNode)) (l : Pc) : Pc × Shared ι :=
  match H with
  | none => (.fault, s)
  | some H => (l, { s with heap := H })

/-- The next step of a thread. The list is at `phead`. -/
def step (phead : Nat) (i : ι) : Choice → Pc → Shared ι → Option (Pc × Shared ι)
  | .call f, .out _, s => some (.locking f, s)
  | .showList, .out _, s => some (.looking phead [], s)
  | .go, .locking f, s => if s.mutex.isNone then some (f.body phead, { s with mutex := some i }) else none
  -- `add_list`
  | .malloc pnode c, .allocating ptemp, s =>
    if pnode ∈ s.heap.cells then none else some (.copying ptemp pnode, { s with heap := s.heap.malloc pnode c })
  | .go, .copying ptemp pnode, s =>
    some (store s ((s.heap.read pnode).map fun _ => s.heap.malloc pnode ptemp) (.linking ptemp pnode))
  | .go, .linking ptemp pnode, s =>
    some (store s ((s.heap.read phead).bind fun h => s.heap.setNext pnode h.next) (.entering ptemp pnode))
  | .go, .entering _ pnode, s =>
    some (store s (s.heap.setNext phead (some pnode)) (.unlocking none .void))
  -- the loops of `del_list` and `search_list`
  | .go, .testing q p, s =>
    some (load s.heap p fun c => if c.next.isNone then .unlocking (some q) q.missed else .comparing q p, s)
  | .go, .comparing q p, s =>
    some (load s.heap p fun c => follow c.next fun a => load s.heap a fun d =>
      if q.accepts d.val then q.found p else .advancing q p, s)
  | .go, .advancing q p, s => some (load s.heap p fun c => follow c.next (.testing q), s)
  | .go, .keeping q p, s => some (load s.heap p fun c => follow c.next (.bypassing q p), s)
  | .go, .bypassing q p a, s =>
    some (store s ((s.heap.read p).bind fun c => c.next.bind fun b => (s.heap.read b).bind fun d =>
      s.heap.setNext p d.next) (.freeing q a))
  | .go, .freeing _ a, s => some (store s (s.heap.free a) (.unlocking none .void))
  | .go, .unlocking _ r, s => some (.out r, { s with mutex := none })
  | .go, .releasing q p, s => some (.returning q p, { s with mutex := none })
  | .go, .returning _ p, s => some (load s.heap p fun c => .out (.pointer c.next), s)
  -- `show_list`
  | .go, .looking p lines, s =>
    some (load s.heap p fun c => if c.next.isNone then .out (.shown lines) else .moving p lines, s)
  | .go, .moving p lines, s => some (load s.heap p fun c => follow c.next fun a => .printing a lines, s)
  | .go, .printing p lines, s => some (load s.heap p fun c => .looking p (lines ++ [c.val]), s)
  -- `send_message_mgmt`
  | .go, .heading, s => some (load s.heap phead fun c => .sending c.next [], s)
  | .go, .sending none addrs, s => some (.unlocking none (.sent addrs true), s)
  | .sendto ok, .sending (some a) addrs, s =>
    some (load s.heap a fun c =>
      -- `return` with the mutex locked
      if ok then .following a (addrs ++ [c.val.addr]) else .out (.sent (addrs ++ [c.val.addr]) false), s)
  | .go, .following a addrs, s => some (load s.heap a fun c => .sending c.next addrs, s)
  | _, _, _ => none

/-- The threads of a process, none of them in a call. -/
def program (ι : Type*) (phead : Nat) : Program ι Choice Pc (Shared ι) where
  start _ := .out .void
  step i b l s := step phead i b l s

/-- A new list at `phead`, unlocked. -/
def Shared.Fresh (phead : Nat) (s : Shared ι) : Prop := ∃ x, s = ⟨none, created phead x⟩

/-- Where the thread relies on the mutex: from `pthread_mutex_lock` to `pthread_mutex_unlock`. -/
def Pc.inside : Pc → Bool
  | .allocating _ | .copying _ _ | .linking _ _ | .entering _ _ | .testing _ _ | .comparing _ _ | .advancing _ _ |
    .keeping _ _ | .bypassing _ _ _ | .freeing _ _ | .unlocking _ _ | .releasing _ _ | .heading | .sending _ _ |
    .following _ _ => true
  | .out _ | .locking _ | .returning _ _ | .looking _ _ | .moving _ _ | .printing _ _ | .fault => false

/-- No `sendto` fails. -/
def Sends : Choice → Prop
  | .sendto ok => ok = true
  | _ => True

instance : (b : Choice) → Decidable (Sends b)
  | .sendto ok => inferInstanceAs (Decidable (ok = true))
  | .go => .isTrue trivial
  | .call _ => .isTrue trivial
  | .showList => .isTrue trivial
  | .malloc _ _ => .isTrue trivial

end UnixNote.Concurrent
