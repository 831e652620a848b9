import Mathlib.Logic.Function.Basic
import UnixNote.Chat.Socket
import UnixNote.Lib.Runs

/-!
# The main loop of `server.c` and its receive threads

The kernel's side (the backlog of the listening socket, the receive buffers, the
edge-triggered events that are pending), the loop over the array `events`, and the
threads it starts: `pthread_receive` gets the address of `events[i].data.fd`, reads it in
a step of its own, and then reads a header and a payload in one step each. Every
`read(2)` waits until all the bytes it asked for have arrived. What the handlers do is
left out; connections are named by their descriptors.
-/

namespace UnixNote

open Socket (Received)

/-- A receive thread. `event` is the descriptor whose event it was started for. -/
inductive Thread where
  /-- It has not read its argument, the `fd` of `events[slot]`. -/
  | created (event : Int) (slot : Nat)
  /-- It reads `confd`, and has no header yet. -/
  | waiting (event confd : Int)
  /-- It has the header, and not the payload. -/
  | between (event confd : Int) (header : List UInt8)
  /-- It has called `analysis_receive`. -/
  | done (event confd : Int)
  deriving DecidableEq

namespace Thread

/-- The descriptor whose event the thread was started for. -/
def event : Thread → Int
  | created ev _ => ev
  | waiting ev _ => ev
  | between ev _ _ => ev
  | done ev _ => ev

/-- The descriptor the thread serves, once it has read its argument. -/
def serves : Thread → Option Int
  | created _ _ => none
  | waiting _ fd => some fd
  | between _ fd _ => some fd
  | done _ fd => some fd

/-- The thread has finished. -/
def isDone : Thread → Bool
  | done _ _ => true
  | _ => false

/-- A thread that has not read its slot would find the same there after `fds` was reported. -/
def keeps (fds : List Int) : Thread → Bool
  | created ev slot => fds.getD slot ev = ev
  | _ => true

/-- The header that the thread holds, if it is between its two reads of `fd`. -/
def held (fd : Int) : Thread → Option (List UInt8)
  | between _ fd' h => if fd' = fd then some h else none
  | _ => none

end Thread

/-- The state of the process and of the kernel. `arrived`, `reported` and `delivered` record
what came in on each connection, what `epoll_wait` returned, and what was handed to
`analysis_receive`. -/
structure Loop where
  backlog : List Int
  watched : List Int
  pending : List Int
  events : Nat → Int
  ret : Nat
  i : Nat
  threads : List Thread
  buf : Int → List UInt8
  arrived : Int → List UInt8
  reported : List Int
  delivered : Int → List Received

namespace Loop

/-- What happens next. -/
inductive Act where
  /-- A client connects. -/
  | connect (fd : Int)
  /-- Bytes arrive on a connection. -/
  | arrive (fd : Int) (bytes : List UInt8)
  /-- `epoll_wait` reports the descriptors. -/
  | wait (fds : List Int)
  /-- The body of the `for` loop, once. -/
  | body
  /-- Thread `k` reads its argument, a header, or a payload. -/
  | first (k : Nat)
  | header (k : Nat)
  | payload (k : Nat)

/-! ## Pieces of a step -/

/-- `n` bytes are read from `fd`. -/
def consume (s : Loop) (fd : Int) (n : Nat) : Loop :=
  { s with buf := Function.update s.buf fd ((s.buf fd).drop n) }

/-- Thread `k` becomes `t`. -/
def move (s : Loop) (k : Nat) (t : Thread) : Loop := { s with threads := s.threads.set k t }

/-- A frame read from `fd` is handed to `analysis_receive`. -/
def deliver (s : Loop) (fd : Int) (got : Received) : Loop :=
  { s with delivered := Function.update s.delivered fd (s.delivered fd ++ [got]) }

/-- The descriptors of the batch that the loop has not come to. -/
def rest (s : Loop) : List Int := (List.range' s.i (s.ret - s.i)).map s.events

/-- `packheader.lenth`. -/
def lenth (h : List UInt8) : Int := CInt.load (h.drop 4)

/-! ## Steps -/

/-- What can happen: new connections get a descriptor that is not in use, bytes arrive on
established connections, `epoll_wait` is called at the end of a batch and reports at most
256 of the pending descriptors, `Accept` waits for a connection, and `read(2)` for all
the bytes it was asked for. -/
def Enabled (sockfd : Int) (s : Loop) : Act → Prop
  | .connect fd => fd ≠ sockfd ∧ fd ∉ s.backlog ∧ fd ∉ s.watched
  | .arrive fd bytes => bytes ≠ [] ∧ (fd ∈ s.backlog ∨ fd ∈ s.watched)
  | .wait fds => s.i = s.ret ∧ fds ≠ [] ∧ fds.Nodup ∧ (∀ fd ∈ fds, fd ∈ s.pending) ∧ fds.length ≤ 256
  | .body => s.i < s.ret ∧ (s.events s.i = sockfd → s.backlog ≠ [])
  | .first k =>
    match s.threads[k]? with
    | some (.created _ _) => True
    | _ => False
  | .header k =>
    match s.threads[k]? with
    | some (.waiting _ fd) => 8 ≤ (s.buf fd).length
    | _ => False
  | .payload k =>
    match s.threads[k]? with
    | some (.between _ fd h) => lenth h ≤ (s.buf fd).length
    | _ => False

instance (sockfd : Int) (s : Loop) (a : Act) : Decidable (s.Enabled sockfd a) := by
  unfold Enabled
  split <;> try infer_instance
  all_goals split <;> infer_instance

/-- What it does. Arrivals before the next `epoll_wait` are one event, and a descriptor that is
added with bytes to read has an event at once. -/
def act (sockfd : Int) (s : Loop) : Act → Loop
  | .connect fd => { s with backlog := s.backlog ++ [fd], pending := s.pending.insert sockfd }
  | .arrive fd bytes =>
    { s with
      buf := Function.update s.buf fd (s.buf fd ++ bytes)
      arrived := Function.update s.arrived fd (s.arrived fd ++ bytes)
      pending := if fd ∈ s.watched then s.pending.insert fd else s.pending }
  | .wait fds =>
    { s with
      events := fun j => fds.getD j (s.events j)
      ret := fds.length
      i := 0
      pending := s.pending.filter (· ∉ fds)
      reported := s.reported ++ fds }
  | .body =>
    if s.events s.i = sockfd then
      match s.backlog with
      | [] => s
      | confd :: backlog =>
        { s with
          backlog := backlog
          watched := confd :: s.watched
          -- what arrived before `EPOLL_CTL_ADD` is reported as well
          pending := if s.buf confd = [] then s.pending else s.pending.insert confd
          i := s.i + 1 }
    else { s with threads := s.threads ++ [.created (s.events s.i) s.i], i := s.i + 1 }
  | .first k =>
    match s.threads[k]? with
    -- by now the loop may have come to the next batch
    | some (.created ev slot) => s.move k (.waiting ev (s.events slot))
    | _ => s
  | .header k =>
    match s.threads[k]? with
    | some (.waiting ev fd) =>
      let h := (s.buf fd).take 8
      let s := s.consume fd 8
      -- without a payload `Read` returns after the header
      if 0 < lenth h then s.move k (.between ev fd h)
      else (s.move k (.done ev fd)).deliver fd ⟨CInt.load h, none⟩
    | _ => s
  | .payload k =>
    match s.threads[k]? with
    | some (.between ev fd h) =>
      let n := (lenth h).toNat
      ((s.consume fd n).move k (.done ev fd)).deliver fd ⟨CInt.load h, some ((s.buf fd).take n)⟩
    | _ => s

/-- The state before the first `epoll_wait`. Nothing has initialised `events`. -/
def start (events : Nat → Int) : Loop :=
  ⟨[], [], [], events, 0, 0, [], fun _ => [], fun _ => [], [], fun _ => []⟩

/-- The server, listening on `sockfd`. -/
def lts (sockfd : Int) : Lts Loop Act where
  init s := ∃ events, s = start events
  step s a s' := s.Enabled sockfd a ∧ s' = s.act sockfd a

/-! ## What the pieces leave alone -/

section Fields

variable (s : Loop) (fd : Int) (n k : Nat) (t : Thread) (got : Received)

@[simp] theorem consume_threads : (s.consume fd n).threads = s.threads := rfl
@[simp] theorem consume_buf : (s.consume fd n).buf = Function.update s.buf fd ((s.buf fd).drop n) := rfl
@[simp] theorem consume_arrived : (s.consume fd n).arrived = s.arrived := rfl
@[simp] theorem consume_delivered : (s.consume fd n).delivered = s.delivered := rfl

@[simp] theorem move_threads : (s.move k t).threads = s.threads.set k t := rfl
@[simp] theorem move_buf : (s.move k t).buf = s.buf := rfl
@[simp] theorem move_arrived : (s.move k t).arrived = s.arrived := rfl
@[simp] theorem move_delivered : (s.move k t).delivered = s.delivered := rfl

@[simp] theorem deliver_threads : (s.deliver fd got).threads = s.threads := rfl
@[simp] theorem deliver_buf : (s.deliver fd got).buf = s.buf := rfl
@[simp] theorem deliver_arrived : (s.deliver fd got).arrived = s.arrived := rfl
@[simp] theorem deliver_delivered :
    (s.deliver fd got).delivered = Function.update s.delivered fd (s.delivered fd ++ [got]) := rfl

end Fields

end Loop

end UnixNote
