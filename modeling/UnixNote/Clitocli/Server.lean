import UnixNote.Lib.Arrays

/-!
# `UNIX-8-10/clitocli`

The server relays between two clients. It has a thread for each, `pthread_action`, with an array of its own; both
know the sockets from `sockfds`. A client writes lines with their NUL.
-/

namespace UnixNote.Clitocli

/-- What `read(sockfd, buf, 1024)` comes to. -/
inductive Read where
  | failed
  /-- It returns 0. -/
  | closed
  | block (b : Block UInt8 1024)

/-- A `write` of the relay: the socket and the bytes, with the number of bytes read before. The bytes are `none` where
`strlen` finds no NUL in the array. -/
structure Forward where
  sockfd : Nat
  ret : Nat
  written : Option (List UInt8)

/-- `pthread_action`, and what it has written. -/
structure Thread where
  sockfd : Nat
  buf : Buf UInt8 1024
  running : Bool
  log : List Forward

structure Server where
  /-- `sockfds[0]` and `sockfds[1]` -/
  sockfds : Bool → Nat
  thread : Bool → Thread

def strlen (buf : List UInt8) : Option Nat := buf.findIdx? (· = 0)

/-- The `strlen(buf)+1` bytes from `buf` on. -/
def cString (buf : List UInt8) : Option (List UInt8) := (strlen buf).map fun n => buf.take (n + 1)

namespace Server

/-- `sockfds[0] != sockfd ? sockfds[0] : sockfds[1]` -/
def dest (s : Server) (sockfd : Nat) : Nat := if s.sockfds false ≠ sockfd then s.sockfds false else s.sockfds true

def setThread (s : Server) (k : Bool) (t : Thread) : Server :=
  { s with thread := fun k' => if k' = k then t else s.thread k' }

/-- A turn of the loop in the thread `k`. -/
def step (s : Server) (k : Bool) (r : Read) : Server :=
  let t := s.thread k
  if t.running then
    match r with
    | .failed => s
    | .closed =>
      let gone := decide (s.sockfds false ≠ t.sockfd)
      { s.setThread k { t with running := false } with
        sockfds := fun i => if i = gone then 1 else s.sockfds i }
    | .block b =>
      let buf := t.buf.read b
      s.setThread k { t with buf := buf, log := t.log ++ [⟨s.dest t.sockfd, b.bytes.length, cString buf.bytes⟩] }
  else s

/-- Turns of the two threads in any order. -/
def run (s : Server) (events : List (Bool × Read)) : Server := events.foldl (fun s e => s.step e.1 e.2) s

end Server

/-- The blocks that the thread `k` reads. -/
def blocks (k : Bool) (events : List (Bool × Read)) : List (Block UInt8 1024) :=
  events.filterMap fun e =>
    match e with
    | (k', .block b) => if k' = k then some b else none
    | _ => none

/-- What a client writes: each line from `fgets` with its NUL. -/
def stream (lines : List (List UInt8)) : List UInt8 := lines.flatMap (· ++ [0])

end UnixNote.Clitocli
