import UnixNote.Chat.Socket
import UnixNote.Lib.Runs

/-!
# `add_friend_action` of `client.c` and the helper `allow_addf`

For every `OP_ADD_FRIEND` the client starts a helper in a terminal of its own, which shows the id of
the requester and returns the key that the user presses. The two meet in `./fifo_id` and
`./fifo_result`, and the client never closes its ends of them, so that bytes nobody has read are
still there for the next request. A helper starts when the one before it has ended.
-/

namespace UnixNote.Approval

/-- Where the client stands in `add_friend_action`, with the ids of the request. -/
inductive Client where
  | waiting
  | openId (src dst : Int)
  | openResult (src dst : Int)
  | writing (src dst : Int)
  | reading (src dst : Int)
  /-- It wrote to `./fifo_id` when nobody had it open for reading. -/
  | killed
  deriving DecidableEq, Repr

/-- Where the helper stands. -/
inductive Pc where
  | openId
  | openResult
  | reading
  | asking
  | answered
  | ended
  deriving DecidableEq, Repr

/-- The helper of the last request: the id it showed, and the byte it wrote to `./fifo_result`. -/
structure Helper where
  pc : Pc
  shown : Option Int
  wrote : Option UInt8
  deriving DecidableEq, Repr

/-- An `OP_ALLOW_ADDF` that was sent, and the helper of its request as it was then. -/
structure Answer where
  src : Int
  dst : Int
  verdict : Int
  helper : Helper
  deriving DecidableEq, Repr

/-- Both processes and what is unread in the FIFOs. `held`: the client has descriptors from a request
before. -/
structure Desk where
  client : Client
  held : Bool
  helper : Helper
  fifoId : List UInt8
  fifoResult : List UInt8
  sent : List Answer
  deriving DecidableEq, Repr

/-- The next step of either process. -/
inductive Act where
  /-- The client reads an `OP_ADD_FRIEND` and starts a helper. -/
  | request (src dst : Int)
  | clientOpenId
  | clientOpenResult
  | clientWrite
  /-- `stack` is what `result` holds before the `read`. -/
  | clientRead (stack : UInt8)
  | helperOpenId
  | helperOpenResult
  /-- `stack` is what `id` holds before the `read`. -/
  | helperRead (stack : List UInt8)
  /-- The user presses a key, and the helper writes it. -/
  | key (c : UInt8)
  /-- The helper ends. -/
  | helperEnd
  deriving DecidableEq, Repr

/-- `result == 'y' || result == 'Y'`. -/
def yes (result : UInt8) : Bool := result = 121 || result = 89

namespace Desk

/-- The helper has `./fifo_result` open for writing, or waits in that `open`. -/
def writer (s : Desk) : Bool := s.helper.pc ≠ .openId && s.helper.pc ≠ .ended

/-- The client has `./fifo_result` open for reading, or waits in that `open`. -/
def reader (s : Desk) : Bool := s.held || s.client matches .openResult _ _

/-- The last step of `add_friend_action`: the verdict goes to the server. -/
def answer (s : Desk) (src dst : Int) (result : UInt8) (fifoResult : List UInt8) : Desk :=
  { s with
    client := .waiting
    fifoResult := fifoResult
    sent := s.sent ++ [⟨src, dst, if yes result then 1 else 0, s.helper⟩] }

/-- One step, if it can be taken: an `open` waits for the other side, a `read` for bytes as long as
there is a writer. -/
def step (s : Desk) : Act → Option Desk
  | .request src dst =>
    if s.client = .waiting ∧ s.helper.pc = .ended ∧ CInt.InRange src ∧ CInt.InRange dst then
      some { s with client := .openId src dst, helper := ⟨.openId, none, none⟩ }
    else none
  | .clientOpenId =>
    match s.client with
    | .openId src dst => if s.helper.pc ≠ .ended then some { s with client := .openResult src dst } else none
    | _ => none
  | .clientOpenResult =>
    match s.client with
    | .openResult src dst => if s.writer then some { s with client := .writing src dst, held := true } else none
    | _ => none
  | .clientWrite =>
    match s.client with
    | .writing src dst =>
      if s.helper.pc ≠ .ended then
        some { s with client := .reading src dst, fifoId := s.fifoId ++ CInt.store src }
      else some { s with client := .killed }
    | _ => none
  | .clientRead stack =>
    match s.client with
    | .reading src dst =>
      match s.fifoResult with
      | result :: rest => some (s.answer src dst result rest)
      -- `read` returns 0 and leaves `result` alone
      | [] => if s.writer then none else some (s.answer src dst stack [])
    | _ => none
  | .helperOpenId =>
    if s.helper.pc = .openId then some { s with helper := { s.helper with pc := .openResult } } else none
  | .helperOpenResult =>
    if s.helper.pc = .openResult ∧ s.reader then some { s with helper := { s.helper with pc := .reading } } else none
  | .helperRead stack =>
    if s.helper.pc = .reading ∧ s.fifoId ≠ [] ∧ stack.length = 4 then
      let id := Socket.fill stack (min 4 s.fifoId.length) s.fifoId
      some { s with helper := { s.helper with pc := .asking, shown := some (CInt.load id) }, fifoId := s.fifoId.drop 4 }
    else none
  | .key c =>
    if s.helper.pc = .asking then
      some { s with helper := { s.helper with pc := .answered, wrote := some c }, fifoResult := s.fifoResult ++ [c] }
    else none
  | .helperEnd =>
    if s.helper.pc = .reading ∨ s.helper.pc = .asking ∨ s.helper.pc = .answered then
      some { s with helper := { s.helper with pc := .ended } }
    else none

end Desk

/-- The desk before the first request. -/
def start : Desk := ⟨.waiting, false, ⟨.ended, none, none⟩, [], [], []⟩

/-- The two processes. -/
def lts : Lts Desk Act where
  init s := s = start
  step s a s' := s.step a = some s'

end UnixNote.Approval
