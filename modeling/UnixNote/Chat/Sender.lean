import UnixNote.Chat.Types
import UnixNote.Lib.Runs

/-!
# Mode `S` of `send_message_mgmt`, beside the TCP thread

The user-interface thread looks its friend up, waits for a line, reads the address of the node
it found and sends; then it starts over. Meanwhile the TCP thread applies `OP_ONLINE` and
`OP_OFFLINE` to the same list. What the screen shows is left out.
-/

namespace UnixNote.Sender

/-- Where `send_message_mgmt` stands. `id` is the friend that was typed, `pfriend` what the last
`search_list` returned. -/
inductive Pc where
  /-- Outside mode `S`. -/
  | menu
  /-- Before `search_list`. -/
  | looking (id : Int)
  /-- In `data_input_msg`. -/
  | typing (id : Int) (pfriend : Node)
  /-- Before `pfriend->addr.sin_port` is read. -/
  | typed (id : Int) (pfriend : Node) (rxData : CStr)
  /-- Before `pfriend->addr.sin_addr` is read. -/
  | ported (id : Int) (pfriend : Node) (rxData : CStr) (port : Nat)
  /-- Before `sendto`. -/
  | addressed (id : Int) (rxData : CStr) (addr : SockAddr)
  deriving DecidableEq, Repr

/-- What the sender did. -/
inductive Event where
  /-- A field of the node at `ref` was read, in the list or freed. -/
  | read (ref : Nat) (live : Bool)
  | sendto (addr : SockAddr) (rxData : CStr)
  deriving DecidableEq, Repr

/-- The client: its list, the sender, and what that has done. -/
structure Chat where
  pOnline : OnlineList
  pc : Pc
  log : List Event

/-- The next step of either thread. -/
inductive Act where
  /-- Mode `S` is chosen, and the id of a friend typed. -/
  | select (id : Int)
  | search
  /-- The escape key: `data_input_msg` returns -1. -/
  | escape
  /-- A line is complete. -/
  | line (rxData : CStr)
  /-- A field of the node is read; `stale` is what freed memory holds there. -/
  | readPort (stale : Nat)
  | readAddr (stale : Nat)
  /-- `sendto`, which may fail. -/
  | send (ok : Bool)
  /-- `online_action`. -/
  | online (node : OnlineNode)
  /-- `offline_action`. -/
  | offline (id : Int)
  deriving DecidableEq, Repr

namespace Chat

/-- A field of the node behind a pointer, with the event that it was read. -/
def read (s : Chat) (p : Node) (field : SockAddr → Nat) (stale : Nat) : List Event × Nat :=
  (s.log ++ [.read p.ref (s.pOnline.live p)], if s.pOnline.live p then field p.addr else stale)

/-- One step, if it can be taken. -/
def step (s : Chat) (a : Act) : Option Chat :=
  match a, s.pc with
  | .select id, .menu => some { s with pc := .looking id }
  | .search, .looking id =>
    match s.pOnline.searchList id .byId with
    -- "not exist or not online"
    | none => some { s with pc := .menu }
    | some pfriend => some { s with pc := .typing id pfriend }
  | .escape, .typing _ _ => some { s with pc := .menu }
  | .line rxData, .typing id pfriend => some { s with pc := .typed id pfriend rxData }
  | .readPort stale, .typed id pfriend rxData =>
    let (log, port) := s.read pfriend SockAddr.port stale
    some { s with pc := .ported id pfriend rxData port, log }
  | .readAddr stale, .ported id pfriend rxData port =>
    let (log, ip) := s.read pfriend SockAddr.ip stale
    some { s with pc := .addressed id rxData ⟨ip, port⟩, log }
  | .send ok, .addressed id rxData addr =>
    some { s with pc := if ok then .looking id else .menu, log := s.log ++ [.sendto addr rxData] }
  | .online node, _ => some { s with pOnline := s.pOnline.addList node }
  | .offline id, _ => some { s with pOnline := s.pOnline.delList id .byId }
  | _, _ => none

end Chat

/-- The two threads, from any friend list. -/
def lts : Lts Chat Act where
  init s := s.pc = .menu ∧ s.log = []
  step s a s' := s.step a = some s'

end UnixNote.Sender
