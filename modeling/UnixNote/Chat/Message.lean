import UnixNote.Chat.Keyboard

/-!
# `send_message_mgmt` of `client.c`

The thread of the user interface alone: its mutexes, `iniface`, `row_count` and what it sends, in
all three modes. What other threads do to the friend list shows in the lists that it finds. What
the screen shows is left out.
-/

namespace UnixNote.Message

open Keyboard (dataInput dataInputMsg string atoi)

/-- The mutexes of the client. -/
inductive Lock where
  | mutex
  | mutexIniface
  | mutexCount
  deriving DecidableEq, Repr

/-- Why the thread does not go on. -/
inductive Stop where
  /-- For a key that nobody has typed. -/
  | waiting
  /-- For a mutex that it holds itself. -/
  | deadlock (m : Lock)
  /-- It has written to `id[i]`, which is not there. -/
  | outside (i : Nat)
  deriving DecidableEq, Repr

/-- A call of `sendto`. -/
structure Attempt where
  addr : SockAddr
  bytes : List UInt8
  ok : Bool
  deriving DecidableEq, Repr

/-- The mutexes that the thread holds, the globals it writes, and what it has sent. -/
structure Iface where
  held : List Lock
  iniface : Int
  rowCount : Int
  sent : List Attempt
  deriving DecidableEq, Repr

namespace Iface

/-- `pthread_mutex_lock`. -/
def lock (s : Iface) (m : Lock) : Except Stop Iface :=
  if m ∈ s.held then .error (.deadlock m) else .ok { s with held := m :: s.held }

/-- `pthread_mutex_unlock`. -/
def unlock (s : Iface) (m : Lock) : Iface := { s with held := s.held.erase m }

/-- `iniface = v` under its mutex. -/
def setIniface (s : Iface) (v : Int) : Except Stop Iface := do
  let s ← s.lock .mutexIniface
  return { s with iniface := v }.unlock .mutexIniface

/-- `search_list(POnline, id, BY_ID)`. -/
def searchList (s : Iface) (pOnline : OnlineList) (id : Int) : Except Stop (Option Node × Iface) := do
  let s ← s.lock .mutex
  return (pOnline.searchList id .byId, s.unlock .mutex)

/-- The own message goes to the screen. -/
def showMine (s : Iface) : Except Stop Iface := do
  let s ← s.lock .mutexCount
  let rowCount := if s.rowCount ≤ 0 then 15 else s.rowCount
  return { s with rowCount := rowCount - 1 }.unlock .mutexCount

def sendto (s : Iface) (addr : SockAddr) (bytes : List UInt8) (ok : Bool) : Iface :=
  { s with sent := s.sent ++ [⟨addr, bytes, ok⟩] }

end Iface

/-- `pudp_header` with the string in `RxData`: `sizeof(UDP_HEADER)+strlen(RxData)+1` bytes. -/
def udpHeader (mine : Int) (rxData : CStr) : List UInt8 :=
  CInt.store mine ++ CInt.store (rxData.length + 1) ++ rxData ++ [0]

/-- What one turn of a mode's loop meets: the keys and what `RxData` held before, the friend list at
its `k`-th look, the address read through a pointer to a node, and whether its `k`-th `sendto`
succeeds. -/
structure Turn where
  keys : List Int
  rxData : Vector UInt8 76
  list : Nat → OnlineList
  deref : Node → SockAddr
  ok : Nat → Bool

/-- Mode `S`, once round: whether the function returns, and what it leaves. -/
def turnS (mine id : Int) (t : Turn) (s : Iface) : Except Stop (Bool × Iface) := do
  let (pfriend, s) ← s.searchList (t.list 0) id
  match pfriend with
  | none => return (true, ← s.setIniface 0)
  | some pfriend =>
    let s ← s.setIniface 1
    match dataInputMsg t.rxData t.keys with
    | none => .error .waiting
    | some (ret, rxData, _) =>
      if ret ≠ 0 then return (true, ← s.setIniface 0)
      else
        let s := s.sendto (t.deref pfriend) (udpHeader mine (string rxData)) (t.ok 0)
        if t.ok 0 then return (false, ← s.showMine) else return (true, s)

/-- The loop over `id[i]` in mode `M`. After a `sendto` that fails it goes on as after any other. -/
def sendEach (packet : List UInt8) (t : Turn) : List Int → Nat → Iface → Except Stop Iface
  | [], _, s => .ok s
  | id :: ids, i, s => do
    let (ptemp, s) ← s.searchList (t.list i) id
    match ptemp with
    | none => sendEach packet t ids (i + 1) s
    | some ptemp => sendEach packet t ids (i + 1) (s.sendto (t.deref ptemp) packet (t.ok i))

/-- Mode `M`, once round. -/
def turnM (mine : Int) (ids : List Int) (t : Turn) (s : Iface) : Except Stop (Bool × Iface) := do
  let s ← s.setIniface 1
  match dataInputMsg t.rxData t.keys with
  | none => .error .waiting
  | some (ret, rxData, _) =>
    if ret ≠ 0 then return (true, ← s.setIniface 0)
    else
      let s ← sendEach (udpHeader mine (string rxData)) t ids 0 s
      return (false, ← s.showMine)

/-- The loop over the nodes in mode `A`, and whether a `sendto` failed. -/
def sendAll (packet : List UInt8) (t : Turn) : List Node → Nat → Iface → Bool × Iface
  | [], _, s => (false, s)
  | ptemp :: nodes, i, s =>
    let s := s.sendto (t.deref ptemp) packet (t.ok i)
    if t.ok i then sendAll packet t nodes (i + 1) s else (true, s)

/-- Mode `A`, once round. -/
def turnA (mine : Int) (t : Turn) (s : Iface) : Except Stop (Bool × Iface) := do
  let s ← s.setIniface 1
  match dataInputMsg t.rxData t.keys with
  | none => .error .waiting
  | some (ret, rxData, _) =>
    if ret ≠ 0 then return (true, ← s.setIniface 0)
    else
      let s ← s.lock .mutex
      let (failed, s) := sendAll (udpHeader mine (string rxData)) t (t.list 0).nodes 0 s
      -- the `return` in the loop is taken with the list locked
      if failed then return (true, s) else return (false, ← (s.unlock .mutex).showMine)

/-- A mode with what was typed for it. -/
inductive Mode where
  | s (id : Int)
  | m (ids : List Int)
  | a
  deriving DecidableEq, Repr

def turn (mine : Int) : Mode → Turn → Iface → Except Stop (Bool × Iface)
  | .s id => turnS mine id
  | .m ids => turnM mine ids
  | .a => turnA mine

/-- The loop of a mode. -/
def chat (mine : Int) (mode : Mode) : List Turn → Iface → Except Stop Iface
  | [], _ => .error .waiting
  | t :: ts, s => do
    let (left, s) ← turn mine mode t s
    if left then return s else chat mine mode ts s

/-- What is typed before the loop, and what the arrays it goes to held before: `buf` of mode `S` and
`buf2` of mode `M`, and `buf` of mode `M`. -/
structure Setup where
  keys : List Int
  buf : Vector UInt8 7
  num : Vector UInt8 4

/-- `id[i]`, `id[i + 1]` and so on are typed. -/
def readIds : Nat → Nat → Vector UInt8 7 → List Int → Except Stop (List Int)
  | 0, _, _, _ => .ok []
  | k + 1, i, buf2, keys =>
    match dataInput buf2 keys with
    | none => .error .waiting
    | some (_, buf2, keys) =>
      if i < 256 then do
        let ids ← readIds k (i + 1) buf2 keys
        return atoi (string buf2) :: ids
      else .error (.outside i)

/-- The mode that `ifg` selects, if it is one. -/
def select (ifg : Char) (setup : Setup) : Except Stop (Option Mode) :=
  match ifg with
  | 'S' =>
    match dataInput setup.buf setup.keys with
    | none => .error .waiting
    | some (_, buf, _) => return some (.s (atoi (string buf)))
  | 'M' =>
    match dataInput setup.num setup.keys with
    | none => .error .waiting
    | some (_, buf, keys) => return some (.m (← readIds (atoi (string buf)).toNat 0 setup.buf keys))
  | 'A' => return some .a
  | _ => return none

/-- `send_message_mgmt`, as long as the turns go. -/
def sendMessageMgmt (mine : Int) (ifg : Char) (setup : Setup) (turns : List Turn) (s : Iface) :
    Except Stop Iface := do
  match ← select ifg setup with
  | none => return s
  | some mode => chat mine mode turns s

end UnixNote.Message
