import UnixNote.Chat.Credentials
import UnixNote.Chat.Pwdmgmt
import UnixNote.Chat.System
import UnixNote.Lib.Bytes

/-!
# The client process: `menumgmt.c` and the main loop of `client.c`

What the keyboard and the bytes of the connection do to a client. The thread of the user interface takes keys up
to its next wait (`ui`); until the login succeeds it also reads the answers of the server, then the thread of
`pthread_tcp` reads (`receive`) and waits for the user's answer to a friend request (`answer`). What is on the
screen is left out, and so is a FIFO that fails.
-/

namespace UnixNote

open Keyboard (atoi byte dataInput)
open Server (Fault loadInt)
open Socket (Package Received)

/-- Where the thread of the user interface stands: at a menu, before the first key of a form, in `Read_client`
behind a request, in `send_message_mgmt`, in a `mygetch` with what follows it, or behind `exit`. -/
inductive Place where
  | welIface
  | loginIface
  | registerIface
  | registerSent
  | loginSent (id : Int)
  | operaIface
  | addFriend
  | sending
  | mygetch (next : Place)
  | exited
  deriving DecidableEq, Repr

/-- `keys` are typed and not read yet, `asking` is the friend request that `pthread_tcp` waits for an answer to. -/
structure Process where
  place : Place
  keys : List Int
  mineId : Int
  pOnline : OnlineList
  asking : Option (Int × Int)

/-- What is in the locals of the forms before they are set: `RxData`, `Pwd` and `user`, and `RxData` of the main
loop. -/
structure Locals where
  rxData : Vector UInt8 11
  pwd : Vector UInt8 11
  user : Stack
  friend : Vector UInt8 7

namespace Process

/-- A process that has connected. The globals are zero. -/
def start (keys : List Int) : Process := ⟨.welIface, keys, 0, .create, none⟩

/-- `ifg = getchar(); stdin_clr();` -/
def choice : List Int → Option (UInt8 × List Int)
  | [] => none
  | ifg :: keys => (Pwdmgmt.stdinClr (keys.length + 1) keys).map fun keys => (byte ifg, keys)

/-- `password_input(data, n + 1)`, which stores as `data_input` does. -/
def passwordInput {n : Nat} (data : Vector UInt8 (n + 1)) (keys : List Int) :
    Option (Int × Vector UInt8 (n + 1) × List Int) :=
  dataInput data keys

/-- The two strings of a form, and the keys left over. -/
def form (m : Locals) (keys : List Int) : Option (CStr × CStr × List Int) := do
  let (_, rxData, keys) ← dataInput m.rxData keys
  let (_, pwd, keys) ← passwordInput m.pwd keys
  some (Keyboard.string rxData, Keyboard.string pwd, keys)

/-- Bytes of one `Write_client` whose payload are `int`s. -/
def ints (optype : Int) (xs : List Int) (h : CInt.InRange optype ∧ xs.length < 4) : Package where
  optype := optype
  lenth := 4 * xs.length
  data := xs.flatMap CInt.store
  optypeInt := h.1
  lenthInt := by
    have := h.2
    unfold CInt.InRange
    omega
  size := by
    rw [List.length_flatMap, List.map_congr_left fun x _ => CInt.store_length]
    simp
    omega

/-- `Write_client(tcpfd, OP_OFFLINE, &mine.id, sizeof(int))` -/
def offlinePackage (id : Int) : Package := ints OP_OFFLINE [id] ⟨by decide, by simp⟩

/-- `Write_client(tcpfd, OP_ADD_FRIEND, &send_id, 2*sizeof(int))` -/
def addFriendPackage (src dst : Int) : Package := ints OP_ADD_FRIEND [src, dst] ⟨by decide, by simp⟩

/-- `Write_client(tcpfd, OP_ALLOW_ADDF, id_send, 3*sizeof(int))` -/
def allowAddfPackage (src dst verdict : Int) : Package :=
  ints OP_ALLOW_ADDF [src, dst, verdict] ⟨by decide, by simp⟩

/-- `atoi`, which keeps the low bytes of a number that is too long. -/
def number (s : CStr) : Int := CInt.wrap (atoi s)

/-- The thread of the user interface goes on to its next wait, and may write to the server on its way. It waits
for keys that are not typed yet. -/
def ui (m : Locals) (c : Process) : Option (Process × Option Package) :=
  match c.place with
  -- `wel_Iface_mgmt`
  | .welIface => do
    let (ifg, keys) ← choice c.keys
    let place :=
      -- `L`, `R`, `E`
      if ifg = 76 then Place.loginIface
      else if ifg = 82 then .registerIface
      else if ifg = 69 then .exited
      -- `Inputerr_Iface_mgmt`, and `goto again`
      else .mygetch .welIface
    some ({ c with place, keys }, none)
  | .loginIface => do
    let (rxData, pwd, keys) ← form m c.keys
    let id := number rxData
    some ({ c with place := .loginSent id, keys }, some (m.user.loginIface id pwd).loginPackage)
  | .registerIface => do
    let (rxData, pwd, keys) ← form m c.keys
    some ({ c with place := .registerSent, keys }, some (m.user.registerIface rxData pwd).registerPackage)
  -- the main loop
  | .operaIface => do
    let (ifg, keys) ← choice c.keys
    -- `P`, `A`, `S`, `E`
    if ifg = 80 then some ({ c with place := .mygetch .operaIface, keys }, none)
    else if ifg = 65 then some ({ c with place := .addFriend, keys }, none)
    else if ifg = 83 then some ({ c with place := .sending, keys }, none)
    else if ifg = 69 then some ({ c with keys }, some (offlinePackage c.mineId))
    else some ({ c with keys }, none)
  | .addFriend => do
    let (_, rxData, keys) ← dataInput m.friend c.keys
    let id := number (Keyboard.string rxData)
    if c.mineId ≠ id then
      some ({ c with place := .operaIface, keys }, some (addFriendPackage c.mineId id))
    else some ({ c with place := .mygetch .operaIface, keys }, none)
  | .mygetch next =>
    match c.keys with
    | [] => none
    | _ :: keys => some ({ c with place := next, keys }, none)
  | _ => none

/-- `send_message_mgmt` returns and has taken `n` keys. -/
def sentMessages (n : Nat) (c : Process) : Option Process :=
  if c.place = .sending then some { c with place := .operaIface, keys := c.keys.drop n } else none

/-- The main loop, wherever it stands. -/
def inMain : Place → Bool
  | .operaIface => true
  | .addFriend => true
  | .sending => true
  | .mygetch next => inMain next
  | _ => false

/-- Whether the process is in `Read_client`: behind a request, or in `pthread_tcp`. -/
def reads (c : Process) : Bool :=
  match c.place with
  | .registerSent => true
  | .loginSent _ => true
  | place => inMain place && c.asking.isNone

/-- `Register_Iface_mgmt` behind its read. -/
def registerIfaceMgmt (got : Received) (c : Process) : Except Fault Process :=
  if got.optype = OP_REGISTER_SUCCESS then do
    let id ← loadInt got.buf 0
    return { c with place := if id = -1 then .mygetch .exited else .mygetch .welIface }
  else return { c with place := .mygetch .exited }

/-- `Login_Iface_mgmt` behind its read. -/
def loginIfaceMgmt (id : Int) (got : Received) (c : Process) : Except Fault Process :=
  if got.optype = OP_LOGIN_FEEDBACK then do
    let flag ← loadInt got.buf 0
    if flag = 0 then return { c with place := .operaIface, mineId := id }
    else if flag = -1 then return { c with place := .mygetch .loginIface }
    else if flag = -2 then return { c with place := .mygetch .exited }
    else if flag = -3 then return { c with place := .mygetch .loginIface }
    else return { c with place := .operaIface }
  else return { c with place := .mygetch .exited }

/-- `*pnode`, the 40 bytes of an `Online_node`: `id` at offset 0, `sockfd` at 4, `time` at 8, `addr` at 16 with
its port at 18 and its address at 20, `next` at 32. -/
def loadNode (buf : Option (List UInt8)) : Except Fault OnlineNode :=
  match buf with
  | none => .error .unset
  | some bytes =>
    if bytes.length < 40 then .error (.outside bytes.length)
    else .ok ⟨CInt.load bytes, CInt.load (bytes.drop 4),
      ⟨Bytes.load ((bytes.drop 20).take 4), Bytes.load ((bytes.drop 18).take 2)⟩⟩

/-- `allow_addf_action` of `client.c`, which prints only. -/
def allowAddfAction (buf : Option (List UInt8)) (c : Process) : Except Fault Process := do
  let id ← loadInt buf 0
  if id = c.mineId then
    let verdict ← loadInt buf 8
    -- the other texts have no id
    if verdict = 0 ∨ verdict = 1 ∨ verdict = 2 ∨ verdict = 4 then
      let _ ← loadInt buf 4
      return c
    else return c
  else return c

/-- `analysis_receive` of `client.c`. -/
def analysisReceive (got : Received) (c : Process) : Except Fault Process :=
  if got.optype = OP_ONLINE then do
    let node ← loadNode got.buf
    return { c with pOnline := c.pOnline.addList node }
  else if got.optype = OP_ALLOW_DISCONNECT then return { c with place := .exited }
  else if got.optype = OP_OFFLINE then do
    let id ← loadInt got.buf 0
    return { c with pOnline := c.pOnline.delList id .byId }
  else if got.optype = OP_ADD_FRIEND then do
    let src ← loadInt got.buf 0
    let dst ← loadInt got.buf 4
    return { c with asking := some (src, dst) }
  else if got.optype = OP_ALLOW_ADDF then allowAddfAction got.buf c
  else return c

/-- What a frame that was read does. -/
def receive (got : Received) (c : Process) : Except Fault Process :=
  match c.place with
  | .registerSent => c.registerIfaceMgmt got
  | .loginSent id => c.loginIfaceMgmt id got
  | _ => c.analysisReceive got

/-- `add_friend_action` of `client.c` behind the read of `result`. -/
def answer (result : UInt8) (c : Process) : Option (Process × Package) :=
  if inMain c.place then
    match c.asking with
    | none => none
    -- `y` or `Y`
    | some (src, dst) =>
      some ({ c with asking := none }, allowAddfPackage src dst (if result = 121 ∨ result = 89 then 1 else 0))
  else none

end Process

end UnixNote
