import UnixNote.Chat.Action
import UnixNote.Chat.Socket

/-!
# A received frame, byte by byte

`pthread_receive` of `server.c`: `Read_server`, then `analysis_receive` with the buffer that
`Read` allocated, or with a pointer that was never set when the frame has no payload.
Handlers load fields of the buffer without a look at its length; here every load is
checked, and one that is not inside the buffer is a `Fault`.
-/

namespace UnixNote.Server

open Socket (Received Transfer)

/-- A load that is no read of the buffer. -/
inductive Fault where
  /-- `buf` points nowhere: `Read` allocated nothing. -/
  | unset
  /-- The offset is behind the end of the buffer. -/
  | outside (k : Nat)
  deriving DecidableEq, Repr

/-! ## Loads -/

/-- The byte at offset `k`. -/
def loadByte (buf : Option (List UInt8)) (k : Nat) : Except Fault UInt8 :=
  match buf with
  | none => .error .unset
  | some bytes =>
    match bytes[k]? with
    | none => .error (.outside k)
    | some b => .ok b

/-- The `int` at offset `k`. -/
def loadInt (buf : Option (List UInt8)) (k : Nat) : Except Fault Int := do
  let b₀ ← loadByte buf k
  let b₁ ← loadByte buf (k + 1)
  let b₂ ← loadByte buf (k + 2)
  let b₃ ← loadByte buf (k + 3)
  return CInt.ofBytes b₀ b₁ b₂ b₃

/-- A string is read up to its NUL. -/
def scan : Nat → List UInt8 → Except Fault CStr
  | k, [] => .error (.outside k)
  | k, b :: bs => if b = 0 then .ok [] else (scan (k + 1) bs).map (b :: ·)

/-- The string at offset `k`, as `%s` reads it. -/
def loadStr (buf : Option (List UInt8)) (k : Nat) : Except Fault CStr :=
  match buf with
  | none => .error .unset
  | some bytes => scan k (bytes.drop k)

/-- Two strings are read up to the first difference, or up to the NUL of both. -/
def compare : Nat → CStr → List UInt8 → Except Fault Bool
  | k, _, [] => .error (.outside k)
  | _, [], b :: _ => .ok (b ≠ 0)
  | k, c :: cs, b :: bs => if c = b then compare (k + 1) cs bs else .ok true

/-- Whether `strcmp` finds `str` and the string at offset `k` different. -/
def strcmp (str : CStr) (buf : Option (List UInt8)) (k : Nat) : Except Fault Bool :=
  match buf with
  | none => .error .unset
  | some bytes => compare k str (bytes.drop k)

/-! ## The payload as the handlers read it -/

/-- `login_action` compares the password in the payload, at offset 14, with that of the user's
row, if its query returned one. -/
def comparePassword (env : Env) (s : Server) (id : Int) (buf : Option (List UInt8)) : Except Fault Bool :=
  if env.sql s.log (.selectUser id) then
    match s.db.selectUser id with
    | none => .ok true
    | some row => strcmp row.password buf 14
  else .ok true

/-- The loads of the handler that `analysis_receive` selects: `USER` has its `id` at offset 0,
`username` at 4 and `password` at 14, the other payloads are arrays of `int`. -/
def load (env : Env) (s : Server) (got : Received) : Except Fault Frame :=
  if got.optype = OP_REGISTER then do
    -- `write_to_sql` reads the two strings, and nobody reads the id
    let username ← loadStr got.buf 4
    let password ← loadStr got.buf 14
    return .register ⟨0, username, password⟩
  else if got.optype = OP_LOGIN then do
    let id ← loadInt got.buf 0
    -- the password is read only when there is one to compare it with
    let _ ← comparePassword env s id got.buf
    return .login ⟨id, [], cstr ((got.buf.getD []).drop 14)⟩
  else if got.optype = OP_HEARTBEAT then do
    let id ← loadInt got.buf 0
    return .heartbeat id
  else if got.optype = OP_OFFLINE then do
    let id ← loadInt got.buf 0
    return .offline id
  else if got.optype = OP_ADD_FRIEND then do
    let src ← loadInt got.buf 0
    let dst ← loadInt got.buf 4
    return .addFriend src dst
  else if got.optype = OP_ALLOW_ADDF then do
    let src ← loadInt got.buf 0
    let dst ← loadInt got.buf 4
    let verdict ← loadInt got.buf 8
    return .allowAddf src dst verdict
  else return .other got.optype

/-- `pthread_receive` on the connection `confd`. -/
def pthreadReceive (env : Env) (confd : Int) (t : Transfer) (stream : List UInt8) (s : Server) :
    Except Fault Server :=
  match Socket.read t stream with
  | none => .ok (s.readServerFail env confd)
  | some (got, _) => do
    let f ← load env s got
    return s.analysisReceive env confd f

end UnixNote.Server
