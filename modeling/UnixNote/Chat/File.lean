import Mathlib.Algebra.Group.Nat.Defs
import UnixNote.Chat.Socket
import UnixNote.Chat.Types

/-!
# `Write_file`, and calls of both encoders on one stream

Both encoders fill a block from `malloc` field by field and hand it to one `write(2)`. `Write_file`
puts a `FILE_HEADER` of 36 bytes before its data and declares the length of both; what `strcpy`
leaves of the 20 bytes of `filename` is as `malloc` returned it.
-/

namespace UnixNote.Socket

/-- `bytes` are stored at offset `k`. -/
def put (mem : List UInt8) (k : Nat) (bytes : List UInt8) : List UInt8 :=
  mem.take k ++ bytes ++ mem.drop (k + bytes.length)

/-- A call of `Write`; `mem` is what `malloc` returned. -/
structure WriteCall where
  optype : Int
  buf : List UInt8
  mem : List UInt8
  optypeInt : CInt.InRange optype
  short : buf.length < 2 ^ 31 - 64
  size : mem.length = buf.length + 8

/-- The block that `Write` hands to `write(2)`. -/
def WriteCall.bytes (w : WriteCall) : List UInt8 :=
  let m := put w.mem 0 (CInt.store w.optype)
  let m := put m 4 (CInt.store w.buf.length)
  put m 8 w.buf

/-- A call of `Write_file` with the bytes behind its pointer; `mem` is what `malloc` returned. -/
structure FileCall where
  optype : Int
  filename : CStr
  srcId : Int
  destId : Int
  buf : List UInt8
  mem : List UInt8
  optypeInt : CInt.InRange optype
  srcInt : CInt.InRange srcId
  destInt : CInt.InRange destId
  noNul : 0 ∉ filename
  fits : filename.length ≤ 19
  short : buf.length < 2 ^ 31 - 64
  size : mem.length = buf.length + 8 + 36

/-- The block that `Write_file` hands to `write(2)`. -/
def FileCall.bytes (f : FileCall) : List UInt8 :=
  let m := put f.mem 0 (CInt.store OP_FILE)
  let m := put m 4 (CInt.store (f.buf.length + 36))
  let m := put m 8 (CInt.store f.optype)
  let m := put m 12 (f.filename ++ [0])
  let m := put m 32 (CInt.store f.srcId)
  let m := put m 36 (CInt.store f.destId)
  let m := put m 40 (CInt.store f.buf.length)
  put m 44 f.buf

/-- A call of either. -/
inductive Call where
  | write (w : WriteCall)
  | writeFile (f : FileCall)

def Call.bytes : Call → List UInt8
  | .write w => w.bytes
  | .writeFile f => f.bytes

/-- The stream after calls whose `write(2)` took everything. -/
def stream (cs : List Call) : List UInt8 := cs.flatMap Call.bytes

/-- Calls of `Read` one after the other: what they return and what is left, if all return 0. -/
def reads : List Transfer → List UInt8 → Option (List Received × List UInt8)
  | [], rest => some ([], rest)
  | t :: ts, rest => do
    let (got, rest) ← read t rest
    let (gots, rest) ← reads ts rest
    some (got :: gots, rest)

/-- Every `read(2)` of the calls transfers what it is asked for; the memory it goes to has the size
the code gives it. -/
def Requested : List Transfer → List UInt8 → Prop
  | [], _ => True
  | t :: ts, rest => t.header = 8 ∧ t.stack.length = 8 ∧
      (0 < lenth t rest → t.payload = lenth t rest ∧ (t.heap.length : Int) = lenth t rest) ∧
      Requested ts ((rest.drop 8).drop (lenth t rest).toNat)

end UnixNote.Socket
