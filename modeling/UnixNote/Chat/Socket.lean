import UnixNote.Lib.CInt

/-!
# `Write` and `Read` of `socket.c`

A frame is a `PACK_HEADER` (`optype`, `lenth`) and the payload. `Write` hands a frame
to one `write(2)` and `Read` takes a header and then a payload with one `read(2)`
each; neither looks at how many bytes were transferred, as long as there were some.
How many is up to the kernel (`Sent.accepted`, `Transfer`), and memory that a short
`read(2)` did not fill keeps what it held before.
-/

namespace UnixNote.Socket

/-- A `PACK_HEADER` and the payload that follows it, as any peer may send them: a
declared length that is not positive has no payload. -/
structure Package where
  optype : Int
  lenth : Int
  data : List UInt8
  optypeInt : CInt.InRange optype
  lenthInt : CInt.InRange lenth
  size : data.length = lenth.toNat

namespace Package

/-- The bytes of the header. -/
def header (p : Package) : List UInt8 := CInt.store p.optype ++ CInt.store p.lenth

/-- The bytes of the frame. -/
def frame (p : Package) : List UInt8 := p.header ++ p.data

@[simp] theorem header_length (p : Package) : p.header.length = 8 := rfl

@[simp] theorem frame_length (p : Package) : p.frame.length = 8 + p.data.length := by
  rw [frame, List.length_append, header_length]

theorem load_header (p : Package) : CInt.load p.header = p.optype := CInt.load_store p.optypeInt

/-- The declared length is the second field of the header. -/
theorem load_drop_header (p : Package) : CInt.load (p.header.drop 4) = p.lenth := by
  have hlen : (CInt.store p.optype).length = 4 := rfl
  rw [header, List.drop_left' hlen, ← List.append_nil (CInt.store p.lenth), CInt.load_store p.lenthInt]

end Package

/-- A call of `Write` whose `write(2)` took `accepted` bytes. `Write` declares the length of
its payload. -/
structure Sent where
  package : Package
  accepted : Nat
  declared : 0 ≤ package.lenth

/-- The kernel takes some bytes of the frame, and not more than there are. -/
def Sent.Allowed (w : Sent) : Prop := 1 ≤ w.accepted ∧ w.accepted ≤ w.package.frame.length

instance (w : Sent) : Decidable w.Allowed := by unfold Sent.Allowed; infer_instance

/-- `Write`: its return value. `ret` is an `int`. -/
def write (w : Sent) : Int :=
  let ret := CInt.wrap w.accepted
  if ret < 0 then -1
  else if ret = 0 then -1
  else 0

/-- The bytes that calls of `Write` put on the stream. -/
def wire : List Sent → List UInt8
  | [] => []
  | w :: ws => w.package.frame.take w.accepted ++ wire ws

/-- What a call of `Read` meets: the return values of its two `read(2)`, and the contents
of `packheader` and of the memory from `malloc` before them. -/
structure Transfer where
  header : Int
  payload : Int
  stack : List UInt8
  heap : List UInt8

/-- What `Read` returns: the `optype`, and the buffer if it allocated one. -/
structure Received where
  optype : Int
  buf : Option (List UInt8)
  deriving DecidableEq

/-- A buffer that held `old` after a `read(2)` of `n` bytes. -/
def fill (old : List UInt8) (n : Nat) (stream : List UInt8) : List UInt8 := stream.take n ++ old.drop n

/-- `packheader` after the first `read(2)`. -/
def packheader (t : Transfer) (stream : List UInt8) : List UInt8 := fill t.stack t.header.toNat stream

/-- `packheader.optype`. -/
def optype (t : Transfer) (stream : List UInt8) : Int := CInt.load (packheader t stream)

/-- `packheader.lenth`. -/
def lenth (t : Transfer) (stream : List UInt8) : Int := CInt.load ((packheader t stream).drop 4)

/-- `Read`: what it returned and the stream behind it, or `none` when it returns -1. -/
def read (t : Transfer) (stream : List UInt8) : Option (Received × List UInt8) :=
  if t.header < 0 then none
  else if t.header = 0 then none
  else
    let rest := stream.drop t.header.toNat
    if 0 < lenth t stream then
      if t.payload < 0 then none
      else if t.payload = 0 then none
      else some (⟨optype t stream, some (fill t.heap t.payload.toNat rest)⟩, rest.drop t.payload.toNat)
    else some (⟨optype t stream, none⟩, rest)

/-- The kernel returns no more bytes than were asked for, and none that are not on the
stream; the buffers have the sizes the code gives them. -/
structure Transfer.Allowed (t : Transfer) (stream : List UInt8) : Prop where
  header_le : t.header ≤ 8
  header_sent : t.header ≤ stream.length
  stack_size : t.stack.length = 8
  payload_le : 0 < lenth t stream → t.payload ≤ lenth t stream
  payload_sent : 0 < lenth t stream → t.payload ≤ (stream.drop t.header.toNat).length
  heap_size : 0 < lenth t stream → (t.heap.length : Int) = lenth t stream

/-- `Reads stream ts`: the calls `ts`, one after the other from `stream` on, all return 0. -/
inductive Reads : List UInt8 → List Transfer → Prop
  | nil {stream : List UInt8} : Reads stream []
  | cons {stream rest : List UInt8} {t : Transfer} {ts : List Transfer} {got : Received} :
      t.Allowed stream → read t stream = some (got, rest) → Reads rest ts → Reads stream (t :: ts)

end UnixNote.Socket
