import UnixNote.Chat.Payload

/-!
# `pthread_udp` of `client.c`

One buffer of 256 bytes takes every datagram: a longer one is cut off, behind a shorter one the
bytes of earlier ones stay. The message is printed with `%s` from offset 8, so it ends at the
first NUL there, in the buffer or in the memory behind it.
-/

namespace UnixNote.Udp

open Server (Fault scan)

/-- A datagram and where it came from. -/
structure Datagram where
  src : SockAddr
  bytes : List UInt8
  deriving DecidableEq, Repr

/-- `char buf[256]`. -/
structure Buffer where
  bytes : List UInt8
  size : bytes.length = 256

/-- `recvfrom(udpfd, &buf, 256, ..)`. -/
def recvfrom (d : Datagram) (buf : Buffer) : Buffer where
  bytes := d.bytes.take 256 ++ buf.bytes.drop (d.bytes.take 256).length
  size := by
    have := buf.size
    simp only [List.length_append, List.length_take, List.length_drop]
    omega

/-- What is shown for a datagram that is in the buffer: an id and the message, or nothing. `beyond`
is the memory behind the buffer. -/
def display (l : OnlineList) (src : SockAddr) (beyond : List UInt8) (buf : Buffer) :
    Option (Int × Except Fault CStr) :=
  let id := CInt.load buf.bytes
  match l.searchList id .byId with
  | none => none
  | some psrc =>
    if psrc.addr.port = src.port then some (id, scan 8 ((buf.bytes ++ beyond).drop 8)) else none

/-- One turn of the loop of `pthread_udp`: what it shows. -/
def pthreadUdp (l : OnlineList) (beyond : List UInt8) (buf : Buffer) (d : Datagram) :
    Option (Int × Except Fault CStr) :=
  display l d.src beyond (recvfrom d buf)

/-- The buffer after datagrams. -/
def received (buf : Buffer) (ds : List Datagram) : Buffer := ds.foldl (fun buf d => recvfrom d buf) buf

end UnixNote.Udp
