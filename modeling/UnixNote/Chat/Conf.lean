import UnixNote.Chat.Keyboard
import UnixNote.Lib.Arrays

/-!
# `conf_file_analysis` of `init.c`

The configuration is read in blocks of up to 1024 bytes into one array, and each block is scanned from
its first byte. Only the outer loop compares the index with the length of the block; the array holds
older bytes, or what it held when the call began, behind it.
-/

namespace UnixNote.Conf

open Keyboard (atoi)

/-- Why a call does not come back. -/
inductive Stop where
  /-- It looks at `buf[i]` behind the array. -/
  | behind
  /-- A loop was given too few turns. -/
  | fuel
  deriving DecidableEq, Repr

/-- What `ip` and `pport` point to. -/
structure Addr where
  ip : Nat → UInt8
  pport : UInt16

/-- `ip[0] = bs[0]; ip[1] = bs[1]; ..`. -/
def Addr.setIp (c : Addr) (bs : List UInt8) : Addr := { c with ip := fun j => bs.getD j (c.ip j) }

/-- `*pport = (unsigned short int)atoi(port)`, where `port` holds `bs` and a NUL. -/
def Addr.setPort (c : Addr) (bs : List UInt8) : Addr :=
  { c with pport := UInt16.ofInt (atoi (bs.takeWhile (· ≠ 0))) }

/-- `'\n'` or `' '`. -/
def Blank (b : UInt8) : Prop := b = 10 ∨ b = 32

instance : DecidablePred Blank := fun b => inferInstanceAs (Decidable (b = 10 ∨ b = 32))

/-- `while(buf[i] != '\n') i++;` -/
def comment (buf : List UInt8) : Nat → Nat → Probe Stop Nat
  | 0, _ => throw .fuel
  | fuel + 1, i => do
    let b ← probe .behind buf i
    if b = 10 then pure i else comment buf fuel (i + 1)

/-- `buf[i++]==k[0] && buf[i++]==k[1] && ..`, and the index behind the last byte compared. -/
def key (buf : List UInt8) : List UInt8 → Nat → Probe Stop (Bool × Nat)
  | [], i => pure (true, i)
  | c :: k, i => do
    let b ← probe .behind buf i
    if b = c then key buf k (i + 1) else pure (false, i + 1)

/-- `for(j=0; buf[i] does not stop it && j<n; j++, i++) ..[j] = buf[i];`, with the bytes copied. -/
def value (buf : List UInt8) (stop : UInt8 → Prop) [DecidablePred stop] : Nat → Nat → Probe Stop (List UInt8 × Nat)
  | n, i => do
    let b ← probe .behind buf i
    if stop b then pure ([], i)
    else
      match n with
      | 0 => pure ([], i)
      | n + 1 => do
        let (bs, i) ← value buf stop n (i + 1)
        pure (b :: bs, i)

/-- `p="` -/
def ipKey : List UInt8 := [112, 61, 34]

/-- `ort=` -/
def portKey : List UInt8 := [111, 114, 116, 61]

/-- One turn of the loop over a block: the next index and what was written, or `none` where the
function returns -1. -/
def turn (buf : List UInt8) (i : Nat) (c : Addr) : Probe Stop (Option (Nat × Addr)) := do
  let b ← probe .behind buf i
  -- `#`
  if b = 35 then
    let i ← comment buf buf.length (i + 1)
    pure (some (i + 1, c))
  else if Blank b then pure (some (i + 1, c))
  -- `i`
  else if b = 105 then
    let (same, i) ← key buf ipKey (i + 1)
    if same then
      let (bs, i) ← value buf (· = 34) 15 i
      pure (some (i + 1, c.setIp (bs ++ [0])))
    else pure (some (i + 1, c))
  -- `p`: the port is assigned behind the `if`, whether the key is right or not
  else if b = 112 then
    let (same, i) ← key buf portKey (i + 1)
    if same then
      let (bs, i) ← value buf Blank 5 i
      pure (some (i + 1, c.setPort bs))
    else pure (some (i + 1, c.setPort []))
  else pure none

/-- `for(int i=0; i<lenth; )`: whether the block is scanned to its end, and what was written. -/
def scan (buf : List UInt8) (lenth : Nat) : Nat → Nat → Addr → Probe Stop (Bool × Addr)
  | 0, _, _ => throw .fuel
  | fuel + 1, i, c =>
    if i < lenth then do
      match ← turn buf i c with
      | none => pure (false, c)
      | some (i, c) => scan buf lenth fuel i c
    else pure (true, c)

/-- The scan of a block from its first byte, with the accesses it makes. -/
def scanBlock (buf : List UInt8) (lenth : Nat) (c : Addr) : Except Stop ((Bool × Addr) × List Nat) :=
  scan buf lenth (lenth + 1) 0 c []

/-- What a call comes to: its result, what it has written, and for every block its length and the
accesses to it. -/
structure Result where
  ret : Int
  addr : Addr
  stderr : List String
  accesses : List (Nat × List Nat)

/-- `while((lenth = read(fd, buf, 1024)) > 0)`, with the blocks to come. -/
def analyse : Buf UInt8 1024 → List (Block UInt8 1024) → Addr → Except Stop Result
  | _, [], c => .ok ⟨0, c, [], []⟩
  | buf, b :: bs, c => do
    let buf := buf.read b
    let ((done, c), reads) ← scanBlock buf.bytes b.bytes.length c
    if done then
      let r ← analyse buf bs c
      return { r with accesses := (b.bytes.length, reads) :: r.accesses }
    else
      return ⟨-1, c, ["Analysis network configuration file failed!\n"], [(b.bytes.length, reads)]⟩

def SERVER_CONF : Int := 0
def CLIENT_CONF : Int := 1

/-- `conf_file_analysis(ip, pport, conf_type)`. A file that cannot be opened has the descriptor -1, and
`read` delivers nothing from it. -/
def confFileAnalysis (files : String → Option (List (Block UInt8 1024))) (confType : Int) (buf : Buf UInt8 1024)
    (c : Addr) : Except Stop Result :=
  if confType = SERVER_CONF then analyse buf ((files "./server.conf").getD []) c
  else if confType = CLIENT_CONF then analyse buf ((files "./client.conf").getD []) c
  else .ok ⟨-1, c, ["The argument conf_type is wrong\n"], []⟩

/-- `client_init` and `server_init` up to `struct_sockaddr_init`: the address they go on with, or `none`
where they exit. -/
def init (confType : Int) (files : String → Option (List (Block UInt8 1024))) (buf : Buf UInt8 1024) (port : UInt16) :
    Except Stop (Option Addr) := do
  let r ← confFileAnalysis files confType buf ⟨fun _ => 0, port⟩
  -- `!conf_file_analysis(..) == 0`
  if (if r.ret = 0 then 1 else 0) = 0 then return none else return some r.addr

def clientInit := init CLIENT_CONF

def serverInit := init SERVER_CONF

end UnixNote.Conf
