import UnixNote.Chat.Pwdmgmt
import UnixNote.Lib.Runs
import UnixNote.Lib.Terminal

/-!
# The chat screen of `client.c`

`send_message_mgmt` and `pthread_udp` move the cursor by `row_count` rows up, print a message and come back. A
step is a key typed, the line sent or a message received, each handled to its end.
-/

namespace UnixNote.Display

open Keyboard (Erases)
open Pwdmgmt (Edit)

/-- What a byte printed does to the terminal. -/
def byteOp (b : UInt8) : Op := if b = 8 then .back else if b = 10 then .newline else .put b

/-- `send_message_Iface` -/
def sendMessageIface : List Op :=
  .clear :: (List.replicate 15 .newline ++ (List.replicate 80 (.put 61) ++ [.newline]))

/-- A message, and the cell that it was printed from. -/
structure Printed where
  row : Nat
  col : Nat
  text : List UInt8

structure Chat (rows cols : Nat) where
  term : Term rows cols
  rowCount : Int
  /-- `data_input_msg(RxData, 76)`, under way. -/
  input : Edit
  /-- The messages printed since the screen was drawn. -/
  printed : List Printed

variable {rows cols : Nat}

namespace Chat

/-- `if(row_count <= 0) { row_count = 15; send_message_Iface(); }` -/
def redraw (s : Chat rows cols) : Chat rows cols :=
  if s.rowCount ≤ 0 then { s with rowCount := 15, term := s.term.run sendMessageIface, printed := [] } else s

/-- `printf("..\n"); MOVEDOWN(row_count+1);`, 75 blanks, `MOVEUP(1); printf("\n");` -/
def block (line : List UInt8) (rowCount : Int) : List Op :=
  line.map byteOp ++ (.newline :: .down (rowCount + 1).toNat :: (List.replicate 75 (.put 32) ++ [.up 1, .newline]))

/-- The display block, which goes up by `row_count` rows and `more`. -/
def display (more : Int) (line : List UInt8) (s : Chat rows cols) : Chat rows cols :=
  let s := s.redraw
  let term := s.term.op (.up (s.rowCount + more).toNat)
  let rowCount := s.rowCount - 1
  { s with
    term := term.run (block line rowCount)
    rowCount := rowCount
    printed := s.printed ++ [⟨term.row, term.col, line⟩] }

/-- The C string in `RxData`. -/
def rxData (s : Edit) : List UInt8 := ((List.range 76).map s.data).takeWhile (· ≠ 0)

/-- The display block of `send_message_mgmt`, the same in the modes S, M and A. -/
def sent (s : Chat rows cols) : Chat rows cols := s.display 2 ([109, 105, 110, 101, 58] ++ rxData s.input)

/-- `id%d:%s` -/
def idLine (id : Int) (message : List UInt8) : List UInt8 :=
  [105, 100] ++ (toString id).toList.map (fun c => UInt8.ofNat c.toNat) ++ [58] ++ message

/-- The display block of `pthread_udp` with `iniface` set. -/
def received (id : Int) (message : List UInt8) (s : Chat rows cols) : Chat rows cols := s.display 1 (idLine id message)

end Chat

inductive Act where
  | key (ch : Int)
  /-- The key that ends the line, and what follows in `send_message_mgmt`. -/
  | enter
  | receive (id : Int) (message : List UInt8)

namespace Chat

/-- What an editor has written since goes to the terminal. -/
def type (s : Chat rows cols) (f : Edit → Edit) : Chat rows cols :=
  let input := f { s.input with echo := [] }
  { s with input := input, term := s.term.run (input.echo.map byteOp) }

def step (s : Chat rows cols) : Act → Chat rows cols
  | .key ch => s.type (Edit.key 76 id · ch)
  | .enter =>
    let s := (s.type Edit.finish).sent
    { s with input := .start s.input.data }
  | .receive id message => s.received id message

/-- The screen as drawn, with any `row_count` from 0 to 15. -/
def Init (s : Chat rows cols) : Prop :=
  ∃ (t : Term rows cols) (data : Nat → UInt8) (rowCount : Int), 0 ≤ rowCount ∧ rowCount ≤ 15 ∧
    s = ⟨t.run sendMessageIface, rowCount, .start data, []⟩

end Chat

/-- The chat as a system: the keys typed and the messages that come in. -/
def chat (rows cols : Nat) : Lts (Chat rows cols) Act where
  init := Chat.Init
  step s a s' := s' = s.step a

end UnixNote.Display
