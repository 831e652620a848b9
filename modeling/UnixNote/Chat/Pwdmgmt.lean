import UnixNote.Chat.Keyboard

/-!
# `pwdmgmt.c` with its screen

The editors of `Keyboard` with what they write on the screen and where they store. The keys are finitely many,
and behind them `getchar` returns -1 for ever. A loop is given the number of keys that it may read.
-/

namespace UnixNote.Pwdmgmt

open Keyboard (byte Ends Erases)

/-- `getchar`, and `mygetch` around it. -/
def mygetch : List Int → Int × List Int
  | [] => (-1, [])
  | ch :: keys => (ch, keys)

/-- `stdin_clr`: the keys left over. -/
def stdinClr : Nat → List Int → Option (List Int)
  | 0, _ => none
  | fuel + 1, keys =>
    let (ch, keys) := mygetch keys
    if ch ≠ 10 then stdinClr fuel keys else some keys

/-- The state of an editor: the array, the index, what was written on the screen, and where was stored. -/
structure Edit where
  data : Nat → UInt8
  i : Nat
  echo : List UInt8
  writes : List Nat

namespace Edit

def start (data : Nat → UInt8) : Edit := ⟨data, 0, [], []⟩

/-- `data[i] = b;` -/
def store (s : Edit) (b : UInt8) : Edit :=
  { s with data := fun j => if j = s.i then b else s.data j, writes := s.writes ++ [s.i] }

/-- The body of the loop: `shown` is the character put for the one stored. -/
def key (len : Int) (shown : UInt8 → UInt8) (s : Edit) (ch : Int) : Edit :=
  if Erases ch then
    if 0 < s.i then { s with i := s.i - 1, echo := s.echo ++ [8, 32, 8] } else s
  else if s.i < len - 1 then
    { s.store (byte ch) with i := s.i + 1, echo := s.echo ++ [shown (byte ch)] }
  else s

/-- `printf("\n"); data[i] = '\0';` -/
def finish (s : Edit) : Edit := { s.store 0 with echo := s.echo ++ [10] }

end Edit

/-- The loop of the editors, with the value returned and the keys left over. Where `escape` is set, the escape
key returns -1 at once. -/
def loop (len : Int) (shown : UInt8 → UInt8) (escape : Bool) : Nat → Edit → List Int → Option (Int × Edit × List Int)
  | 0, _, _ => none
  | fuel + 1, s, keys =>
    let (ch, keys) := mygetch keys
    if Ends ch then some (0, s.finish, keys)
    else if escape ∧ ch = 27 then some (-1, s, keys)
    else loop len shown escape fuel (s.key len shown ch) keys

/-- `password_input(password, len)` puts `*`. -/
def passwordInput (len : Int) (fuel : Nat) (password : Nat → UInt8) (keys : List Int) : Option (Edit × List Int) :=
  (loop len (fun _ => 42) false fuel (.start password) keys).map Prod.snd

/-- `data_input(data, len)` -/
def dataInput (len : Int) (fuel : Nat) (data : Nat → UInt8) (keys : List Int) : Option (Edit × List Int) :=
  (loop len id false fuel (.start data) keys).map Prod.snd

/-- `data_input_msg(data, len)` -/
def dataInputMsg (len : Int) (fuel : Nat) (data : Nat → UInt8) (keys : List Int) : Option (Int × Edit × List Int) :=
  loop len id true fuel (.start data) keys

end UnixNote.Pwdmgmt
