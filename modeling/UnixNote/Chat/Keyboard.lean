import UnixNote.Chat.Payload

/-!
# The line editors of `pwdmgmt.c`

A key is what `getchar` returns: a byte, or -1 at the end of the input. The editors write into an
array of the caller, at an index that stays below its length. Keys that nobody has typed yet are
waited for.
-/

namespace UnixNote.Keyboard

/-- The `char` a key is stored as. -/
def byte (ch : Int) : UInt8 := UInt8.ofNat (ch % 256).toNat

/-- `'\r'`, `'\n'` or `'\t'`. -/
def Ends (ch : Int) : Prop := ch = 13 ∨ ch = 10 ∨ ch = 9

instance : DecidablePred Ends := fun ch => inferInstanceAs (Decidable (ch = 13 ∨ ch = 10 ∨ ch = 9))

/-- `'\b'` or 127. -/
def Erases (ch : Int) : Prop := ch = 8 ∨ ch = 127

instance : DecidablePred Erases := fun ch => inferInstanceAs (Decidable (ch = 8 ∨ ch = 127))

/-- The loop of the editors on `data[n + 1]`, with the index `i`: the value returned, the array and
the keys left over. Where `escape` is set, the escape key returns -1 at once. -/
def edit (escape : Bool) {n : Nat} : Vector UInt8 (n + 1) → Fin (n + 1) → List Int →
    Option (Int × Vector UInt8 (n + 1) × List Int)
  | _, _, [] => none
  | data, i, ch :: keys =>
    if Ends ch then some (0, data.set i 0, keys)
    else if escape ∧ ch = 27 then some (-1, data, keys)
    else if Erases ch then edit escape data ⟨i - 1, by omega⟩ keys
    else if h : i.val < n then edit escape (data.set i (byte ch)) ⟨i + 1, by omega⟩ keys
    else edit escape data i keys

/-- `data_input(data, n + 1)`. -/
def dataInput {n : Nat} (data : Vector UInt8 (n + 1)) (keys : List Int) :
    Option (Int × Vector UInt8 (n + 1) × List Int) :=
  edit false data 0 keys

/-- `data_input_msg(data, n + 1)`. -/
def dataInputMsg {n : Nat} (data : Vector UInt8 (n + 1)) (keys : List Int) :
    Option (Int × Vector UInt8 (n + 1) × List Int) :=
  edit true data 0 keys

/-- The C string in an array. -/
def string {n : Nat} (data : Vector UInt8 n) : CStr := data.toList.takeWhile (· ≠ 0)

/-- `isspace`. -/
def isSpace (b : UInt8) : Bool := b = 32 ∨ 9 ≤ b ∧ b ≤ 13

/-- The number that the digits at the start of a string go on with. -/
def digits : Int → CStr → Int
  | n, [] => n
  | n, b :: bs => if 48 ≤ b ∧ b ≤ 57 then digits (10 * n + (b.toNat - 48 : Nat)) bs else n

/-- `atoi`, for a string that is too short to leave the range of an `int`. -/
def atoi (s : CStr) : Int :=
  match s.dropWhile isSpace with
  | 45 :: bs => -digits 0 bs
  | 43 :: bs => digits 0 bs
  | bs => digits 0 bs

end UnixNote.Keyboard
