import UnixNote.Lib.Heap
import UnixNote.Lib.Runs
import UnixNote.Chat.Types

/-!
# `linklist.c` on the heap

`OnlineList` is what the list holds; here are the pointers. Each loop of `del_list` and
`search_list` looks one node ahead, so that the predecessor of the match is at hand. The loops for
`BY_ID` and `BY_SOCKFD` differ in the compared field only.
-/

namespace UnixNote.Linklist

/-- The field of a node's contents that a search with `flag` compares. -/
def key : Flag → OnlineNode → Int
  | .byId, n => n.id
  | .bySockfd, n => n.sockfd

/-- `Create_list(phead)`. A new sentinel is at `a`, and `x` is what `malloc` left in it. -/
def createList (H : Heap OnlineNode) (phead : Option Nat) (a : Nat) (x : OnlineNode) : Heap OnlineNode × Nat :=
  match phead with
  | none => (H.malloc a ⟨x, none⟩, a)
  | some p => (H, p)

/-- `add_list`. `malloc` returns `pnode`. -/
def addList (H : Heap OnlineNode) (phead : Option Nat) (pnode : Nat) (ptemp : Cell OnlineNode) :
    Option (Heap OnlineNode) :=
  match phead with
  | none => none
  | some p => H.push p pnode ptemp

/-- `del_list`. -/
def delList (H : Heap OnlineNode) (phead : Option Nat) (fdId : Int) (flag : Flag) : Option (Heap OnlineNode) :=
  match phead with
  | none => some H
  | some p => Heap.unlink (fun n => key flag n = fdId) H.size p H

/-- `search_list`: the pointer it returns. -/
def searchList (H : Heap OnlineNode) (phead : Option Nat) (fdId : Int) (flag : Flag) : Option (Option Nat) :=
  match phead with
  | none => some none
  | some p => H.search (fun n => key flag n = fdId) H.size p

/-! ## Sequences of calls -/

/-- A call with its arguments, and for `add_list` the address that `malloc` returns in it. -/
inductive Call where
  | addList (ptemp : Cell OnlineNode) (pnode : Nat)
  | delList (fdId : Int) (flag : Flag)
  | searchList (fdId : Int) (flag : Flag)
  deriving DecidableEq

/-- `malloc` returns no address that is in use. -/
def Call.Fresh (H : Heap OnlineNode) : Call → Prop
  | .addList _ pnode => pnode ∉ H.cells
  | _ => True

instance (H : Heap OnlineNode) : (c : Call) → Decidable (c.Fresh H)
  | .addList _ pnode => inferInstanceAs (Decidable (pnode ∉ H.cells))
  | .delList _ _ => .isTrue trivial
  | .searchList _ _ => .isTrue trivial

/-- A call on the list at `phead`: the heap it leaves and the pointer it returns. -/
def Call.exec (H : Heap OnlineNode) (phead : Nat) : Call → Option (Heap OnlineNode × Option Nat)
  | .addList ptemp pnode => do
    let H ← Linklist.addList H (some phead) pnode ptemp
    some (H, none)
  | .delList fdId flag => do
    let H ← Linklist.delList H (some phead) fdId flag
    some (H, none)
  | .searchList fdId flag => do
    let p ← Linklist.searchList H (some phead) fdId flag
    some (H, p)

/-- The heap after `Create_list(NULL)`. -/
def created (phead : Nat) (x : OnlineNode) : Heap OnlineNode := (createList ⟨∅, []⟩ none phead x).1

/-- Calls one after the other on a list that `Create_list` made. -/
def lts (phead : Nat) (x : OnlineNode) : Lts (Heap OnlineNode) Call where
  init H := H = created phead x
  step H c H' := c.Fresh H ∧ ∃ r, c.exec H phead = some (H', r)

end UnixNote.Linklist
