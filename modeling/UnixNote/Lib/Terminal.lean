import Mathlib.Logic.Function.Basic
import Mathlib.Data.List.Basic

/-!
# Terminals

A cell holds the byte that was put there, and a cell that was cleared holds a blank.

* `Line`: one line without an end, with `'\b'` moving left. `Line.of_erase`: `"\b \b"` takes the last byte off.
* `Term`: a grid with a cursor. A column that is the number of columns stands for the cursor on the last cell
  with a wrap pending: the next byte goes to the next row, a newline does not add one.
* `Term.run_text`: a text that fits into the row changes its own cells and nothing else.
-/

namespace UnixNote

/-! ## A line -/

structure Line where
  cells : Nat → UInt8
  col : Nat

namespace Line

/-- The line with a text and the cursor behind it. -/
def of (text : List UInt8) : Line := ⟨fun j => text.getD j 32, text.length⟩

def read (l : Line) (b : UInt8) : Line :=
  if b = 8 then { l with col := l.col - 1 } else ⟨Function.update l.cells l.col b, l.col + 1⟩

def reads (l : Line) (bs : List UInt8) : Line := bs.foldl read l

theorem reads_append (l : Line) (bs bs' : List UInt8) : l.reads (bs ++ bs') = (l.reads bs).reads bs' :=
  List.foldl_append

/-- One more byte changes one cell. -/
theorem getD_concat {text : List UInt8} (b : UInt8) {j : Nat} (hj : j ≠ text.length) :
    (text ++ [b]).getD j 32 = text.getD j 32 := by
  rw [List.getD_eq_getElem?_getD, List.getD_eq_getElem?_getD]
  by_cases hlt : j < text.length
  · rw [List.getElem?_append_left hlt]
  · have hlen : (text ++ [b]).length ≤ j := by
      rw [List.length_append, List.length_singleton]
      omega
    rw [List.getElem?_eq_none hlen, List.getElem?_eq_none (Nat.le_of_not_lt hlt)]

theorem of_read (text : List UInt8) {b : UInt8} (hb : b ≠ 8) : (of text).read b = of (text ++ [b]) := by
  have hcells : Function.update (of text).cells text.length b = (of (text ++ [b])).cells := by
    funext j
    show _ = (text ++ [b]).getD j 32
    by_cases hj : j = text.length
    · subst hj
      simp
    · rw [Function.update_of_ne hj, getD_concat b hj]
      rfl
  have hlen : text.length + 1 = (text ++ [b]).length := by rw [List.length_append, List.length_singleton]
  rw [read, if_neg hb]
  exact congr (congrArg Line.mk hcells) hlen

/-- **A byte is taken off**: back, a blank, and back. -/
theorem of_erase (text : List UInt8) (b : UInt8) : (of (text ++ [b])).reads [8, 32, 8] = of text := by
  have hcells : Function.update (of (text ++ [b])).cells text.length 32 = (of text).cells := by
    funext j
    show _ = text.getD j 32
    by_cases hj : j = text.length
    · subst hj
      simp
    · rw [Function.update_of_ne hj]
      exact getD_concat b hj
  have hcol : (of (text ++ [b])).col - 1 = text.length := by
    show (text ++ [b]).length - 1 = _
    rw [List.length_append, List.length_singleton, Nat.add_sub_cancel]
  show Line.mk (Function.update (of (text ++ [b])).cells ((of (text ++ [b])).col - 1) 32)
    ((of (text ++ [b])).col - 1 + 1 - 1) = of text
  rw [hcol, hcells]
  rfl

end Line

/-! ## A grid -/

/-- What a program does to a terminal. -/
inductive Op where
  | put (b : UInt8)
  | newline
  | back
  /-- `"\033[nA"` -/
  | up (n : Nat)
  /-- `"\033[nB"` -/
  | down (n : Nat)
  | clear
  deriving DecidableEq, Repr

structure Term (rows cols : Nat) where
  cell : Nat → Nat → UInt8
  row : Nat
  col : Nat

namespace Term

variable {rows cols : Nat}

/-- To the start of the next row. In the last row the rows move up. -/
def newline (t : Term rows cols) : Term rows cols :=
  if t.row + 1 < rows then { t with row := t.row + 1, col := 0 }
  else { t with cell := fun r c => if r + 1 < rows then t.cell (r + 1) c else 32, col := 0 }

def put (t : Term rows cols) (b : UInt8) : Term rows cols :=
  let t := if t.col < cols then t else t.newline
  { t with cell := fun r c => if r = t.row ∧ c = t.col then b else t.cell r c, col := t.col + 1 }

/-- One operation. The cursor stops at the top and at the bottom, and 0 rows are 1. -/
def op (t : Term rows cols) : Op → Term rows cols
  | .put b => t.put b
  | .newline => t.newline
  | .back => { t with col := min t.col (cols - 1) - 1 }
  | .up n => { t with row := t.row - max 1 n, col := min t.col (cols - 1) }
  | .down n => { t with row := min (t.row + max 1 n) (rows - 1), col := min t.col (cols - 1) }
  | .clear => ⟨fun _ _ => 32, 0, 0⟩

def run (t : Term rows cols) (ops : List Op) : Term rows cols := ops.foldl op t

/-- The cells of the row from the cursor on hold the text, and the cursor is behind it. -/
def text (t : Term rows cols) (bs : List UInt8) : Term rows cols where
  cell r c := if r = t.row ∧ t.col ≤ c ∧ c < t.col + bs.length then bs.getD (c - t.col) 32 else t.cell r c
  row := t.row
  col := t.col + bs.length

theorem newline_of_lt {t : Term rows cols} (h : t.row + 1 < rows) : t.newline = ⟨t.cell, t.row + 1, 0⟩ := if_pos h

theorem put_of_lt {t : Term rows cols} (h : t.col < cols) (b : UInt8) :
    t.put b = ⟨fun r c => if r = t.row ∧ c = t.col then b else t.cell r c, t.row, t.col + 1⟩ := by
  rw [put, if_pos h]

theorem run_append (t : Term rows cols) (ops ops' : List Op) : t.run (ops ++ ops') = (t.run ops).run ops' :=
  List.foldl_append

theorem run_cons (t : Term rows cols) (o : Op) (ops : List Op) : t.run (o :: ops) = (t.op o).run ops := rfl

theorem text_nil (t : Term rows cols) : t.text [] = t := by
  have hcell : (t.text []).cell = t.cell := by
    funext r c
    refine if_neg ?_
    rw [List.length_nil]
    omega
  show Term.mk (t.text []).cell t.row t.col = t
  rw [hcell]

/-- **A text that fits into the row** is put cell by cell. -/
theorem run_text (t : Term rows cols) (bs : List UInt8) (hfit : t.col + bs.length ≤ cols) :
    t.run (bs.map .put) = t.text bs := by
  induction bs generalizing t with
  | nil => exact t.text_nil.symm
  | cons b bs ih =>
    rw [List.length_cons] at hfit
    have hput : t.op (.put b) = ⟨fun r c => if r = t.row ∧ c = t.col then b else t.cell r c, t.row, t.col + 1⟩ :=
      put_of_lt (by omega) b
    have hcell : ((t.op (.put b)).text bs).cell = (t.text (b :: bs)).cell := by
      funext r c
      rw [hput]
      show (if r = t.row ∧ t.col + 1 ≤ c ∧ c < t.col + 1 + bs.length then bs.getD (c - (t.col + 1)) 32
        else if r = t.row ∧ c = t.col then b else t.cell r c) =
        if r = t.row ∧ t.col ≤ c ∧ c < t.col + (bs.length + 1) then (b :: bs).getD (c - t.col) 32 else t.cell r c
      by_cases hc : c = t.col
      · subst hc
        rw [if_neg (by omega)]
        by_cases hr : r = t.row
        · rw [if_pos ⟨hr, rfl⟩, if_pos (by omega), Nat.sub_self]
          rfl
        · rw [if_neg (by omega), if_neg (by omega)]
      by_cases hin : r = t.row ∧ t.col + 1 ≤ c ∧ c < t.col + 1 + bs.length
      · rw [if_pos hin, if_pos (by omega), show c - t.col = c - (t.col + 1) + 1 by omega, List.getD_cons_succ]
      · rw [if_neg hin, if_neg (by omega), if_neg (by omega)]
    rw [List.map_cons, run_cons, ih _ (by rw [hput]; show t.col + 1 + bs.length ≤ cols; omega)]
    have hcol : ((t.op (.put b)).text bs).col = t.col + (bs.length + 1) := by
      rw [hput]
      show t.col + 1 + bs.length = _
      omega
    have hrow : ((t.op (.put b)).text bs).row = t.row := by rw [hput]; rfl
    show Term.mk ((t.op (.put b)).text bs).cell ((t.op (.put b)).text bs).row ((t.op (.put b)).text bs).col = _
    rw [hcell, hcol, hrow]
    rfl

/-- Newlines from the start of a row. -/
theorem run_newlines (cell : Nat → Nat → UInt8) (row n : Nat) (h : row + n < rows) :
    (⟨cell, row, 0⟩ : Term rows cols).run (List.replicate n .newline) = ⟨cell, row + n, 0⟩ := by
  induction n generalizing row with
  | zero => rfl
  | succ n ih =>
    have hnext : (⟨cell, row, 0⟩ : Term rows cols).op .newline = ⟨cell, row + 1, 0⟩ :=
      newline_of_lt (show row + 1 < rows by omega)
    rw [List.replicate_succ, run_cons, hnext, ih (row + 1) (by omega), Nat.add_right_comm]
    rfl

end Term

end UnixNote
