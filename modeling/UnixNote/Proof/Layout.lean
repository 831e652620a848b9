import UnixNote.Chat.Display
import UnixNote.Proof.Editors

/-!
# The chat screen keeps its layout

The two display blocks start from different rows, and a redraw starts both from row 16; the message gets row
`15 - row_count` all the same, since the cursor stops at the top. What is on the screen is then changed in the
row of the message and in row 16 only.

* `run_redraw`: the screen as drawn.
* `run_block`: what a display block does below the row that it starts in.
* `Layout.display`, `Layout.key`: what the steps keep.
* `layout`: every run.
-/

namespace UnixNote.Display

open Keyboard (byte Ends Erases press)
open Pwdmgmt (Edit Keeps Visible)

variable {rows cols : Nat}

/-- A byte that shows in a cell. -/
def Shown (b : UInt8) : Prop := 32 ≤ b ∧ b ≠ 127

theorem byteOp_shown {line : List UInt8} (h : ∀ b ∈ line, Shown b) : line.map byteOp = line.map Op.put := by
  refine List.map_congr_left fun b hb => ?_
  have hlow := (h b hb).1
  have h8 : b ≠ 8 := by
    rintro rfl
    exact absurd hlow (by decide)
  have h10 : b ≠ 10 := by
    rintro rfl
    exact absurd hlow (by decide)
  rw [byteOp, if_neg h8, if_neg h10]

/-! ## Drawing -/

/-- The cells of the screen as drawn. -/
def drawn (r c : Nat) : UInt8 := if r = 15 ∧ c < 80 then 61 else 32

theorem run_redraw (hrows : 18 ≤ rows) (hcols : 80 ≤ cols) (t : Term rows cols) :
    t.run sendMessageIface = ⟨drawn, 16, 0⟩ := by
  have hclear : t.op .clear = ⟨fun _ _ => 32, 0, 0⟩ := rfl
  have hbar : List.replicate 80 (Op.put 61) = (List.replicate 80 61).map .put := List.map_replicate.symm
  have hcell : ((⟨fun _ _ => 32, 15, 0⟩ : Term rows cols).text (List.replicate 80 61)).cell = drawn := by
    funext r c
    show (if r = 15 ∧ 0 ≤ c ∧ c < 0 + (List.replicate 80 (61 : UInt8)).length then
      (List.replicate 80 61).getD (c - 0) 32 else 32) = if r = 15 ∧ c < 80 then 61 else 32
    rw [List.length_replicate, Nat.zero_add, Nat.sub_zero]
    by_cases hin : r = 15 ∧ c < 80
    · rw [if_pos ⟨hin.1, Nat.zero_le c, hin.2⟩, if_pos hin, List.getD_eq_getElem?_getD,
        List.getElem?_replicate_of_lt hin.2]
      rfl
    · rw [if_neg (by omega), if_neg hin]
  rw [sendMessageIface, Term.run_cons, Term.run_append, Term.run_append, hclear, Term.run_newlines _ 0 15 (by omega),
    hbar, Term.run_text _ _ (by rw [List.length_replicate]; show 0 + 80 ≤ cols; omega)]
  show Term.newline _ = _
  rw [Term.newline_of_lt (by show 15 + 1 < rows; omega), hcell]
  rfl

/-- **A display block from the row of its message**: the message is in the row, the rest of the screen but row 16 is
as it was, and the cursor is at the start of row 16. -/
theorem run_block (hrows : 18 ≤ rows) (hcols : 80 ≤ cols) (t : Term rows cols) {bs : List UInt8}
    (hline : ∀ b ∈ bs, Shown b) (hfit : t.col + bs.length ≤ cols) {rowCount : Int} (hrow : t.row + rowCount = 14)
    (hcount : 0 ≤ rowCount) :
    ∃ cell, t.run (Chat.block bs rowCount) = ⟨cell, 16, 0⟩ ∧
      (∀ r c, r ≠ 16 → r ≠ t.row → cell r c = t.cell r c) ∧
        ∀ j b, bs[j]? = some b → cell t.row (t.col + j) = b := by
  have hdown : (rowCount + 1).toNat = 15 - t.row := by omega
  have hspaces : List.replicate 75 (Op.put 32) = (List.replicate 75 32).map .put := List.map_replicate.symm
  let t₁ : Term rows cols := ⟨(t.text bs).cell, 16, 0⟩
  have h₁ : ((t.text bs).op .newline).op (.down (rowCount + 1).toNat) = t₁ := by
    have hnew : (t.text bs).op .newline = ⟨(t.text bs).cell, t.row + 1, 0⟩ :=
      Term.newline_of_lt (by show t.row + 1 < rows; omega)
    rw [hnew, hdown]
    show Term.mk _ (min (t.row + 1 + max 1 (15 - t.row)) (rows - 1)) (min 0 (cols - 1)) = _
    rw [show min (t.row + 1 + max 1 (15 - t.row)) (rows - 1) = 16 by omega, Nat.zero_min]
  have h₂ : ((t₁.text (List.replicate 75 32)).op (.up 1)).op .newline =
      ⟨(t₁.text (List.replicate 75 32)).cell, 16, 0⟩ := by
    have hup : (t₁.text (List.replicate 75 32)).op (.up 1) =
        ⟨(t₁.text (List.replicate 75 32)).cell, 15, min 75 (cols - 1)⟩ := rfl
    rw [hup]
    exact Term.newline_of_lt (by show 15 + 1 < rows; omega)
  refine ⟨(t₁.text (List.replicate 75 32)).cell, ?_, ?_, ?_⟩
  · rw [Chat.block, Term.run_append, byteOp_shown hline, Term.run_text t bs hfit, Term.run_cons, Term.run_cons, h₁,
      Term.run_append, hspaces, Term.run_text t₁ _ (by rw [List.length_replicate]; show 0 + 75 ≤ cols; omega)]
    exact h₂
  · intro r c h16 hr
    show (if r = 16 ∧ _ then _ else if r = t.row ∧ _ then _ else t.cell r c) = _
    rw [if_neg (fun h => h16 h.1), if_neg (fun h => hr h.1)]
  · intro j b hj
    have hlt : j < bs.length := (List.getElem?_eq_some_iff.1 hj).1
    show (if t.row = 16 ∧ _ then _ else if t.row = t.row ∧ t.col ≤ t.col + j ∧ t.col + j < t.col + bs.length then
      bs.getD (t.col + j - t.col) 32 else _) = b
    rw [if_neg (by omega), if_pos (by omega), Nat.add_sub_cancel_left, List.getD_eq_getElem?_getD, hj]
    rfl

/-! ## The messages on the screen -/

/-- The `=` line is on row 15, and the messages printed since it was drawn are above, in the order of their rows. -/
structure Screen (s : Chat rows cols) : Prop where
  count : 0 ≤ s.rowCount ∧ s.rowCount ≤ 15
  bar : ∀ c < 80, s.term.cell 15 c = 61
  shows : ∀ m ∈ s.printed, ∀ j b, m.text[j]? = some b → s.term.cell m.row (m.col + j) = b
  above : ∀ m ∈ s.printed, m.row < 15 - s.rowCount
  ordered : s.printed.Pairwise fun m m' => m.row < m'.row

/-- What is outside of row 16 is what matters. -/
theorem Screen.congr {s s' : Chat rows cols} (h : Screen s) (hcell : ∀ r c, r ≠ 16 → s'.term.cell r c = s.term.cell r c)
    (hcount : s'.rowCount = s.rowCount) (hprinted : s'.printed = s.printed) : Screen s' := by
  refine ⟨?_, fun c hc => ?_, fun m hm j b hj => ?_, ?_, ?_⟩
  · rw [hcount]
    exact h.count
  · rw [hcell 15 c (by decide)]
    exact h.bar c hc
  · rw [hprinted] at hm
    have habove := h.above m hm
    have hcount := h.count.1
    rw [hcell _ _ (by omega)]
    exact h.shows m hm j b hj
  · rw [hprinted, hcount]
    exact h.above
  · rw [hprinted]
    exact h.ordered

/-- The column that a display block starts from. -/
def Chat.startCol (s : Chat rows cols) : Nat := if s.rowCount ≤ 0 then 0 else s.term.col

/-- **After the redraw, if there is one, the message gets row `15 - row_count`**, whatever row the block started
from. -/
theorem Screen.redraw (hrows : 18 ≤ rows) (hcols : 80 ≤ cols) {s : Chat rows cols} (h : Screen s) {more : Nat}
    (hmore : 1 ≤ more) (hrow : s.term.row = 15 + more) :
    Screen s.redraw ∧ 1 ≤ s.redraw.rowCount ∧ s.redraw.term.col = s.startCol ∧
      (s.redraw.term.row - max 1 (s.redraw.rowCount + more).toNat : Nat) + s.redraw.rowCount = 15 := by
  have hcount := h.count
  by_cases hredraw : s.rowCount ≤ 0
  · have hterm := run_redraw hrows hcols s.term
    have heq : s.redraw = ⟨⟨drawn, 16, 0⟩, 15, s.input, []⟩ := by
      rw [Chat.redraw, if_pos hredraw, hterm]
    rw [heq, Chat.startCol, if_pos hredraw]
    have hfull : (0 : Int) ≤ 15 ∧ (15 : Int) ≤ 15 := by decide
    refine ⟨⟨hfull, fun c hc => if_pos ⟨rfl, hc⟩, nofun, nofun, .nil⟩, (by decide : (1 : Int) ≤ 15), rfl, ?_⟩
    show ((16 - max 1 ((15 : Int) + more).toNat : Nat) : Int) + 15 = 15
    omega
  · have heq : s.redraw = s := by rw [Chat.redraw, if_neg hredraw]
    rw [heq, Chat.startCol, if_neg hredraw, hrow]
    exact ⟨h, by omega, rfl, by omega⟩

/-- **A display block.** -/
theorem Screen.display (hrows : 18 ≤ rows) (hcols : 80 ≤ cols) {s : Chat rows cols} (h : Screen s) {more : Nat}
    (hmore : 1 ≤ more) (hrow : s.term.row = 15 + more) {line : List UInt8} (hline : ∀ b ∈ line, Shown b)
    (hcol : s.startCol < cols) (hfit : s.startCol + line.length ≤ cols) :
    Screen (s.display more line) ∧ (s.display more line).term.row = 16 ∧ (s.display more line).term.col = 0 ∧
      ∃ m, (s.display more line).printed = s.redraw.printed ++ [m] ∧ m.text = line := by
  obtain ⟨hscreen, hpos, hstart, hup⟩ := h.redraw hrows hcols hmore hrow
  have hcount := hscreen.count
  let t : Term rows cols := s.redraw.term.op (.up (s.redraw.rowCount + more).toNat)
  have htrow : (t.row : Int) + s.redraw.rowCount = 15 := hup
  have htcol : t.col = s.startCol := by
    show min s.redraw.term.col (cols - 1) = _
    rw [hstart]
    omega
  have hfourteen : (t.row : Int) + (s.redraw.rowCount - 1) = 14 := by omega
  obtain ⟨cell, hrun, hframe, hnew⟩ := run_block hrows hcols t hline (by rw [htcol]; exact hfit) hfourteen (by omega)
  have heq : s.display more line = ⟨⟨cell, 16, 0⟩, s.redraw.rowCount - 1, s.redraw.input,
      s.redraw.printed ++ [⟨t.row, t.col, line⟩]⟩ := by
    rw [← hrun]
    rfl
  have hnext : 0 ≤ s.redraw.rowCount - 1 ∧ s.redraw.rowCount - 1 ≤ 15 := by omega
  rw [heq]
  refine ⟨⟨hnext, fun c hc => ?_, fun m hm j b hj => ?_, fun m hm => ?_, ?_⟩,
    rfl, rfl, _, rfl, rfl⟩
  · show cell 15 c = 61
    rw [hframe 15 c (by decide) (by omega)]
    exact hscreen.bar c hc
  · rcases List.mem_append.1 hm with hm | hm
    · -- an earlier message is above
      have habove := hscreen.above m hm
      show cell m.row (m.col + j) = b
      rw [hframe _ _ (by omega) (by omega)]
      exact hscreen.shows m hm j b hj
    · obtain rfl := List.mem_singleton.1 hm
      exact hnew j b hj
  · show (m.row : Int) < 15 - (s.redraw.rowCount - 1)
    rcases List.mem_append.1 hm with hm | hm
    · have habove := hscreen.above m hm
      omega
    · obtain rfl := List.mem_singleton.1 hm
      show (t.row : Int) < _
      omega
  · refine List.pairwise_append.2 ⟨hscreen.ordered, List.pairwise_singleton _ _, fun m hm m' hm' => ?_⟩
    obtain rfl := List.mem_singleton.1 hm'
    have habove := hscreen.above m hm
    show m.row < t.row
    omega

/-! ## The line typed -/

/-- The screen with `kept` typed so far, and the cursor in row 16, no further than that is long. -/
structure Layout (kept : List UInt8) (s : Chat rows cols) : Prop where
  screen : Screen s
  row : s.term.row = 16
  col : s.term.col ≤ s.input.i
  typed : Keeps 76 s.input kept
  shown : ∀ b ∈ kept, Shown b

/-- The line that an action leaves under way. -/
def Act.typed (kept : List UInt8) : Act → List UInt8
  | .key ch => press 75 kept ch
  | .enter => []
  | .receive _ _ => kept

/-- What an action prints as a message. -/
def Act.text (kept : List UInt8) : Act → List UInt8
  | .key _ => []
  | .enter => [109, 105, 110, 101, 58] ++ kept
  | .receive id message => Chat.idLine id message

variable {kept : List UInt8}

theorem shown_byte {ch : Int} (h : 32 ≤ ch ∧ ch ≤ 126) : Shown (byte ch) := by
  have hnat : (byte ch).toNat = (ch % 256).toNat := by
    rw [byte, UInt8.toNat_ofNat']
    omega
  have h127 : byte ch ≠ 127 := by
    intro heq
    rw [heq] at hnat
    simp at hnat
    omega
  refine ⟨UInt8.le_iff_toNat_le.2 ?_, h127⟩
  rw [hnat]
  show 32 ≤ _
  omega

theorem press_shown {n : Nat} {kept : List UInt8} (h : ∀ b ∈ kept, Shown b) {ch : Int} (hch : Visible ch) :
    ∀ b ∈ press n kept ch, Shown b := by
  intro b hb
  unfold press at hb
  by_cases her : Erases ch
  · rw [if_pos her] at hb
    exact h b ((List.dropLast_sublist kept).subset hb)
  rw [if_neg her] at hb
  split at hb
  · rcases List.mem_append.1 hb with hb | hb
    · exact h b hb
    · obtain rfl := List.mem_singleton.1 hb
      exact shown_byte (hch.resolve_left her)
  · exact h b hb

/-- The cursor is in row 16 and at most in column `i`, and the other rows are as they were. -/
structure Quiet (t t' : Term rows cols) (i : Nat) : Prop where
  row : t'.row = 16
  col : t'.col ≤ i
  cell : ∀ r c, r ≠ 16 → t'.cell r c = t.cell r c

theorem Quiet.refl {t : Term rows cols} {i : Nat} (hrow : t.row = 16) (hcol : t.col ≤ i) : Quiet t t i :=
  ⟨hrow, hcol, fun _ _ _ => rfl⟩

theorem quiet_put {t : Term rows cols} {i : Nat} (hrow : t.row = 16) (hcol : t.col ≤ i) (hlt : t.col < cols)
    (b : UInt8) : Quiet t (t.op (.put b)) (i + 1) := by
  have hput : t.op (.put b) = _ := Term.put_of_lt hlt b
  rw [hput]
  exact ⟨hrow, Nat.succ_le_succ hcol, fun r c hr => if_neg fun hcell => hr (hcell.1.trans hrow)⟩

/-- Back, a blank, and back. -/
theorem quiet_erase {t : Term rows cols} {i : Nat} (hrow : t.row = 16) (hcol : t.col ≤ i) (hcols : 2 ≤ cols) :
    Quiet t (((t.op .back).op (.put 32)).op .back) (i - 1) := by
  have hback : (t.op .back).col = min t.col (cols - 1) - 1 := rfl
  have hput := quiet_put (t := t.op .back) hrow (i := i - 1) (by omega) (by omega) 32
  refine ⟨hput.row, ?_, hput.cell⟩
  have hle := hput.col
  show min ((t.op .back).op (.put 32)).col (cols - 1) - 1 ≤ i - 1
  omega

/-- **A key typed** stays in row 16. -/
theorem Layout.key (hcols : 80 ≤ cols) {s : Chat rows cols} (h : Layout kept s) {ch : Int} (hch : Visible ch) :
    Layout (press 75 kept ch) (s.step (.key ch)) := by
  have hkeeps := h.typed
  have htyped := hkeeps.flush.key id ch
  have hrow := h.row
  have hcol := h.col
  have hi := hkeeps.i_eq
  have hshort : kept.length ≤ 75 := hkeeps.short
  have hquiet : Quiet s.term (s.term.run ((Edit.key 76 id { s.input with echo := [] } ch).echo.map byteOp))
      (Edit.key 76 id { s.input with echo := [] } ch).i := by
    unfold Edit.key
    by_cases her : Erases ch
    · rw [if_pos her]
      by_cases hpos : 0 < s.input.i
      · rw [if_pos hpos]
        exact quiet_erase hrow hcol (by omega)
      · rw [if_neg hpos]
        exact .refl hrow hcol
    rw [if_neg her]
    by_cases hroom : (s.input.i : Int) < 76 - 1
    · rw [if_pos hroom]
      have hbyte : ([] ++ [id (byte ch)]).map byteOp = [.put (byte ch)] :=
        byteOp_shown (List.forall_mem_singleton.2 (shown_byte (hch.resolve_left her)))
      show Quiet s.term (s.term.run (([] ++ [id (byte ch)]).map byteOp)) (s.input.i + 1)
      rw [hbyte]
      exact quiet_put hrow hcol (by omega) (byte ch)
    · rw [if_neg hroom]
      exact .refl hrow hcol
  exact ⟨h.screen.congr hquiet.cell rfl rfl, hquiet.row, hquiet.col, htyped, press_shown h.shown hch⟩

/-- What `printf("%s")` takes from `RxData`. -/
theorem rxData_eq {s : Edit} {kept : List UInt8} (h : Holds s.data kept) (hshort : kept.length ≤ 75)
    (hshown : ∀ b ∈ kept, Shown b) : Chat.rxData s = kept := by
  have hfront : (List.range' 0 kept.length).map s.data = kept := by
    refine List.ext_getElem? fun j => ?_
    rw [List.getElem?_map, ← List.range_eq_range']
    by_cases hj : j < kept.length
    · rw [List.getElem?_range hj, List.getElem?_eq_getElem hj]
      exact congrArg some (h.1 j _ (List.getElem?_eq_getElem hj))
    · rw [List.getElem?_eq_none (by rw [List.length_range]; omega), List.getElem?_eq_none (by omega)]
      rfl
  have hrange : List.range 76 =
      List.range' 0 kept.length ++ kept.length :: List.range' (kept.length + 1) (75 - kept.length) := by
    rw [← List.range'_succ, List.range_eq_range', show 76 = kept.length + (75 - kept.length + 1) by omega,
      ← List.range'_append_1, Nat.zero_add]
  have hnul : ∀ b ∈ kept, decide (b ≠ 0) = true := by
    intro b hb
    refine decide_eq_true ?_
    rintro rfl
    exact absurd (hshown 0 hb).1 (by decide)
  rw [Chat.rxData, hrange, List.map_append, hfront, List.map_cons, h.2, Keyboard.takeWhile_nul]
  exact List.takeWhile_eq_self_iff.2 hnul

/-- **The line sent.** -/
theorem Layout.enter (hrows : 18 ≤ rows) (hcols : 80 ≤ cols) {s : Chat rows cols} (h : Layout kept s) :
    Layout [] (s.step .enter) ∧ (s.step .enter).term.col = 0 ∧
      ∃ m, (s.step .enter).printed = s.redraw.printed ++ [m] ∧ m.text = [109, 105, 110, 101, 58] ++ kept := by
  have hkeeps := h.typed
  have hshown := h.shown
  have hrow := h.row
  have hshort : kept.length ≤ 75 := hkeeps.short
  let s₁ := s.type Edit.finish
  have hterm : s₁.term = ⟨s.term.cell, 17, 0⟩ := by
    have hnew : s.term.newline = ⟨s.term.cell, s.term.row + 1, 0⟩ := Term.newline_of_lt (by omega)
    rw [hrow] at hnew
    exact hnew
  have hscreen : Screen s₁ := h.screen.congr (fun r c _ => by rw [hterm]) rfl rfl
  have hdata : Chat.rxData s₁.input = kept :=
    rxData_eq (hkeeps.flush.finish (by decide)).1 hshort hshown
  have hstart : s₁.startCol = 0 := by
    rw [Chat.startCol, hterm]
    exact ite_self 0
  have hline : ∀ b ∈ [109, 105, 110, 101, 58] ++ kept, Shown b := by
    have hmine : ∀ b ∈ ([109, 105, 110, 101, 58] : List UInt8), 32 ≤ b ∧ b ≠ 127 := by simp
    exact List.forall_mem_append.2 ⟨hmine, hshown⟩
  have hfit : s₁.startCol + ([109, 105, 110, 101, 58] ++ kept).length ≤ cols := by
    rw [hstart, List.length_append]
    show 0 + (5 + kept.length) ≤ cols
    omega
  obtain ⟨hscreen', hrow', hcol', hprinted⟩ := hscreen.display hrows hcols (by decide : 1 ≤ 2) (by rw [hterm]) hline
    (by rw [hstart]; omega) hfit
  have hsent : s₁.sent = s₁.display 2 ([109, 105, 110, 101, 58] ++ kept) := by rw [Chat.sent, hdata]
  have hstep : s.step .enter = { s₁.display 2 ([109, 105, 110, 101, 58] ++ kept) with
      input := .start (s₁.display 2 ([109, 105, 110, 101, 58] ++ kept)).input.data } := by
    rw [← hsent]
    rfl
  have hprinted₁ : s₁.redraw.printed = s.redraw.printed := by
    show (if s.rowCount ≤ 0 then _ else s₁).printed = (if s.rowCount ≤ 0 then _ else s).printed
    by_cases h0 : s.rowCount ≤ 0
    · rw [if_pos h0, if_pos h0]
    · rw [if_neg h0, if_neg h0]
      rfl
  rw [hstep, ← hprinted₁]
  refine ⟨⟨hscreen'.congr (fun _ _ _ => rfl) rfl rfl, hrow', ?_, Keeps.start _, nofun⟩, hcol', hprinted⟩
  exact Nat.le_of_eq hcol'

/-- **A message received.** -/
theorem Layout.receive (hrows : 18 ≤ rows) (hcols : 80 ≤ cols) {s : Chat rows cols} (h : Layout kept s) {id : Int}
    {message : List UInt8} (hline : ∀ b ∈ Chat.idLine id message, Shown b)
    (hfit : s.startCol + (Chat.idLine id message).length ≤ cols) :
    Layout kept (s.step (.receive id message)) ∧ (s.step (.receive id message)).term.col = 0 ∧
      ∃ m, (s.step (.receive id message)).printed = s.redraw.printed ++ [m] ∧ m.text = Chat.idLine id message := by
  have hcol : s.startCol < cols := by
    have hi := h.typed.i_eq
    have hshort : kept.length ≤ 75 := h.typed.short
    have hle := h.col
    unfold Chat.startCol
    split <;> omega
  obtain ⟨hscreen, hrow, hcol', hprinted⟩ := h.screen.display hrows hcols (by decide : 1 ≤ 1) h.row hline hcol hfit
  have hinput : (s.display 1 (Chat.idLine id message)).input = s.input := by
    show s.redraw.input = s.input
    unfold Chat.redraw
    split <;> rfl
  have htyped : Keeps 76 (s.display 1 (Chat.idLine id message)).input kept := by rw [hinput]; exact h.typed
  have hzero : (s.display 1 (Chat.idLine id message)).term.col ≤ (s.display 1 (Chat.idLine id message)).input.i := by
    rw [show (s.display 1 (Chat.idLine id message)).term.col = 0 from hcol']
    exact Nat.zero_le _
  exact ⟨⟨hscreen, hrow, hzero, htyped, h.shown⟩, hcol', hprinted⟩

/-! ## Runs -/

/-- The keys show or erase, and a message received shows and fits into the row from where it starts. -/
def Fits (s : Chat rows cols) : Act → Prop
  | .key ch => Visible ch
  | .enter => True
  | .receive id message => (∀ b ∈ Chat.idLine id message, Shown b) ∧
      s.startCol + (Chat.idLine id message).length ≤ cols

/-- A message is sent or received. -/
def Act.IsMessage : Act → Prop
  | .key _ => False
  | _ => True

theorem Layout.start (hrows : 18 ≤ rows) (hcols : 80 ≤ cols) {s : Chat rows cols} (h : s.Init) : Layout [] s := by
  obtain ⟨t, data, rowCount, hlow, hhigh, rfl⟩ := h
  rw [run_redraw hrows hcols t]
  have hscreen : Screen (⟨⟨drawn, 16, 0⟩, rowCount, .start data, []⟩ : Chat rows cols) :=
    ⟨⟨hlow, hhigh⟩, fun c hc => if_pos ⟨rfl, hc⟩, nofun, nofun, .nil⟩
  exact ⟨hscreen, rfl, Nat.zero_le _, Keeps.start data, nofun⟩

/-- What a step keeps, where it leaves the cursor, and what it prints. -/
theorem Layout.step (hrows : 18 ≤ rows) (hcols : 80 ≤ cols) {s : Chat rows cols} (h : Layout kept s) {a : Act}
    (ha : Fits s a) :
    Layout (a.typed kept) (s.step a) ∧ (a.IsMessage → (s.step a).term.row = 16 ∧ (s.step a).term.col = 0 ∧
      ∃ m, (s.step a).printed = s.redraw.printed ++ [m] ∧ m.text = a.text kept) ∧
      (¬ a.IsMessage → (s.step a).printed = s.printed) := by
  cases a with
  | key ch => exact ⟨h.key hcols ha, fun hm => hm.elim, fun _ => rfl⟩
  | enter =>
    obtain ⟨hlayout, hcol, hprinted⟩ := h.enter hrows hcols
    exact ⟨hlayout, fun _ => ⟨hlayout.row, hcol, hprinted⟩, fun hm => (hm trivial).elim⟩
  | receive id message =>
    obtain ⟨hlayout, hcol, hprinted⟩ := h.receive hrows hcols ha.1 ha.2
    exact ⟨hlayout, fun _ => ⟨hlayout.row, hcol, hprinted⟩, fun hm => (hm trivial).elim⟩

/-- The line under way after a run: what was typed since the last one was sent. -/
def typedLine (tr : List (Chat rows cols × Act)) : List UInt8 := tr.foldl (fun kept x => x.2.typed kept) []

/-- **In every run of the chat** the messages since the last redraw are on rows of their own in 0..14, in order, with
the `=` line below them; a message leaves the cursor at the start of row 16, and adds itself to those on the screen
unless it had to redraw. It is the line typed behind `mine:`, or the one received behind the id of its sender. -/
theorem layout (hrows : 18 ≤ rows) (hcols : 80 ≤ cols) {tr : List (Chat rows cols × Act)} {s : Chat rows cols}
    (hr : (chat rows cols).Run Fits tr s) :
    Layout (typedLine tr) s ∧ ∀ a, Fits s a → Layout (a.typed (typedLine tr)) (s.step a) ∧
      (a.IsMessage → (s.step a).term.row = 16 ∧ (s.step a).term.col = 0 ∧
        ∃ m, (s.step a).printed = s.redraw.printed ++ [m] ∧ m.text = a.text (typedLine tr)) ∧
      (¬ a.IsMessage → (s.step a).printed = s.printed) := by
  have hs : Layout (typedLine tr) s := by
    refine hr.history (I := fun tr s => Layout (typedLine tr) s) (fun s hs => Layout.start hrows hcols hs) ?_
    intro tr s a s' h ha hstep
    rw [show s' = s.step a from hstep, typedLine, List.foldl_append]
    exact (h.step hrows hcols ha).1
  exact ⟨hs, fun a ha => hs.step hrows hcols ha⟩

/-- The screen drawn on a blank terminal, with no row left. -/
def blank : Chat 18 80 := ⟨(⟨fun _ _ => 32, 0, 0⟩ : Term 18 80).run sendMessageIface, 0, .start (fun _ => 0), []⟩

/-- `h` is typed and sent. -/
theorem layout_h :
    Layout [] ((blank.step (.key 104)).step .enter) ∧ ((blank.step (.key 104)).step .enter).term.row = 16 ∧
      ∃ m, ((blank.step (.key 104)).step .enter).printed = (blank.step (.key 104)).redraw.printed ++ [m] ∧
        m.text = [109, 105, 110, 101, 58, 104] := by
  have hinit : blank.Init := ⟨_, _, 0, by decide, by decide, rfl⟩
  have hkey : Fits blank (.key 104) := Or.inr (by decide)
  have hrun : (chat 18 80).Run Fits ([] ++ [(blank, .key 104)]) (blank.step (.key 104)) := .next (.start hinit) hkey rfl
  obtain ⟨hlayout, hmessage, -⟩ := (layout (by decide) (by decide) hrun).2 .enter trivial
  obtain ⟨hrow, -, m, hprinted, htext⟩ := hmessage trivial
  exact ⟨hlayout, hrow, m, hprinted, htext⟩

end UnixNote.Display
