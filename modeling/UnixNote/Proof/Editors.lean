import UnixNote.Chat.Pwdmgmt
import UnixNote.Lib.Arrays
import UnixNote.Lib.Terminal
import UnixNote.Proof.RoundTrip

/-!
# The line editors agree

* `Keeps.key`: the array and the index go with the line of `Keyboard.press`.
* `Shows.key`: so does the screen, for a key that shows or erases.
* `loop_ended`, `loop_escaped`: how the loop ends.
* `loop_edit`: the editors are those of `Keyboard`.
* `editors_agree`: the three editors against the line that was typed.
* `editors_return`: exactly when they come back.
-/

namespace UnixNote.Pwdmgmt

open Keyboard (byte Ends Erases press lineOf Pressed)

variable {len : Int} {shown : UInt8 → UInt8} {escape : Bool} {s : Edit} {kept : List UInt8} {keys body rest : List Int}
  {ch : Int} {fuel : Nat}

/-! ## The array -/

/-- The array begins with `kept`, and nothing was stored at `len` or behind it. -/
structure Keeps (len : Int) (s : Edit) (kept : List UInt8) : Prop where
  i_eq : s.i = kept.length
  short : kept.length ≤ (len - 1).toNat
  data : ∀ j b, kept[j]? = some b → s.data j = b
  writes : ∀ w ∈ s.writes, w < len

theorem Keeps.start (data : Nat → UInt8) : Keeps len (.start data) [] :=
  ⟨rfl, Nat.zero_le _, nofun, nofun⟩

theorem Keeps.flush (h : Keeps len s kept) : Keeps len { s with echo := [] } kept :=
  ⟨h.i_eq, h.short, h.data, h.writes⟩

/-- **A key** does to the array what it does to the line. -/
theorem Keeps.key (h : Keeps len s kept) (shown : UInt8 → UInt8) (ch : Int) :
    Keeps len (s.key len shown ch) (press (len - 1).toNat kept ch) := by
  have hi := h.i_eq
  have hshort := h.short
  unfold Edit.key press
  by_cases her : Erases ch
  · rw [if_pos her, if_pos her]
    by_cases hpos : 0 < s.i
    · rw [if_pos hpos]
      refine ⟨?_, ?_, ?_, h.writes⟩
      · rw [List.length_dropLast, ← hi]
      · rw [List.length_dropLast]
        omega
      · intro j b hj
        refine h.data j b ?_
        rw [List.getElem?_dropLast] at hj
        split at hj
        · exact hj
        · cases hj
    · have hnil : kept = [] := List.eq_nil_of_length_eq_zero (by omega)
      subst hnil
      rw [if_neg hpos]
      exact h
  rw [if_neg her, if_neg her]
  by_cases hroom : (s.i : Int) < len - 1
  · rw [if_pos hroom, if_pos (by omega)]
    refine ⟨?_, ?_, ?_, ?_⟩
    · rw [List.length_append, List.length_singleton, ← hi]
    · rw [List.length_append, List.length_singleton]
      omega
    · intro j b hj
      show (if j = s.i then byte ch else s.data j) = b
      by_cases hlast : j = s.i
      · rw [hlast, hi, List.getElem?_concat_length] at hj
        rw [if_pos hlast]
        exact Option.some.inj hj
      · rw [if_neg hlast]
        refine h.data j b ?_
        have hlt : j < (kept ++ [byte ch]).length := (List.getElem?_eq_some_iff.1 hj).1
        rw [List.length_append, List.length_singleton] at hlt
        rwa [List.getElem?_append_left (by omega)] at hj
    · intro w hw
      rcases List.mem_append.1 hw with hw | hw
      · exact h.writes w hw
      · obtain rfl := List.mem_singleton.1 hw
        omega
  · rw [if_neg hroom, if_neg (by omega)]
    exact h

theorem Keeps.line (h : Keeps len s kept) (shown : UInt8 → UInt8) (body : List Int) :
    Keeps len (body.foldl (Edit.key len shown) s) (body.foldl (press (len - 1).toNat) kept) := by
  induction body generalizing s kept with
  | nil => exact h
  | cons ch body ih => exact ih (h.key shown ch)

/-- The NUL is stored behind the line. -/
theorem Keeps.finish (hlen : 1 ≤ len) (h : Keeps len s kept) :
    Holds s.finish.data kept ∧ ∀ w ∈ s.finish.writes, w < len := by
  have hi := h.i_eq
  have hshort := h.short
  refine ⟨⟨fun j b hj => ?_, ?_⟩, fun w hw => ?_⟩
  · have hlt : j < kept.length := (List.getElem?_eq_some_iff.1 hj).1
    show (if j = s.i then 0 else s.data j) = b
    rw [if_neg (by omega)]
    exact h.data j b hj
  · exact if_pos hi.symm
  · rcases List.mem_append.1 hw with hw | hw
    · exact h.writes w hw
    · obtain rfl := List.mem_singleton.1 hw
      omega

/-! ## The screen -/

/-- A key that shows or erases. -/
def Visible (ch : Int) : Prop := Erases ch ∨ 32 ≤ ch ∧ ch ≤ 126

/-- On a line behind a prompt, the line typed. -/
def Shows (shown : UInt8 → UInt8) (prompt : List UInt8) (s : Edit) (kept : List UInt8) : Prop :=
  (Line.of prompt).reads s.echo = Line.of (prompt ++ kept.map shown)

theorem byte_visible (h : 32 ≤ ch ∧ ch ≤ 126) : byte ch ≠ 8 := by
  intro h8
  have hnat := congrArg UInt8.toNat h8
  rw [byte] at hnat
  simp at hnat
  omega

/-- **A key that shows or erases** does to the screen what it does to the line. -/
theorem Shows.key {prompt : List UInt8} (hk : Keeps len s kept) (h : Shows shown prompt s kept) (hch : Visible ch)
    (hshown : 32 ≤ ch ∧ ch ≤ 126 → shown (byte ch) ≠ 8) :
    Shows shown prompt (s.key len shown ch) (press (len - 1).toNat kept ch) := by
  have hi := hk.i_eq
  have hshort := hk.short
  unfold Edit.key press
  by_cases her : Erases ch
  · rw [if_pos her, if_pos her]
    rcases List.eq_nil_or_concat' kept with rfl | ⟨kept, b, rfl⟩
    · rw [if_neg (by rw [hi]; exact Nat.lt_irrefl 0)]
      exact h
    · rw [if_pos (by rw [hi, List.length_append]; exact Nat.zero_lt_succ _), List.dropLast_concat]
      rw [Shows] at h ⊢
      rw [Line.reads_append, h, List.map_append, List.map_singleton, ← List.append_assoc]
      exact Line.of_erase _ _
  rw [if_neg her, if_neg her]
  by_cases hroom : (s.i : Int) < len - 1
  · rw [if_pos hroom, if_pos (by omega)]
    rw [Shows] at h ⊢
    rw [Line.reads_append, h, List.map_append, List.map_singleton, ← List.append_assoc]
    exact Line.of_read _ (hshown (hch.resolve_left her))
  · rw [if_neg hroom, if_neg (by omega)]
    exact h

theorem Shows.line {prompt : List UInt8} (hk : Keeps len s kept) (h : Shows shown prompt s kept)
    (hbody : ∀ ch ∈ body, Visible ch) (hshown : ∀ ch, 32 ≤ ch ∧ ch ≤ 126 → shown (byte ch) ≠ 8) :
    Shows shown prompt (body.foldl (Edit.key len shown) s) (body.foldl (press (len - 1).toNat) kept) := by
  induction body generalizing s kept with
  | nil => exact h
  | cons ch body ih =>
    obtain ⟨hch, hrest⟩ := List.forall_mem_cons.1 hbody
    exact ih (hk.key shown ch) (h.key hk hch (hshown ch)) hrest

/-! ## The loop -/

/-- Keys that do not leave the loop. -/
def Stays (escape : Bool) (body : List Int) : Prop := ∀ ch ∈ body, ¬ Ends ch ∧ ¬ (escape = true ∧ ch = 27)

theorem stays_nil : Stays escape [] := nofun

theorem loop_body (hbody : Stays escape body) (s : Edit) (keys : List Int) :
    loop len shown escape (body.length + fuel) s (body ++ keys) =
      loop len shown escape fuel (body.foldl (Edit.key len shown) s) keys := by
  induction body generalizing s with
  | nil => rw [List.length_nil, Nat.zero_add]; rfl
  | cons ch body ih =>
    obtain ⟨hch, hrest⟩ := List.forall_mem_cons.1 hbody
    rw [List.length_cons, Nat.add_right_comm, List.cons_append, loop, mygetch]
    show (if Ends ch then _ else if escape = true ∧ ch = 27 then _ else _) = _
    rw [if_neg hch.1, if_neg hch.2]
    exact ih hrest _

/-- **The first terminator** ends the loop with 0. -/
theorem loop_ended (hbody : Stays escape body) (hch : Ends ch) (hf : body.length < fuel) (s : Edit) (rest : List Int) :
    loop len shown escape fuel s (body ++ ch :: rest) = some (0, (body.foldl (Edit.key len shown) s).finish, rest) := by
  obtain ⟨f, rfl⟩ : ∃ f, fuel = body.length + (f + 1) := ⟨fuel - body.length - 1, by omega⟩
  rw [loop_body hbody, loop, mygetch]
  exact if_pos hch

/-- **An escape key before it** ends the loop with -1. -/
theorem loop_escaped (hbody : Stays true body) (hf : body.length < fuel) (s : Edit) (rest : List Int) :
    loop len shown true fuel s (body ++ 27 :: rest) = some (-1, body.foldl (Edit.key len shown) s, rest) := by
  obtain ⟨f, rfl⟩ : ∃ f, fuel = body.length + (f + 1) := ⟨fuel - body.length - 1, by omega⟩
  rw [loop_body hbody, loop, mygetch]
  show (if Ends 27 then _ else if true = true ∧ (27 : Int) = 27 then _ else _) = _
  rw [if_neg (by decide), if_pos ⟨rfl, rfl⟩]

/-- At the end of the input the loop goes on. -/
theorem loop_starved (hkeys : Stays escape keys) (s : Edit) : loop len shown escape fuel s keys = none := by
  induction fuel generalizing s keys with
  | zero => rfl
  | succ fuel ih =>
    cases keys with
    | nil =>
      rw [loop, mygetch]
      show (if Ends (-1) then _ else if escape = true ∧ (-1 : Int) = 27 then _ else _) = _
      rw [if_neg (by decide), if_neg (by rintro ⟨-, h⟩; cases h)]
      exact ih hkeys _
    | cons ch keys =>
      obtain ⟨hch, hrest⟩ := List.forall_mem_cons.1 hkeys
      rw [loop, mygetch]
      show (if Ends ch then _ else if escape = true ∧ ch = 27 then _ else _) = _
      rw [if_neg hch.1, if_neg hch.2]
      exact ih hrest _

/-- The first key that leaves the loop. -/
theorem stays_or (escape : Bool) (keys : List Int) : Stays escape keys ∨
    ∃ body ch rest, keys = body ++ ch :: rest ∧ Stays escape body ∧ (Ends ch ∨ escape = true ∧ ch = 27) := by
  induction keys with
  | nil => exact Or.inl nofun
  | cons ch keys ih =>
    by_cases hch : Ends ch ∨ escape = true ∧ ch = 27
    · exact Or.inr ⟨[], ch, keys, rfl, nofun, hch⟩
    have hstay : ¬ Ends ch ∧ ¬ (escape = true ∧ ch = 27) := not_or.1 hch
    rcases ih with hkeys | ⟨body, c, rest, rfl, hbody, hc⟩
    · exact Or.inl (List.forall_mem_cons.2 ⟨hstay, hkeys⟩)
    · exact Or.inr ⟨ch :: body, c, rest, rfl, List.forall_mem_cons.2 ⟨hstay, hbody⟩, hc⟩

/-! ## The editors of `Keyboard` -/

/-- The array of an editor, and the front of the memory there. -/
def Same {n : Nat} (data : Vector UInt8 (n + 1)) (i : Fin (n + 1)) (s : Edit) : Prop :=
  s.i = i ∧ ∀ (j : Nat) (h : j < n + 1), s.data j = data[j]

theorem Same.set {n : Nat} {data : Vector UInt8 (n + 1)} {i : Fin (n + 1)} (h : Same data i s) (b : UInt8) (j : Nat)
    (hj : j < n + 1) : (s.store b).data j = (data.set i b)[j] := by
  show (if j = s.i then b else s.data j) = _
  rw [Vector.getElem_set, h.1, h.2 j hj]
  by_cases hji : j = i
  · rw [if_pos hji, if_pos hji.symm]
  · rw [if_neg hji, if_neg (Ne.symm hji)]

/-- **The loop is that of `Keyboard.edit`**, which does not come back at the end of the keys either. -/
theorem loop_edit {n : Nat} {data data' : Vector UInt8 (n + 1)} {i : Fin (n + 1)} {ret : Int} (h : Same data i s)
    (hrun : Keyboard.edit escape data i keys = some (ret, data', rest)) :
    ∃ s', loop (n + 1) shown escape keys.length s keys = some (ret, s', rest) ∧
      ∀ (j : Nat) (h : j < n + 1), s'.data j = data'[j] := by
  induction keys generalizing data i s with
  | nil => cases hrun
  | cons ch keys ih =>
    obtain ⟨hi, hdata⟩ := h
    rw [List.length_cons, loop, mygetch]
    rw [Keyboard.edit] at hrun
    show ∃ s', (if Ends ch then _ else if escape = true ∧ ch = 27 then _ else _) = _ ∧ _
    by_cases hch : Ends ch
    · rw [if_pos hch] at hrun ⊢
      obtain ⟨rfl, rfl, rfl⟩ : (0 : Int) = ret ∧ data.set i 0 = data' ∧ keys = rest := by simpa using hrun
      exact ⟨_, rfl, fun j hj => Same.set ⟨hi, hdata⟩ 0 j hj⟩
    rw [if_neg hch] at hrun ⊢
    by_cases hesc : escape = true ∧ ch = 27
    · rw [if_pos hesc] at hrun ⊢
      obtain ⟨rfl, rfl, rfl⟩ : (-1 : Int) = ret ∧ data = data' ∧ keys = rest := by simpa using hrun
      exact ⟨_, rfl, hdata⟩
    rw [if_neg hesc] at hrun ⊢
    rw [Edit.key]
    by_cases her : Erases ch
    · rw [if_pos her] at hrun ⊢
      by_cases hpos : 0 < s.i
      · rw [if_pos hpos]
        exact ih ⟨congrArg (· - 1) hi, hdata⟩ hrun
      · rw [if_neg hpos]
        exact ih ⟨by show s.i = i.val - 1; omega, hdata⟩ hrun
    rw [if_neg her] at hrun ⊢
    by_cases hroom : i.val < n
    · rw [dif_pos hroom] at hrun
      rw [if_pos (by omega)]
      exact ih ⟨congrArg (· + 1) hi, Same.set ⟨hi, hdata⟩ _⟩ hrun
    · rw [dif_neg hroom] at hrun
      rw [if_neg (by omega)]
      exact ih ⟨hi, hdata⟩ hrun

/-! ## The three editors -/

/-- What an editor leaves for the keys `body`: the line in the array with its NUL, no store at `len` or behind it,
and, if all keys show or erase, the line on the screen behind the prompt, and a newline. -/
structure Leaves (len : Int) (shown : UInt8 → UInt8) (body : List Int) (s : Edit) : Prop where
  holds : Holds s.data (lineOf (len - 1).toNat body)
  writes : ∀ w ∈ s.writes, w < len
  shows : (∀ ch ∈ body, Visible ch) → ∃ echo, s.echo = echo ++ [10] ∧
    ∀ prompt, (Line.of prompt).reads echo = Line.of (prompt ++ (lineOf (len - 1).toNat body).map shown)

theorem leaves_line (hlen : 1 ≤ len) (data : Nat → UInt8) (body : List Int)
    (hshown : ∀ ch, 32 ≤ ch ∧ ch ≤ 126 → shown (byte ch) ≠ 8) :
    Leaves len shown body (body.foldl (Edit.key len shown) (.start data)).finish := by
  have hkeeps : Keeps len (body.foldl (Edit.key len shown) (.start data)) (lineOf (len - 1).toNat body) :=
    (Keeps.start data).line shown body
  obtain ⟨hholds, hwrites⟩ := hkeeps.finish hlen
  refine ⟨hholds, hwrites, fun hbody => ⟨_, rfl, fun prompt => ?_⟩⟩
  have hstart : Shows shown prompt (.start data) [] := by
    rw [Shows, List.map_nil, List.append_nil]
    rfl
  exact hstart.line (Keeps.start data) hbody hshown

/-- **The three editors and the line that was typed.** -/
theorem editors_agree (hlen : 1 ≤ len) (data : Nat → UInt8) (h : ∃ ch ∈ keys, Ends ch) :
    ∃ body rest, Pressed false keys body rest ∧ ∃ s s', Leaves len id body s ∧ Leaves len (fun _ => 42) body s' ∧
      (∀ fuel, body.length < fuel → dataInput len fuel data keys = some (s, rest)) ∧
      (∀ fuel, body.length < fuel → passwordInput len fuel data keys = some (s', rest)) ∧
      (27 ∉ body → ∀ fuel, body.length < fuel → dataInputMsg len fuel data keys = some (0, s, rest)) ∧
      (27 ∈ body → ∃ pre unread, keys = pre ++ 27 :: unread ∧ 27 ∉ pre ∧
        ∀ fuel, pre.length < fuel → ∃ s'', dataInputMsg len fuel data keys = some (-1, s'', unread)) := by
  obtain ⟨body, ch, rest, rfl, hbody, hch⟩ :
      ∃ body ch rest, keys = body ++ ch :: rest ∧ Stays false body ∧ Ends ch := by
    rcases stays_or false keys with hstay | ⟨body, ch, rest, hkeys, hbody, hch⟩
    · obtain ⟨ch, hmem, hch⟩ := h
      exact absurd hch (hstay ch hmem).1
    · exact ⟨body, ch, rest, hkeys, hbody, hch.resolve_right (by rintro ⟨hf, -⟩; cases hf)⟩
  refine ⟨body, rest, ⟨⟨ch, hch, rfl⟩, hbody⟩, _, _, leaves_line hlen data body fun _ => byte_visible,
    leaves_line hlen data body fun _ _ => by decide, ?_, ?_, ?_, ?_⟩
  · intro fuel hf
    rw [dataInput, loop_ended hbody hch hf]
    rfl
  · intro fuel hf
    rw [passwordInput, loop_ended hbody hch hf]
    rfl
  · intro hesc fuel hf
    have hstays : Stays true body := by
      intro k hk
      refine ⟨(hbody k hk).1, ?_⟩
      rintro ⟨-, rfl⟩
      exact hesc hk
    rw [dataInputMsg, loop_ended hstays hch hf]
  · intro hesc
    obtain ⟨pre, post, rfl, hpre⟩ := List.eq_append_cons_of_mem hesc
    refine ⟨pre, post ++ ch :: rest, by rw [List.append_assoc]; rfl, hpre, fun fuel hf => ?_⟩
    refine ⟨pre.foldl (Edit.key len id) (.start data), ?_⟩
    have hstays : Stays true pre := by
      intro k hk
      refine ⟨(hbody k (List.mem_append_left _ hk)).1, ?_⟩
      rintro ⟨-, rfl⟩
      exact hpre hk
    rw [dataInputMsg, List.append_assoc, List.cons_append, loop_escaped hstays hf]

theorem editors_agree_hi : ∃ body rest, Pressed false [104, 105, 13] body rest ∧ ∃ s, Leaves 4 id body s ∧
    dataInput 4 3 (fun _ => 0) [104, 105, 13] = some (s, rest) := by
  have hends : ∃ ch ∈ [(104 : Int), 105, 13], Ends ch := ⟨13, by simp, Or.inl rfl⟩
  obtain ⟨body, rest, hpressed, s, s', hleaves, -, hrun, -⟩ :=
    editors_agree (by decide : (1 : Int) ≤ 4) (fun _ => 0) hends
  have hlen : body.length < 3 := by
    obtain ⟨ch, -, hsplit⟩ := hpressed.split
    have hthree : 3 = (body ++ ch :: rest).length := congrArg List.length hsplit
    rw [List.length_append, List.length_cons] at hthree
    omega
  exact ⟨body, rest, hpressed, s, hleaves, hrun 3 hlen⟩

/-! ## The end of the input -/

theorem loop_returns (s : Edit) (keys : List Int) : (∃ fuel r, loop len shown escape fuel s keys = some r) ↔
    ∃ ch ∈ keys, Ends ch ∨ escape = true ∧ ch = 27 := by
  rcases stays_or escape keys with hstay | ⟨body, ch, rest, rfl, hbody, hch⟩
  · constructor
    · rintro ⟨fuel, r, hr⟩
      rw [loop_starved hstay] at hr
      cases hr
    · rintro ⟨ch, hmem, hch⟩
      exact absurd hch (not_or.2 (hstay ch hmem))
  · refine ⟨fun _ => ⟨ch, List.mem_append_right _ List.mem_cons_self, hch⟩, fun _ => ⟨body.length + 1, ?_⟩⟩
    rcases hch with hch | ⟨rfl, rfl⟩
    · exact ⟨_, loop_ended hbody hch (Nat.lt_succ_self _) s rest⟩
    · exact ⟨_, loop_escaped hbody (Nat.lt_succ_self _) s rest⟩

theorem stdinClr_starved (fuel : Nat) {keys : List Int} (h : 10 ∉ keys) : stdinClr fuel keys = none := by
  induction fuel generalizing keys with
  | zero => rfl
  | succ fuel ih =>
    cases keys with
    | nil => exact ih h
    | cons ch keys =>
      rw [List.mem_cons, not_or] at h
      rw [stdinClr, mygetch]
      show (if ch ≠ 10 then _ else _) = _
      rw [if_pos (Ne.symm h.1)]
      exact ih h.2

theorem stdinClr_line {body : List Int} (h : 10 ∉ body) (rest : List Int) :
    stdinClr (body.length + 1) (body ++ 10 :: rest) = some rest := by
  induction body with
  | nil => rfl
  | cons ch body ih =>
    rw [List.mem_cons, not_or] at h
    rw [List.length_cons, List.cons_append, stdinClr, mygetch]
    show (if ch ≠ 10 then _ else _) = _
    rw [if_pos (Ne.symm h.1)]
    exact ih h.2

theorem some_map {α β γ : Type} {f : α → β} {r : γ → Option α} :
    (∃ fuel b, (r fuel).map f = some b) ↔ ∃ fuel a, r fuel = some a := by
  constructor
  · rintro ⟨fuel, b, h⟩
    obtain ⟨a, ha, -⟩ := Option.map_eq_some_iff.1 h
    exact ⟨fuel, a, ha⟩
  · rintro ⟨fuel, a, h⟩
    exact ⟨fuel, f a, by rw [h]; rfl⟩

/-- **Exactly when the input loops come back**: where the input holds a key that they wait for. -/
theorem editors_return (len : Int) (data : Nat → UInt8) (keys : List Int) :
    ((∃ fuel r, stdinClr fuel keys = some r) ↔ 10 ∈ keys) ∧
    ((∃ fuel r, passwordInput len fuel data keys = some r) ↔ ∃ ch ∈ keys, Ends ch) ∧
    ((∃ fuel r, dataInput len fuel data keys = some r) ↔ ∃ ch ∈ keys, Ends ch) ∧
    ((∃ fuel r, dataInputMsg len fuel data keys = some r) ↔ ∃ ch ∈ keys, Ends ch ∨ ch = 27) := by
  refine ⟨⟨?_, ?_⟩, ?_, ?_, ?_⟩
  · rintro ⟨fuel, r, hr⟩
    by_contra hno
    rw [stdinClr_starved fuel hno] at hr
    cases hr
  · intro hmem
    obtain ⟨body, rest, rfl, hbody⟩ := List.eq_append_cons_of_mem hmem
    exact ⟨_, _, stdinClr_line hbody rest⟩
  · exact some_map.trans ((loop_returns _ keys).trans (by simp))
  · exact some_map.trans ((loop_returns _ keys).trans (by simp))
  · exact (loop_returns _ keys).trans (by simp)

/-- Nothing is typed and the input is closed. -/
theorem editors_return_counterexample :
    (¬ ∃ fuel r, stdinClr fuel [] = some r) ∧ (¬ ∃ fuel r, passwordInput 7 fuel (fun _ => 0) [] = some r) ∧
      (¬ ∃ fuel r, dataInput 7 fuel (fun _ => 0) [] = some r) ∧
        ¬ ∃ fuel r, dataInputMsg 76 fuel (fun _ => 0) [] = some r := by
  refine ⟨?_, ?_, ?_, ?_⟩
  · rintro ⟨fuel, r, hr⟩
    rw [stdinClr_starved fuel List.not_mem_nil] at hr
    cases hr
  · rintro ⟨fuel, r, hr⟩
    rw [passwordInput, loop_starved stays_nil] at hr
    cases hr
  · rintro ⟨fuel, r, hr⟩
    rw [dataInput, loop_starved stays_nil] at hr
    cases hr
  · rintro ⟨fuel, r, hr⟩
    rw [dataInputMsg, loop_starved stays_nil] at hr
    cases hr

end UnixNote.Pwdmgmt
