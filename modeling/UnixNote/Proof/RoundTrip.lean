import Mathlib.Data.List.TakeWhile
import UnixNote.Proof.Datagrams
import UnixNote.Proof.Turns

/-!
# From the keyboard to the other side

* `edit_line`: the editors keep in the array what was typed and not erased.
* `udpHeader_shown`: what `pthread_udp` takes from a datagram, whatever its buffer held.
* `message_round_trip`: the two together, for every mode.
-/

namespace UnixNote

namespace Keyboard

/-! ## What was typed -/

/-- A line of at most `n` characters after a key that does not end it. -/
def press (n : Nat) (line : List UInt8) (ch : Int) : List UInt8 :=
  if Erases ch then line.dropLast else if line.length < n then line ++ [byte ch] else line

/-- The keys `body` and then a key that ends the line are typed; `keys` come after. -/
structure Pressed (escape : Bool) (keys : List Int) (body : List Int) (rest : List Int) : Prop where
  split : ∃ ch, Ends ch ∧ keys = body ++ ch :: rest
  inner : ∀ ch ∈ body, ¬ Ends ch ∧ ¬ (escape = true ∧ ch = 27)

variable {n : Nat} {escape : Bool} {data data' : Vector UInt8 (n + 1)} {i : Fin (n + 1)} {line : List UInt8}
  {keys rest : List Int} {ch : Int}

theorem Pressed.cons {body : List Int} (h : Pressed escape keys body rest) (hch : ¬ Ends ch)
    (hesc : ¬ (escape = true ∧ ch = 27)) : Pressed escape (ch :: keys) (ch :: body) rest := by
  obtain ⟨e, he, hsplit⟩ := h.split
  refine ⟨⟨e, he, by rw [hsplit]; rfl⟩, fun k hk => ?_⟩
  rcases List.mem_cons.1 hk with rfl | hk
  · exact ⟨hch, hesc⟩
  · exact h.inner k hk

theorem line_length (hi : data.toList.take i = line) : line.length = i := by
  rw [← hi, List.length_take, Vector.length_toList]
  omega

/-- A key that does not leave the editor: the array begins with the line that the key makes. -/
theorem edit_press (hi : data.toList.take i = line) (hch : ¬ Ends ch) (hesc : ¬ (escape = true ∧ ch = 27))
    (h : edit escape data i (ch :: keys) = some (0, data', rest)) :
    ∃ (data₁ : Vector UInt8 (n + 1)) (j : Fin (n + 1)),
      edit escape data₁ j keys = some (0, data', rest) ∧ data₁.toList.take j = press n line ch := by
  have hlen : data.toList.length = n + 1 := Vector.length_toList
  have hline := line_length hi
  rw [edit, if_neg hch, if_neg hesc] at h
  by_cases her : Erases ch
  · rw [if_pos her] at h
    refine ⟨data, _, h, ?_⟩
    rw [press, if_pos her, List.dropLast_eq_take, hline, ← hi, List.take_take]
    congr 1
    simp only
    omega
  rw [if_neg her] at h
  by_cases hroom : i.val < n
  · rw [dif_pos hroom] at h
    refine ⟨_, _, h, ?_⟩
    have hget : (data.toList.set i (byte ch))[i.val]? = some (byte ch) := by
      refine List.getElem?_set_self ?_
      rw [hlen]
      exact i.isLt
    rw [press, if_neg her, if_pos (by omega), Vector.toList_set, List.take_add_one, hget,
      List.take_set_of_le (Nat.le_refl _), hi]
    rfl
  · rw [dif_neg hroom] at h
    refine ⟨data, i, h, ?_⟩
    rw [press, if_neg her, if_neg (by omega), hi]

/-- **The editor keeps the line**: the array begins with what was typed and not erased, and the NUL
goes right behind it. -/
theorem edit_line (hi : data.toList.take i = line) (h : edit escape data i keys = some (0, data', rest)) :
    ∃ body tail, Pressed escape keys body rest ∧ (body.foldl (press n) line).length ≤ n ∧
      data'.toList = body.foldl (press n) line ++ 0 :: tail := by
  induction keys generalizing data i line with
  | nil => cases h
  | cons ch keys ih =>
    by_cases hch : Ends ch
    · rw [edit, if_pos hch] at h
      obtain ⟨rfl, rfl⟩ : data.set i 0 = data' ∧ keys = rest := by simpa using h
      refine ⟨[], data.toList.drop (i + 1), ⟨⟨ch, hch, rfl⟩, fun _ hm => (List.not_mem_nil hm).elim⟩, ?_, ?_⟩
      · rw [List.foldl_nil, line_length hi]
        omega
      · have hin : i.val < data.toList.length := by
          rw [Vector.length_toList]
          exact i.isLt
        rw [List.foldl_nil, Vector.toList_set, List.set_eq_take_append_cons_drop, if_pos hin, hi]
    by_cases hesc : escape = true ∧ ch = 27
    · rw [edit, if_neg hch, if_pos hesc] at h
      cases h
    obtain ⟨data₁, j, h₁, hj⟩ := edit_press hi hch hesc h
    obtain ⟨body, tail, htyped, hshort, hdata⟩ := ih hj h₁
    exact ⟨ch :: body, tail, htyped.cons hch hesc, hshort, hdata⟩

/-- The characters of a typed line. -/
def lineOf (n : Nat) (body : List Int) : List UInt8 := body.foldl (press n) []

theorem takeWhile_nul {text tail : List UInt8} :
    (text ++ 0 :: tail).takeWhile (· ≠ 0) = text.takeWhile (· ≠ 0) := by
  rw [List.takeWhile_append]
  split
  · rename_i hall
    have hself : text.takeWhile (· ≠ 0) = text := (List.takeWhile_prefix _).eq_of_length hall
    rw [hself, List.takeWhile_cons_of_neg (by simp), List.append_nil]
  · rfl

/-- **The C string in the array** is the line that was typed, up to a NUL in it. -/
theorem dataInputMsg_line (h : dataInputMsg data keys = some (0, data', rest)) :
    ∃ body, Pressed true keys body rest ∧ string data' = (lineOf n body).takeWhile (· ≠ 0) ∧
      (string data').length ≤ n := by
  obtain ⟨body, tail, htyped, hshort, hdata⟩ := edit_line List.take_zero h
  have hstring : string data' = (lineOf n body).takeWhile (· ≠ 0) := by rw [string, hdata, takeWhile_nul, lineOf]
  refine ⟨body, htyped, hstring, ?_⟩
  rw [hstring]
  exact (List.takeWhile_sublist _).length_le.trans hshort

theorem string_nul {data : Vector UInt8 n} : 0 ∉ string data := by
  intro hm
  simpa using List.mem_takeWhile_imp hm

end Keyboard

namespace Message

open Keyboard (dataInputMsg string Pressed lineOf)
open Server (Fault scan scan_string loadInt loadStr)
open Udp (Buffer Datagram pthreadUdp recvfrom)

variable {s s' : Iface} {t : Turn} {mine : Int} {packet : List UInt8} {ids : List Int} {nodes : List Node} {i : Nat}
  {text : CStr} {l : OnlineList} {src : SockAddr} {beyond : List UInt8} {buf : Buffer} {data : Vector UInt8 76}
  {rest : List Int} {mode : Mode}

/-! ## The datagram -/

theorem udpHeader_length : (udpHeader mine text).length = text.length + 9 := by
  simp only [udpHeader, List.length_append, CInt.store_length, List.length_singleton]
  omega

theorem udpHeader_drop : (udpHeader mine text).drop 8 = text ++ [0] := by
  rw [udpHeader, List.append_assoc]
  exact List.drop_left' (by simp)

/-- The loads of `pthread_udp` stay in the datagram. -/
theorem udpHeader_loads (hmine : CInt.InRange mine) (hnul : 0 ∉ text) :
    loadInt (some (udpHeader mine text)) 0 = .ok mine ∧ loadStr (some (udpHeader mine text)) 8 = .ok text := by
  refine ⟨?_, ?_⟩
  · rw [Server.loadInt_of_le (by rw [udpHeader_length]; omega), List.drop_zero, udpHeader, List.append_assoc,
      List.append_assoc, CInt.load_store hmine]
  · rw [loadStr, udpHeader_drop]
    exact scan_string hnul

/-- **A datagram is taken for what it is**, whatever the buffer held and whatever lies behind it. -/
theorem udpHeader_shown (hmine : CInt.InRange mine) (hlen : text.length ≤ 75) (hnul : 0 ∉ text) :
    pthreadUdp l beyond buf ⟨src, udpHeader mine text⟩ =
      match l.searchList mine .byId with
      | none => none
      | some psrc => if psrc.addr.port = src.port then some (mine, .ok text) else none := by
  have hkept : Datagram.kept ⟨src, udpHeader mine text⟩ = udpHeader mine text := by
    refine List.take_of_length_le ?_
    rw [udpHeader_length]
    omega
  have hbytes : (recvfrom ⟨src, udpHeader mine text⟩ buf).bytes =
      udpHeader mine text ++ buf.bytes.drop (text.length + 9) := by
    rw [Udp.recvfrom_bytes, hkept, udpHeader_length]
  have hid : CInt.load (recvfrom ⟨src, udpHeader mine text⟩ buf).bytes = mine := by
    rw [hbytes, udpHeader]
    simp only [List.append_assoc]
    exact CInt.load_store hmine
  have htext : scan 8 (((recvfrom ⟨src, udpHeader mine text⟩ buf).bytes ++ beyond).drop 8) = .ok text := by
    have h8 : 8 ≤ (udpHeader mine text).length := by
      rw [udpHeader_length]
      omega
    rw [hbytes, List.append_assoc, List.drop_append_of_le_length h8, udpHeader_drop, List.append_assoc]
    exact scan_string hnul
  unfold pthreadUdp Udp.display
  dsimp only
  rw [hid]
  cases l.searchList mine .byId with
  | none => rfl
  | some psrc =>
    show (if psrc.addr.port = src.port then some (mine, scan 8 _) else none) = _
    rw [htext]

/-! ## The modes -/

theorem toEach_bytes : ∀ a ∈ toEach packet t ids i, a.bytes = packet := by
  induction ids generalizing i with
  | nil => exact fun _ h => (List.not_mem_nil h).elim
  | cons id ids ih =>
    rw [toEach]
    cases (t.list i).searchList id .byId with
    | none => exact ih
    | some p => exact List.forall_mem_cons.2 ⟨rfl, ih⟩

theorem toAll_bytes : ∀ a ∈ toAll packet t nodes i, a.bytes = packet := by
  induction nodes generalizing i with
  | nil => exact fun _ h => (List.not_mem_nil h).elim
  | cons p nodes ih =>
    rw [toAll]
    refine List.forall_mem_cons.2 ⟨rfl, ?_⟩
    split
    · exact ih
    · exact fun _ h => (List.not_mem_nil h).elim

/-- What a line is sent to: in mode `S` the friend, if it is in the list; in mode `M` those of the ids that are; in
mode `A` the nodes up to the first failure. -/
def attempts (packet : List UInt8) (t : Turn) : Mode → List Attempt
  | .s id =>
    match (t.list 0).searchList id .byId with
    | none => []
    | some p => [⟨t.deref p, packet, t.ok 0⟩]
  | .m ids => toEach packet t ids 0
  | .a => toAll packet t (t.list 0).nodes 0

theorem attempts_bytes (mode : Mode) : ∀ a ∈ attempts packet t mode, a.bytes = packet := by
  cases mode with
  | s id =>
    rw [attempts]
    cases (t.list 0).searchList id .byId with
    | none => exact fun _ h => (List.not_mem_nil h).elim
    | some p => exact List.forall_mem_cons.2 ⟨rfl, fun _ h => (List.not_mem_nil h).elim⟩
  | m ids => exact toEach_bytes
  | a => exact toAll_bytes

/-- **Whatever the mode**, a line goes out in copies of one datagram. -/
theorem turn_sent (mode : Mode) (h : s.held = []) (hl : Line t data) :
    ∃ left s', turn mine mode t s = .ok (left, s') ∧
      s'.sent = s.sent ++ attempts (udpHeader mine (string data)) t mode := by
  cases mode with
  | s id =>
    rw [attempts]
    cases hp : (t.list 0).searchList id .byId with
    | none => exact ⟨_, _, turnS_absent h hp, (List.append_nil _).symm⟩
    | some p =>
      obtain ⟨r, hr⟩ := turnS_line mine h hp hl
      exact ⟨_, _, hr, rfl⟩
  | m ids =>
    obtain ⟨r, hr⟩ := turnM_line mine ids h hl
    exact ⟨_, _, hr, rfl⟩
  | a =>
    obtain ⟨left, s', hr, hsent⟩ := turnA_sent mine h hl
    exact ⟨_, _, hr, hsent⟩

/-- **Chat message round trip.** A line goes out, in every mode and to everybody it is meant for, in a datagram from
which `pthread_udp` takes the sender and the line, whatever its buffer held. -/
theorem message_round_trip (hmine : CInt.InRange mine)
    (h : dataInputMsg t.rxData t.keys = some (0, data, rest)) :
    ∃ body text packet, Pressed true t.keys body rest ∧ text = (lineOf 75 body).takeWhile (· ≠ 0) ∧
      packet = udpHeader mine text ∧ packet.length ≤ 256 ∧
      (∀ mode s, s.held = [] → ∃ left s', turn mine mode t s = .ok (left, s') ∧
        s'.sent = s.sent ++ attempts packet t mode) ∧
      (∀ mode, ∀ a ∈ attempts packet t mode, a.bytes = packet) ∧
      (∀ l src beyond buf, pthreadUdp l beyond buf ⟨src, packet⟩ =
        match l.searchList mine .byId with
        | none => none
        | some psrc => if psrc.addr.port = src.port then some (mine, .ok text) else none) ∧
      (∀ l src beyond buf, Keyed.Distinct (fun n => n.id) l.nodes →
        (∃ n ∈ l.nodes, n.id = mine ∧ n.addr.port = src.port) →
        pthreadUdp l beyond buf ⟨src, packet⟩ = some (mine, .ok text)) ∧
      loadInt (some packet) 0 = .ok mine ∧ loadStr (some packet) 8 = .ok text := by
  obtain ⟨body, htyped, hstring, hlen⟩ := Keyboard.dataInputMsg_line h
  have hshown : ∀ l src beyond buf, pthreadUdp l beyond buf ⟨src, udpHeader mine (string data)⟩ = _ :=
    fun _ _ _ _ => udpHeader_shown hmine hlen Keyboard.string_nul
  obtain ⟨hid, htext⟩ := udpHeader_loads hmine Keyboard.string_nul
  refine ⟨body, string data, udpHeader mine (string data), htyped, hstring, rfl, ?_,
    fun mode s hs => turn_sent mode hs ⟨rest, h⟩, fun mode => attempts_bytes mode, hshown, ?_, hid, htext⟩
  · rw [udpHeader_length]
    omega
  · rintro l src beyond buf hd ⟨n, hn, hnid, hport⟩
    have hfound : l.searchList mine .byId = some n := hd.find?_iff.2 ⟨hn, hnid⟩
    rw [hshown, hfound]
    exact if_pos hport

/-- User 2 types "oh" for user 5, the last letter erased and typed again. -/
def typedOh : Turn where
  keys := [111, 111, 127, 104, 13]
  rxData := .replicate 76 255
  list _ := OnlineList.create.addList ⟨5, 0, ⟨7, 8⟩⟩
  deref p := p.addr
  ok _ := true

example : lineOf 75 [111, 111, 127, 104] = [111, 104] := by decide

theorem two_inRange : CInt.InRange 2 := by decide

/-- The list of user 5, with user 2 in it. -/
def listOf5 : OnlineList := OnlineList.create.addList ⟨2, 0, ⟨3, 9⟩⟩

/-- The message goes out to user 5, who takes the line from it. -/
theorem message_round_trip_oh : ∃ left s' packet, turn 2 (.s 5) typedOh ⟨[], 0, 15, []⟩ = .ok (left, s') ∧
    s'.sent = [⟨⟨7, 8⟩, packet, true⟩] ∧ packet.length ≤ 256 ∧
    ∀ beyond buf, pthreadUdp listOf5 beyond buf ⟨⟨3, 9⟩, packet⟩ = some (2, .ok [111, 104]) := by
  have hline : ∃ data, dataInputMsg typedOh.rxData typedOh.keys = some (0, data, []) := ⟨_, by rfl⟩
  obtain ⟨data, hline⟩ := hline
  obtain ⟨body, text, packet, htyped, htext, -, hlen, hturn, -, -, hshown, -, -⟩ := message_round_trip two_inRange hline
  obtain ⟨left, s', hs, hsent⟩ := hturn (.s 5) ⟨[], 0, 15, []⟩ rfl
  refine ⟨left, s', packet, hs, hsent, hlen, fun beyond buf => ?_⟩
  obtain ⟨ch, -, hkeys⟩ := htyped.split
  obtain ⟨rfl, -⟩ := List.append_inj' (show [111, 111, 127, 104] ++ [13] = body ++ [ch] from hkeys) rfl
  rw [hshown listOf5 ⟨3, 9⟩ beyond buf (List.nodup_singleton _) ⟨⟨⟨2, 0, ⟨3, 9⟩⟩, 0⟩, by decide, rfl, rfl⟩, htext]
  rfl

end Message

end UnixNote
