import UnixNote.Proof.Turns

/-!
# Who a message is sent to

`recipients_reached`: mode `M` sends a message to every typed id that is in the list exactly when at
most 256 ids were asked for, mode `A` to every node exactly when no `sendto` before the last one fails.
-/

namespace UnixNote.Message

open Keyboard (dataInput dataInputMsg string atoi)

variable {s s' : Iface} {t : Turn} {mine : Int} {l : OnlineList} {packet : List UInt8} {ids : List Int}
  {nodes : List Node} {i k : Nat} {data : Vector UInt8 76} {buf2 : Vector UInt8 7} {keys : List Int} {num : Int}
  {setup : Setup}

/-- The attempt goes to the recorded address of a node. -/
def Attempt.To (packet : List UInt8) (a : Attempt) (n : Node) : Prop := a.addr = n.addr ∧ a.bytes = packet

/-- One attempt for each occurrence of an id that is in the list, in the order of the ids. -/
def EachReached (l : OnlineList) (packet : List UInt8) (ids : List Int) (attempts : List Attempt) : Prop :=
  List.Forall₂ (fun id a => ∃ n ∈ l.nodes, n.id = id ∧ a.To packet n)
    (ids.filter fun id => l.nodes.any fun n => n.id = id) attempts

/-- One attempt for each node, in the order of the list. -/
def AllReached (nodes : List Node) (packet : List UInt8) (attempts : List Attempt) : Prop :=
  List.Forall₂ (fun n a => a.To packet n) nodes attempts

/-! ## The typed ids -/

/-- `k` ids one after the other. -/
def typedIds : Nat → Vector UInt8 7 → List Int → Option (List Int)
  | 0, _, _ => some []
  | k + 1, buf2, keys => do
    let (_, buf2, keys) ← dataInput buf2 keys
    let ids ← typedIds k buf2 keys
    some (atoi (string buf2) :: ids)

/-- The number `num` is typed, and so many ids. -/
def TypedIds (setup : Setup) (num : Int) (ids : List Int) : Prop :=
  ∃ ret buf keys, dataInput setup.num setup.keys = some (ret, buf, keys) ∧ num = atoi (string buf) ∧
    typedIds num.toNat setup.buf keys = some ids

/-- The ids are in the array, or the first one behind it was written. -/
theorem readIds_spec (h : typedIds k buf2 keys = some ids) (hi : i ≤ 256) :
    readIds k i buf2 keys = if i + k ≤ 256 then .ok ids else .error (.outside 256) := by
  induction k generalizing i buf2 keys ids with
  | zero =>
    obtain rfl : [] = ids := Option.some.inj h
    rw [readIds, if_pos (by omega)]
  | succ k ih =>
    rw [typedIds] at h
    rw [readIds]
    cases hin : dataInput buf2 keys with
    | none =>
      rw [hin] at h
      cases h
    | some x =>
      obtain ⟨ret, buf, rest⟩ := x
      rw [hin] at h
      simp only [Option.bind_eq_bind, Option.bind_some, Option.bind_eq_some_iff, Option.some.injEq] at h
      obtain ⟨ids', hids, rfl⟩ := h
      dsimp only
      by_cases hlt : i < 256
      · rw [if_pos hlt, ih hids hlt]
        by_cases hk : i + 1 + k ≤ 256
        · rw [if_pos hk, if_pos (by omega)]
          rfl
        · rw [if_neg hk, if_neg (by omega)]
          rfl
      · obtain rfl : i = 256 := by omega
        rw [if_neg hlt, if_neg (by omega)]

theorem select_spec (h : TypedIds setup num ids) :
    select 'M' setup = if num ≤ 256 then .ok (some (.m ids)) else .error (.outside 256) := by
  obtain ⟨ret, buf, keys, hin, rfl, hids⟩ := h
  have hread := readIds_spec (i := 0) hids (by omega)
  simp only [select, hin, hread, bind, Except.bind]
  by_cases hn : atoi (string buf) ≤ 256
  · rw [if_pos hn, if_pos (by omega)]
    rfl
  · rw [if_neg hn, if_neg (by omega)]

/-! ## The loops -/

theorem toEach_reached (hl : ∀ k, t.list k = l) (hderef : ∀ p, t.deref p = p.addr) :
    EachReached l packet ids (toEach packet t ids i) := by
  induction ids generalizing i with
  | nil => exact .nil
  | cons id ids ih =>
    rw [toEach, hl]
    cases hp : l.searchList id .byId with
    | none =>
      have hno : (l.nodes.any fun n => n.id = id) = false := by
        have := OnlineList.searchId_none.1 hp
        simpa using this
      rw [EachReached, List.filter_cons_of_neg (by simp [hno])]
      exact ih
    | some p =>
      obtain ⟨hmem, hid⟩ := OnlineList.searchId_some hp
      have hyes : (l.nodes.any fun n => n.id = id) = true := List.any_eq_true.2 ⟨p, hmem, by simpa using hid⟩
      rw [EachReached, List.filter_cons_of_pos (by simp [hyes])]
      exact .cons ⟨p, hmem, hid, hderef p, rfl⟩ ih

/-- The loop of mode `A` comes to every node when nothing fails before the last one. -/
theorem toAll_reached (nodes : List Node) (packet : List UInt8) (hderef : ∀ p, t.deref p = p.addr) :
    AllReached nodes packet (toAll packet t nodes i) ↔ ∀ k, k + 1 < nodes.length → t.ok (i + k) = true := by
  induction nodes generalizing i with
  | nil =>
    refine ⟨fun _ k hk => ?_, fun _ => .nil⟩
    simp at hk
  | cons p nodes ih =>
    have hfirst : (⟨t.deref p, packet, t.ok i⟩ : Attempt).To packet p := ⟨hderef p, rfl⟩
    rw [AllReached, toAll, List.forall₂_cons, and_iff_right hfirst]
    cases nodes with
    | nil =>
      refine ⟨fun _ k hk => ?_, fun _ => ?_⟩
      · simp at hk
      · rw [toAll]
        split <;> exact .nil
    | cons q nodes =>
      constructor
      · intro h k hk
        by_cases hok : t.ok i = true
        · rw [if_pos hok] at h
          cases k with
          | zero => exact hok
          | succ k =>
            have := ih.1 h k (Nat.lt_of_succ_lt_succ hk)
            rwa [Nat.add_assoc, Nat.add_comm 1] at this
        · rw [if_neg hok] at h
          cases h
      · intro h
        have hok : t.ok i = true := h 0 (Nat.succ_lt_succ (Nat.succ_pos _))
        rw [if_pos hok]
        refine ih.2 fun k hk => ?_
        rw [Nat.add_assoc, Nat.add_comm 1]
        exact h (k + 1) (Nat.succ_lt_succ hk)

/-- **A message reaches everybody selected**: in mode `M` if there is room for the ids, in mode `A` if
nothing fails before the last node. -/
theorem recipients_reached (hl : ∀ k, t.list k = l) (hderef : ∀ p, t.deref p = p.addr) (hline : Line t data)
    (hfree : s.held = []) :
    (∀ setup num ids, TypedIds setup num ids →
      ((∃ ids' left s' attempts, select 'M' setup = .ok (some (.m ids')) ∧ turnM mine ids' t s = .ok (left, s') ∧
        s'.sent = s.sent ++ attempts ∧ EachReached l (udpHeader mine (string data)) ids attempts) ↔ num ≤ 256)) ∧
    ((∃ left s' attempts, turnA mine t s = .ok (left, s') ∧ s'.sent = s.sent ++ attempts ∧
        AllReached l.nodes (udpHeader mine (string data)) attempts) ↔
      ∀ k, k + 1 < l.nodes.length → t.ok k = true) := by
  refine ⟨fun setup num ids htyped => ?_, ?_⟩
  · have hselect := select_spec htyped
    constructor
    · rintro ⟨ids', left, s', attempts, hsel, -⟩
      by_contra hn
      rw [hselect, if_neg hn] at hsel
      cases hsel
    · intro hn
      obtain ⟨r, hr⟩ := turnM_line mine ids hfree hline
      refine ⟨ids, false, _, _, ?_, hr, rfl, toEach_reached hl hderef⟩
      rw [hselect, if_pos hn]
  · have hiff := toAll_reached (i := 0) l.nodes (udpHeader mine (string data)) hderef
    simp only [Nat.zero_add] at hiff
    rw [← hiff]
    obtain ⟨left, s', hs, hsent⟩ := turnA_sent mine hfree hline
    rw [hl] at hsent
    constructor
    · rintro ⟨left', s'', attempts, hs', hsent', hall⟩
      obtain ⟨-, rfl⟩ : left = left' ∧ s' = s'' := by simpa using hs.symm.trans hs'
      rwa [List.append_cancel_left (hsent'.symm.trans hsent)] at hall
    · intro hall
      exact ⟨left, s', _, hs, hsent, hall⟩

/-- Friends 2 and 3 are online. -/
def group : OnlineList := (OnlineList.create.addList ⟨2, 0, ⟨7, 8⟩⟩).addList ⟨3, 0, ⟨9, 8⟩⟩

/-- A line is typed for them. -/
def groupTurn (ok : Nat → Bool) : Turn := ⟨[104, 13], .replicate 76 0, fun _ => group, fun p => p.addr, ok⟩

/-- Nothing is locked or sent. -/
def quiet : Iface := ⟨[], 0, 15, []⟩

/-- The line. -/
def lineH : Vector UInt8 76 := (Vector.replicate 76 0).set 0 104

theorem recipients_reached_group : ∃ left s' attempts, turnA 1 (groupTurn fun k => k = 0) quiet = .ok (left, s') ∧
    s'.sent = quiet.sent ++ attempts ∧ AllReached group.nodes (udpHeader 1 (string lineH)) attempts := by
  have hline : Line (groupTurn fun k => k = 0) lineH := ⟨[], by decide⟩
  have hok : ∀ k, k + 1 < group.nodes.length → decide (k = 0) = true := by
    intro k hk
    have hlen : group.nodes.length = 2 := rfl
    simp only [decide_eq_true_eq]
    omega
  exact (recipients_reached (fun _ => rfl) (fun _ => rfl) hline rfl).2.2 hok

/-- 257 is typed as the number, and 257 times the id 1. -/
def tooMany : Setup := ⟨[50, 53, 55, 13] ++ (List.replicate 257 [49, 13]).flatten, .replicate 7 0, .replicate 4 0⟩

theorem string_one {buf : Vector UInt8 7} : string ((buf.set 0 49).set 1 0) = [49] := by
  have hlen : buf.toList.length = 7 := Vector.length_toList
  rw [string, Vector.toList_set, Vector.toList_set]
  match hb : buf.toList, hlen with
  | b₀ :: b₁ :: bs, _ => rfl

theorem typedIds_ones : typedIds k buf2 (List.replicate k [49, 13]).flatten = some (List.replicate k 1) := by
  induction k generalizing buf2 with
  | zero => rfl
  | succ k ih =>
    have hin : dataInput buf2 (List.replicate (k + 1) [49, 13]).flatten =
        some (0, (buf2.set 0 49).set 1 0, (List.replicate k [49, 13]).flatten) := rfl
    rw [typedIds, hin]
    simp only [Option.bind_eq_bind, Option.bind_some, ih, string_one]
    rfl

theorem tooMany_typed : TypedIds tooMany 257 (List.replicate 257 1) :=
  ⟨0, #v[50, 53, 55, 0], (List.replicate 257 [49, 13]).flatten, rfl, by decide, typedIds_ones⟩

/-- **Who is left out**: 257 ids do not fit, and the first failure in mode `A` ends the message. -/
theorem recipients_reached_breaks :
    (TypedIds tooMany 257 (List.replicate 257 1) ∧ select 'M' tooMany = .error (.outside 256)) ∧
    ∃ s', turnA 1 (groupTurn fun _ => false) quiet = .ok (true, s') ∧
      s'.sent = [⟨⟨9, 8⟩, udpHeader 1 [104], false⟩] := by
  refine ⟨⟨tooMany_typed, ?_⟩, ⟨[.mutex], 1, 15, [⟨⟨9, 8⟩, udpHeader 1 [104], false⟩]⟩, by decide, rfl⟩
  rw [select_spec tooMany_typed]
  exact if_neg (by decide)

end UnixNote.Message
