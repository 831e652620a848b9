import UnixNote.Chat.Message

/-!
# The turns of `send_message_mgmt`

What each function does for a thread that holds no mutex.

* `sendEach_spec`, `sendAll_spec`: the calls of `sendto` in the loops of modes `M` and `A`.
* `turnS_line`, `turnM_line`, `turnA_line`, `turnA_failed`: what becomes of a line in each mode.
-/

namespace UnixNote.Message

open Keyboard (dataInput dataInputMsg string atoi)

variable {s s' : Iface} {t : Turn} {mine id v : Int} {l : OnlineList} {packet : List UInt8} {ids : List Int}
  {nodes : List Node} {i : Nat} {left : Bool} {mode : Mode} {data : Vector UInt8 76} {rest : List Int}

/-! ## Without a mutex -/

theorem setIniface_free (h : s.held = []) : s.setIniface v = .ok { s with iniface := v } := by
  obtain ⟨held, iniface, rowCount, sent⟩ := s
  obtain rfl : held = [] := h
  rfl

theorem searchList_free (h : s.held = []) : s.searchList l id = .ok (l.searchList id .byId, s) := by
  obtain ⟨held, iniface, rowCount, sent⟩ := s
  obtain rfl : held = [] := h
  rfl

theorem showMine_free (h : s.held = []) : ∃ r, s.showMine = .ok { s with rowCount := r } := by
  obtain ⟨held, iniface, rowCount, sent⟩ := s
  obtain rfl : held = [] := h
  exact ⟨_, rfl⟩

theorem lock_free (h : s.held = []) (m : Lock) : s.lock m = .ok { s with held := [m] } := by
  obtain ⟨held, iniface, rowCount, sent⟩ := s
  obtain rfl : held = [] := h
  rfl

/-! ## The loops -/

/-- What the loop of mode `M` sends, from `id[i]` on. -/
def toEach (packet : List UInt8) (t : Turn) : List Int → Nat → List Attempt
  | [], _ => []
  | id :: ids, i =>
    match (t.list i).searchList id .byId with
    | none => toEach packet t ids (i + 1)
    | some ptemp => ⟨t.deref ptemp, packet, t.ok i⟩ :: toEach packet t ids (i + 1)

theorem sendEach_spec (h : s.held = []) :
    sendEach packet t ids i s = .ok { s with sent := s.sent ++ toEach packet t ids i } := by
  induction ids generalizing i s with
  | nil => simp [sendEach, toEach]
  | cons id ids ih =>
    rw [sendEach, searchList_free h, toEach]
    cases hp : (t.list i).searchList id .byId with
    | none => exact ih h
    | some p =>
      have hrest := ih (i := i + 1) (s := s.sendto (t.deref p) packet (t.ok i)) h
      simp only [bind, Except.bind]
      rw [hrest]
      simp only [Iface.sendto, List.append_assoc, List.singleton_append]

/-- What the loop of mode `A` sends, from the `i`-th node on: up to the first failure. -/
def toAll (packet : List UInt8) (t : Turn) : List Node → Nat → List Attempt
  | [], _ => []
  | ptemp :: nodes, i =>
    ⟨t.deref ptemp, packet, t.ok i⟩ :: if t.ok i then toAll packet t nodes (i + 1) else []

theorem sendAll_sent :
    (sendAll packet t nodes i s).2 = { s with sent := s.sent ++ toAll packet t nodes i } := by
  induction nodes generalizing i s with
  | nil => simp [sendAll, toAll]
  | cons p nodes ih =>
    rw [sendAll, toAll]
    by_cases hok : t.ok i = true
    · rw [if_pos hok, if_pos hok, ih]
      simp only [Iface.sendto, List.append_assoc, List.singleton_append]
    · rw [if_neg hok, if_neg hok]
      rfl

theorem sendAll_ok (packet : List UInt8) :
    (sendAll packet t nodes i s).1 = false ↔ ∀ k < nodes.length, t.ok (i + k) = true := by
  induction nodes generalizing i s with
  | nil => simp [sendAll]
  | cons p nodes ih =>
    rw [sendAll]
    by_cases hok : t.ok i = true
    · rw [if_pos hok, ih]
      constructor
      · intro h k hk
        cases k with
        | zero => exact hok
        | succ k =>
          have := h k (Nat.lt_of_succ_lt_succ hk)
          rwa [Nat.add_assoc, Nat.add_comm 1] at this
      · intro h k hk
        have := h (k + 1) (Nat.succ_lt_succ hk)
        rwa [Nat.add_assoc, Nat.add_comm 1]
    · rw [if_neg hok]
      refine ⟨fun h => (Bool.noConfusion h), fun h => ?_⟩
      exact absurd (h 0 (Nat.succ_pos _)) hok

/-! ## The turns -/

/-- A line is typed in the turn. -/
def Line (t : Turn) (data : Vector UInt8 76) : Prop := ∃ rest, dataInputMsg t.rxData t.keys = some (0, data, rest)

/-- The escape key is pressed in the turn. -/
def Escaped (t : Turn) : Prop := ∃ ret data rest, dataInputMsg t.rxData t.keys = some (ret, data, rest) ∧ ret ≠ 0

/-- What can be typed. -/
theorem typed_cases (t : Turn) :
    dataInputMsg t.rxData t.keys = none ∨ (∃ data, Line t data) ∨ (Escaped t ∧ ∀ data, ¬ Line t data) := by
  cases hin : dataInputMsg t.rxData t.keys with
  | none => exact .inl rfl
  | some x =>
    obtain ⟨ret, data, rest⟩ := x
    by_cases hret : ret = 0
    · subst hret
      exact .inr (.inl ⟨data, rest, hin⟩)
    · refine .inr (.inr ⟨⟨ret, data, rest, hin, hret⟩, ?_⟩)
      rintro data' ⟨rest', hline⟩
      rw [hin] at hline
      cases hline
      exact hret rfl

variable {p : Node}

/-- The friend is not in the list. -/
theorem turnS_absent (h : s.held = []) (hp : (t.list 0).searchList id .byId = none) :
    turnS mine id t s = .ok (true, { s with iniface := 0 }) := by
  simp only [turnS, searchList_free h, hp, bind, Except.bind, setIniface_free h]
  rfl

theorem turnS_escape (h : s.held = []) (hp : (t.list 0).searchList id .byId = some p) (he : Escaped t) :
    turnS mine id t s = .ok (true, { s with iniface := 0 }) := by
  obtain ⟨ret, data, rest, hin, hret⟩ := he
  simp only [turnS, searchList_free h, hp, bind, Except.bind, setIniface_free h, hin, if_pos hret]
  rw [setIniface_free (s := { s with iniface := 1 }) h]
  rfl

theorem turnS_waiting (h : s.held = []) (hp : (t.list 0).searchList id .byId = some p)
    (hin : dataInputMsg t.rxData t.keys = none) : turnS mine id t s = .error .waiting := by
  simp only [turnS, searchList_free h, hp, bind, Except.bind, setIniface_free h, hin]

/-- A line goes to the friend; the function returns when that fails. -/
theorem turnS_line (mine : Int) (h : s.held = []) (hp : (t.list 0).searchList id .byId = some p) (hl : Line t data) :
    ∃ r, turnS mine id t s = .ok (!t.ok 0, ⟨s.held, 1, r,
      s.sent ++ [⟨t.deref p, udpHeader mine (string data), t.ok 0⟩]⟩) := by
  obtain ⟨rest, hin⟩ := hl
  simp only [turnS, searchList_free h, hp, bind, Except.bind, setIniface_free h, hin, ne_eq, not_true, if_false]
  by_cases hok : t.ok 0 = true
  · obtain ⟨r, hr⟩ := showMine_free (s := ⟨s.held, 1, s.rowCount,
      s.sent ++ [⟨t.deref p, udpHeader mine (string data), true⟩]⟩) h
    simp only [Iface.sendto, hok, if_true, hr]
    exact ⟨r, rfl⟩
  · simp only [Iface.sendto, hok]
    exact ⟨s.rowCount, rfl⟩

theorem turnM_escape (h : s.held = []) (he : Escaped t) :
    turnM mine ids t s = .ok (true, { s with iniface := 0 }) := by
  obtain ⟨ret, data, rest, hin, hret⟩ := he
  simp only [turnM, bind, Except.bind, setIniface_free h, hin, if_pos hret]
  rw [setIniface_free (s := { s with iniface := 1 }) h]
  rfl

theorem turnM_waiting (h : s.held = []) (hin : dataInputMsg t.rxData t.keys = none) :
    turnM mine ids t s = .error .waiting := by
  simp only [turnM, bind, Except.bind, setIniface_free h, hin]

/-- A line goes to each of the ids that is in the list. -/
theorem turnM_line (mine : Int) (ids : List Int) (h : s.held = []) (hl : Line t data) :
    ∃ r, turnM mine ids t s = .ok (false, ⟨s.held, 1, r,
      s.sent ++ toEach (udpHeader mine (string data)) t ids 0⟩) := by
  obtain ⟨rest, hin⟩ := hl
  obtain ⟨r, hr⟩ := showMine_free (s := ⟨s.held, 1, s.rowCount,
    s.sent ++ toEach (udpHeader mine (string data)) t ids 0⟩) h
  refine ⟨r, ?_⟩
  simp only [turnM, bind, Except.bind, setIniface_free h, hin, ne_eq, not_true, if_false]
  rw [sendEach_spec (s := { s with iniface := 1 }) h]
  simp only [hr]
  rfl

theorem turnA_escape (h : s.held = []) (he : Escaped t) :
    turnA mine t s = .ok (true, { s with iniface := 0 }) := by
  obtain ⟨ret, data, rest, hin, hret⟩ := he
  simp only [turnA, bind, Except.bind, setIniface_free h, hin, if_pos hret]
  rw [setIniface_free (s := { s with iniface := 1 }) h]
  rfl

theorem turnA_waiting (h : s.held = []) (hin : dataInputMsg t.rxData t.keys = none) :
    turnA mine t s = .error .waiting := by
  simp only [turnA, bind, Except.bind, setIniface_free h, hin]

/-- A line goes to all friends, when no `sendto` fails. -/
theorem turnA_line (mine : Int) (h : s.held = []) (hl : Line t data)
    (hok : ∀ k < (t.list 0).nodes.length, t.ok k = true) :
    ∃ r, turnA mine t s = .ok (false, ⟨s.held, 1, r,
      s.sent ++ toAll (udpHeader mine (string data)) t (t.list 0).nodes 0⟩) := by
  obtain ⟨rest, hin⟩ := hl
  have hfailed := (sendAll_ok (udpHeader mine (string data)) (i := 0)
    (s := ⟨[.mutex], 1, s.rowCount, s.sent⟩)).2 fun k hk => by simpa using hok k hk
  obtain ⟨r, hr⟩ := showMine_free (s := ⟨[], 1, s.rowCount,
    s.sent ++ toAll (udpHeader mine (string data)) t (t.list 0).nodes 0⟩) rfl
  refine ⟨r, ?_⟩
  simp only [turnA, bind, Except.bind, setIniface_free h, hin, ne_eq, not_true, if_false]
  rw [lock_free (s := { s with iniface := 1 }) h]
  simp only [hfailed, Bool.false_eq_true, if_false, sendAll_sent, Iface.unlock]
  rw [h]
  exact congrArg (fun x => x >>= fun s => pure (false, s)) hr

/-- The first `sendto` that fails ends the function, the list locked. -/
theorem turnA_failed (h : s.held = []) (hl : Line t data)
    (hok : ¬ ∀ k < (t.list 0).nodes.length, t.ok k = true) :
    turnA mine t s = .ok (true, ⟨[.mutex], 1, s.rowCount,
      s.sent ++ toAll (udpHeader mine (string data)) t (t.list 0).nodes 0⟩) := by
  obtain ⟨rest, hin⟩ := hl
  have hfailed : (sendAll (udpHeader mine (string data)) t (t.list 0).nodes 0
      ⟨[.mutex], 1, s.rowCount, s.sent⟩).1 = true := by
    rw [← Bool.not_eq_false, sendAll_ok]
    simpa using hok
  simp only [turnA, bind, Except.bind, setIniface_free h, hin, ne_eq, not_true, if_false]
  rw [lock_free (s := { s with iniface := 1 }) h]
  simp only [hfailed, if_true, sendAll_sent]
  rfl

/-- What mode `A` has sent, whether it goes on or returns. -/
theorem turnA_sent (mine : Int) (h : s.held = []) (hl : Line t data) : ∃ left s', turnA mine t s = .ok (left, s') ∧
    s'.sent = s.sent ++ toAll (udpHeader mine (string data)) t (t.list 0).nodes 0 := by
  by_cases hok : ∀ k < (t.list 0).nodes.length, t.ok k = true
  · obtain ⟨r, hr⟩ := turnA_line mine h hl hok
    exact ⟨_, _, hr, rfl⟩
  · exact ⟨_, _, turnA_failed h hl hok, rfl⟩

end UnixNote.Message
