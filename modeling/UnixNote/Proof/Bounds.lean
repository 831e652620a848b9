import UnixNote.Chat.Payload
import UnixNote.Proof.Framing

/-!
# Which payloads are read within their bounds

`receive_safe_iff`: a frame that was read whole is handled without a load outside its
payload if and only if it satisfies `InBounds`: the payload is long enough for the
fields of its `optype`, and the strings in it end inside it.
-/

namespace UnixNote.Server

open Socket (Received Transfer Package)

variable {α β : Type} {env : Env} {s : Server} {buf : Option (List UInt8)} {bytes : List UInt8} {k n : Nat}
  {str : CStr} {p : Package} {t : Transfer} {rest : List UInt8} {confd : Int}

/-- Every load was inside the buffer. -/
def Safe (e : Except Fault α) : Prop := ∃ x, e = .ok x

@[simp] theorem safe_ok (x : α) : Safe (.ok x : Except Fault α) := ⟨x, rfl⟩

@[simp] theorem safe_pure (x : α) : Safe (pure x : Except Fault α) := ⟨x, rfl⟩

@[simp] theorem not_safe_error (e : Fault) : ¬ Safe (.error e : Except Fault α) := by
  rintro ⟨x, hx⟩
  cases hx

/-- A sequence of loads is safe when the first is and what follows its result is. -/
theorem safe_bind {e : Except Fault α} {f : α → Except Fault β} :
    Safe (e >>= f) ↔ ∃ x, e = .ok x ∧ Safe (f x) := by
  cases e with
  | error e =>
    constructor
    · intro h
      exact absurd h (not_safe_error e)
    · rintro ⟨x, hx, -⟩
      cases hx
  | ok x =>
    constructor
    · intro h
      exact ⟨x, rfl, h⟩
    · rintro ⟨y, hy, h⟩
      cases hy
      exact h

theorem safe_map {e : Except Fault α} {f : α → β} : Safe (e.map f) ↔ Safe e := by
  cases e with
  | error e => exact iff_of_false (not_safe_error e) (not_safe_error e)
  | ok x => exact iff_of_true ⟨f x, rfl⟩ ⟨x, rfl⟩

/-- Two loads, where the second does not depend on what the first returned. -/
theorem safe_seq {e : Except Fault α} {f : α → Except Fault β} {P : Prop} (hf : ∀ x, Safe (f x) ↔ P) :
    Safe (e >>= f) ↔ Safe e ∧ P := by
  rw [safe_bind]
  constructor
  · rintro ⟨x, hx, h⟩
    exact ⟨⟨x, hx⟩, (hf x).1 h⟩
  · rintro ⟨⟨x, hx⟩, h⟩
    exact ⟨x, hx, (hf x).2 h⟩

/-- What follows the last load does not fault. -/
theorem safe_last {e : Except Fault α} {f : α → β} : Safe (e >>= fun x => pure (f x)) ↔ Safe e := by
  rw [safe_seq fun x => iff_of_true (safe_pure (f x)) trivial, and_true]

/-! ## Single loads -/

theorem loadByte_ok {b : UInt8} : loadByte buf k = .ok b ↔ ∃ bytes, buf = some bytes ∧ bytes[k]? = some b := by
  cases buf with
  | none => simp [loadByte]
  | some bytes => cases h : bytes[k]? <;> simp [loadByte, h]

/-- An `int` whose four bytes are in the buffer is loaded. -/
theorem loadInt_of_le (h : k + 4 ≤ bytes.length) : loadInt (some bytes) k = .ok (CInt.load (bytes.drop k)) := by
  obtain ⟨b₀, b₁, b₂, b₃, r, hd⟩ : ∃ b₀ b₁ b₂ b₃ r, bytes.drop k = b₀ :: b₁ :: b₂ :: b₃ :: r := by
    have hlen : 4 ≤ (bytes.drop k).length := by rw [List.length_drop]; omega
    match hm : bytes.drop k, hlen with
    | b₀ :: b₁ :: b₂ :: b₃ :: r, _ => exact ⟨b₀, b₁, b₂, b₃, r, rfl⟩
  have hget : ∀ i, bytes[k + i]? = (b₀ :: b₁ :: b₂ :: b₃ :: r)[i]? := by
    intro i
    rw [← hd, List.getElem?_drop]
  have h₀ : bytes[k]? = some b₀ := hget 0
  have h₁ : bytes[k + 1]? = some b₁ := hget 1
  have h₂ : bytes[k + 2]? = some b₂ := hget 2
  have h₃ : bytes[k + 3]? = some b₃ := hget 3
  unfold loadInt loadByte
  simp only [h₀, h₁, h₂, h₃, hd]
  rfl

/-- **An `int` is loaded safely when its four bytes are in the buffer.** -/
theorem safe_loadInt : Safe (loadInt (some bytes) k) ↔ k + 4 ≤ bytes.length := by
  constructor
  · intro h
    unfold loadInt at h
    obtain ⟨_, -, h⟩ := safe_bind.1 h
    obtain ⟨_, -, h⟩ := safe_bind.1 h
    obtain ⟨_, -, h⟩ := safe_bind.1 h
    obtain ⟨b₃, hb, -⟩ := safe_bind.1 h
    obtain ⟨bytes', hs, hb⟩ := loadByte_ok.1 hb
    cases hs
    have := (List.getElem?_eq_some_iff.1 hb).1
    omega
  · intro h
    exact ⟨_, loadInt_of_le h⟩

/-- **A string is read safely when a NUL ends it.** -/
theorem safe_scan : Safe (scan n bytes) ↔ 0 ∈ bytes := by
  induction bytes generalizing n with
  | nil => simp [scan]
  | cons b bs ih =>
    unfold scan
    by_cases hb : b = 0
    · simp [hb]
    · rw [if_neg hb, safe_map, ih, List.mem_cons]
      exact ⟨Or.inr, fun h => h.resolve_left (Ne.symm hb)⟩

/-- A string with its NUL is read up to the NUL. -/
theorem scan_string (h : 0 ∉ str) : scan k (str ++ 0 :: rest) = .ok str := by
  induction str generalizing k with
  | nil => simp [scan]
  | cons c cs ih =>
    rw [List.mem_cons, not_or] at h
    rw [List.cons_append, scan, if_neg (Ne.symm h.1), ih h.2]
    rfl

theorem safe_loadStr : Safe (loadStr (some bytes) k) ↔ 0 ∈ bytes.drop k := safe_scan

/-- **A comparison is safe unless it runs out of bytes**: everything up to the end of the
buffer agrees with the other string. -/
theorem safe_compare : Safe (compare n str bytes) ↔ ¬ bytes <+: str := by
  induction bytes generalizing n str with
  | nil => simp [compare]
  | cons b bs ih =>
    cases str with
    | nil => simp [compare]
    | cons c cs =>
      unfold compare
      rw [List.cons_prefix_cons]
      by_cases hc : c = b
      · rw [if_pos hc, ih]
        simp [hc]
      · rw [if_neg hc]
        simp [Ne.symm hc]

theorem safe_strcmp : Safe (strcmp str (some bytes) k) ↔ ¬ bytes.drop k <+: str := safe_compare

/-- **`strcmp` compares with the string in the field**, when its other argument is a C string. -/
theorem compare_cstr {d : Bool} (hstr : 0 ∉ str) (h : compare n str bytes = .ok d) :
    d = decide (str ≠ cstr bytes) := by
  induction bytes generalizing n str with
  | nil => simp [compare] at h
  | cons b bs ih =>
    unfold cstr
    cases str with
    | nil =>
      simp only [compare, Except.ok.injEq] at h
      rw [← h]
      by_cases hb : b = 0 <;> simp [hb]
    | cons c cs =>
      rw [List.mem_cons, not_or] at hstr
      unfold compare at h
      by_cases hc : c = b
      · have hb : b ≠ 0 := fun h0 => hstr.1 (hc.trans h0).symm
        rw [if_pos hc] at h
        rw [ih hstr.2 h]
        simp [hc, hb, cstr]
      · rw [if_neg hc] at h
        cases h
        by_cases hb : b = 0 <;> simp [hb, hc]

/-! ## Handlers -/

/-- The frames whose handler stays inside the payload. -/
def InBounds (env : Env) (s : Server) (p : Package) : Prop :=
  if p.optype = OP_REGISTER then ∃ k : Nat, 14 ≤ k ∧ (k : Int) < p.lenth ∧ p.data[k]? = some 0
  else if p.optype = OP_LOGIN then
    4 ≤ p.lenth ∧ (env.sql s.log (.selectUser (CInt.load p.data)) = true →
      ∀ row, s.db.selectUser (CInt.load p.data) = some row → ¬ p.data.drop 14 <+: row.password)
  else if p.optype = OP_HEARTBEAT ∨ p.optype = OP_OFFLINE then 4 ≤ p.lenth
  else if p.optype = OP_ADD_FRIEND then 8 ≤ p.lenth
  else if p.optype = OP_ALLOW_ADDF then 12 ≤ p.lenth
  else True

/-- A NUL behind offset `k` is an offset with a NUL. -/
theorem zero_mem_drop : 0 ∈ bytes.drop k ↔ ∃ i, k ≤ i ∧ bytes[i]? = some 0 := by
  rw [List.mem_iff_getElem?]
  constructor
  · rintro ⟨i, hi⟩
    rw [List.getElem?_drop] at hi
    exact ⟨k + i, by omega, hi⟩
  · rintro ⟨i, hk, hi⟩
    refine ⟨i - k, ?_⟩
    rw [List.getElem?_drop, show k + (i - k) = i by omega]
    exact hi

/-- The password of a row is compared safely, and without a row nothing is. -/
theorem safe_comparePassword {id : Int} :
    Safe (comparePassword env s id (some bytes)) ↔
      (env.sql s.log (.selectUser id) = true → ∀ row, s.db.selectUser id = some row →
        ¬ bytes.drop 14 <+: row.password) := by
  unfold comparePassword
  by_cases hq : env.sql s.log (.selectUser id) = true
  · cases hrow : s.db.selectUser id with
    | none => simp [hq]
    | some row => simp [hq, safe_strcmp]
  · simp [hq]

/-- The loads of each handler, from a payload that is there. -/
theorem safe_load_some (op : Int) :
    Safe (load env s ⟨op, some bytes⟩) ↔
      if op = OP_REGISTER then 0 ∈ bytes.drop 14
      else if op = OP_LOGIN then
        4 ≤ bytes.length ∧ (env.sql s.log (.selectUser (CInt.load bytes)) = true →
          ∀ row, s.db.selectUser (CInt.load bytes) = some row → ¬ bytes.drop 14 <+: row.password)
      else if op = OP_HEARTBEAT ∨ op = OP_OFFLINE then 4 ≤ bytes.length
      else if op = OP_ADD_FRIEND then 8 ≤ bytes.length
      else if op = OP_ALLOW_ADDF then 12 ≤ bytes.length
      else True := by
  unfold load
  dsimp only
  by_cases h0 : op = OP_REGISTER
  · rw [if_pos h0, if_pos h0, safe_seq fun _ => safe_last, safe_loadStr, safe_loadStr]
    -- a NUL behind offset 14 ends the user name as well
    have hdrop : bytes.drop 14 = (bytes.drop 4).drop 10 := by rw [List.drop_drop]
    exact ⟨And.right, fun h => ⟨List.mem_of_mem_drop (hdrop ▸ h), h⟩⟩
  rw [if_neg h0, if_neg h0]
  by_cases h1 : op = OP_LOGIN
  · rw [if_pos h1, if_pos h1, safe_bind]
    constructor
    · rintro ⟨id, hid, h⟩
      have hlen : 0 + 4 ≤ bytes.length := safe_loadInt.1 ⟨id, hid⟩
      cases (loadInt_of_le hlen).symm.trans hid
      exact ⟨by omega, safe_comparePassword.1 (safe_last.1 h)⟩
    · rintro ⟨hlen, h⟩
      exact ⟨_, loadInt_of_le (by omega), safe_last.2 (safe_comparePassword.2 h)⟩
  rw [if_neg h1, if_neg h1]
  by_cases h2 : op = OP_HEARTBEAT
  · rw [if_pos h2, if_pos (Or.inl h2), safe_last, safe_loadInt, Nat.zero_add]
  rw [if_neg h2]
  by_cases h3 : op = OP_OFFLINE
  · rw [if_pos h3, if_pos (Or.inr h3), safe_last, safe_loadInt, Nat.zero_add]
  rw [if_neg h3, if_neg (not_or.2 ⟨h2, h3⟩)]
  by_cases h4 : op = OP_ADD_FRIEND
  · rw [if_pos h4, if_pos h4, safe_seq fun _ => safe_last, safe_loadInt, safe_loadInt]
    omega
  rw [if_neg h4, if_neg h4]
  by_cases h5 : op = OP_ALLOW_ADDF
  · rw [if_pos h5, if_pos h5, safe_seq fun _ => safe_seq fun _ => safe_last, safe_loadInt, safe_loadInt,
      safe_loadInt]
    omega
  rw [if_neg h5, if_neg h5]
  exact iff_of_true (safe_pure _) trivial

/-- Without a payload every handler that loads a field faults. -/
theorem safe_load_none (op : Int) :
    Safe (load env s ⟨op, none⟩) ↔ op ≠ OP_REGISTER ∧ op ≠ OP_LOGIN ∧ op ≠ OP_HEARTBEAT ∧ op ≠ OP_OFFLINE ∧
      op ≠ OP_ADD_FRIEND ∧ op ≠ OP_ALLOW_ADDF := by
  constructor
  · intro h
    refine ⟨?_, ?_, ?_, ?_, ?_, ?_⟩ <;> (rintro rfl; exact not_safe_error .unset h)
  · rintro ⟨h0, h1, h2, h3, h4, h5⟩
    unfold load
    dsimp only
    rw [if_neg h0, if_neg h1, if_neg h2, if_neg h3, if_neg h4, if_neg h5]
    exact safe_pure _

/-- **The loads of the handler that a frame selects are safe exactly in bounds.** -/
theorem safe_load : Safe (load env s p.received) ↔ InBounds env s p := by
  have hsize := p.size
  unfold Package.received InBounds
  by_cases hpos : 0 < p.lenth
  · have hbytes : ∀ n : Nat, n ≤ p.data.length ↔ (n : Int) ≤ p.lenth := fun n => by omega
    have hnul : 0 ∈ p.data.drop 14 ↔ ∃ k : Nat, 14 ≤ k ∧ (k : Int) < p.lenth ∧ p.data[k]? = some 0 := by
      rw [zero_mem_drop]
      refine exists_congr fun k => and_congr_right fun _ => ?_
      constructor
      · intro hk
        have := (List.getElem?_eq_some_iff.1 hk).1
        exact ⟨by omega, hk⟩
      · exact And.right
    rw [if_pos hpos, safe_load_some, hnul, hbytes 4, hbytes 8, hbytes 12]
    rfl
  · rw [if_neg hpos, safe_load_none]
    have h4 : ¬ 4 ≤ p.lenth := by omega
    have h8 : ¬ 8 ≤ p.lenth := by omega
    have h12 : ¬ 12 ≤ p.lenth := by omega
    have hnul : ¬ ∃ k : Nat, 14 ≤ k ∧ (k : Int) < p.lenth ∧ p.data[k]? = some 0 := by
      rintro ⟨k, hk, hlt, -⟩
      omega
    simp only [h4, h8, h12, hnul, false_and]
    split_ifs <;> tauto

/-- **Handlers stay inside the received payload** exactly for the frames in bounds: such a
frame, read whole, is handled without a load outside the buffer that `Read` allocated
for it, and any other frame is not. -/
theorem receive_safe_iff (ha : t.Allowed (p.frame ++ rest)) (hw : t.Whole p) :
    Safe (pthreadReceive env confd t (p.frame ++ rest) s) ↔ InBounds env s p := by
  unfold pthreadReceive
  rw [Socket.read_whole ha hw]
  exact safe_last.trans safe_load

/-- A heartbeat of four bytes is handled safely. -/
theorem receive_safe_beat :
    Safe (pthreadReceive calm 5 (Socket.readPart 4) (Socket.beat.package.frame ++ []) (boot pairDb)) := by
  have ha : (Socket.readPart 4).Allowed (Socket.beat.package.frame ++ []) :=
    ⟨by decide, by decide, by decide, by decide, by decide, by decide⟩
  refine (receive_safe_iff ha ⟨rfl, by decide⟩).2 ?_
  show (4 : Int) ≤ 4
  decide

/-- A heartbeat that declares no payload. -/
def bareBeat : Package := ⟨OP_HEARTBEAT, 0, [], by decide, by decide, rfl⟩

/-- **The handler uses a pointer that was never set**: the frame has no payload. -/
theorem receive_unset :
    ∃ env s confd t p rest, t.Allowed (p.frame ++ rest) ∧ t.Whole p ∧
      pthreadReceive env confd t (p.frame ++ rest) s = .error .unset := by
  have ha : (⟨8, 0, List.replicate 8 0, []⟩ : Transfer).Allowed (bareBeat.frame ++ []) :=
    ⟨by decide, by decide, by decide, by decide, by decide, by decide⟩
  have hw : (⟨8, 0, List.replicate 8 0, []⟩ : Transfer).Whole bareBeat := ⟨rfl, by decide⟩
  refine ⟨calm, boot pairDb, 5, _, bareBeat, [], ha, hw, ?_⟩
  unfold pthreadReceive
  rw [Socket.read_whole ha hw]
  rfl

end UnixNote.Server
