import UnixNote.Chat.Conf

/-!
# Words of a configuration

What one turn of the scan takes from the array: a comment, a blank, a key with its value, or a key
that is misspelt, of which the byte behind the first wrong one is stepped over unseen.

* `turn_word`: a turn at a word looks at the bytes of the word, each once, and at no others.
* `turn_cases`: at every index there is a byte that begins no word, a word, or the end of the array
  comes before the word's.
* `scan_reads`, `scan_back`: the scan of a block and what is known from how it ended.
* `scan_inside`: when a scan keeps to its block.
-/

namespace UnixNote.Conf

open Keyboard (atoi)

variable {buf rest : List UInt8} {i n fuel lenth : Nat} {c : Addr} {b : UInt8}
  {stop : UInt8 → Prop} [DecidablePred stop]

/-- A key and what was compared to it: the bytes `k` are right, and `b` is not. -/
def Differs (key k : List UInt8) (b : UInt8) : Prop := ∃ c post, key = k ++ c :: post ∧ b ≠ c

/-- What one turn takes. -/
inductive Word where
  | comment (text : List UInt8) (inner : 10 ∉ text)
  | blank (b : UInt8) (is : Blank b)
  /-- The value is ended by a quote, or cut after 15 bytes. -/
  | ip (addr : List UInt8) (b : UInt8) (inner : ∀ c ∈ addr, c ≠ 34) (short : addr.length ≤ 15)
      (ends : b = 34 ∨ addr.length = 15)
  | ipKey (k : List UInt8) (b : UInt8) (differs : Differs Conf.ipKey k b)
  | port (digits : List UInt8) (b : UInt8) (inner : ∀ c ∈ digits, ¬ Blank c) (short : digits.length ≤ 5)
      (ends : Blank b ∨ digits.length = 5)
  | portKey (k : List UInt8) (b : UInt8) (differs : Differs Conf.portKey k b)

namespace Word

/-- The bytes looked at. -/
def bytes : Word → List UInt8
  | comment text _ => 35 :: (text ++ [10])
  | blank b _ => [b]
  | ip addr b _ _ _ => 105 :: (Conf.ipKey ++ (addr ++ [b]))
  | ipKey k b _ => 105 :: (k ++ [b])
  | port digits b _ _ _ => 112 :: (Conf.portKey ++ (digits ++ [b]))
  | portKey k b _ => 112 :: (k ++ [b])

/-- How many bytes behind it are stepped over. -/
def skip : Word → Nat
  | ipKey .. => 1
  | portKey .. => 1
  | _ => 0

/-- What is written. -/
def apply : Word → Addr → Addr
  | ip addr _ _ _ _, c => c.setIp (addr ++ [0])
  | port digits _ _ _ _, c => c.setPort digits
  | portKey _ _ _, c => c.setPort []
  | _, c => c

end Word

/-- The first byte of a word. -/
def Starts (b : UInt8) : Prop := b = 35 ∨ Blank b ∨ b = 105 ∨ b = 112

instance : DecidablePred Starts := fun b => inferInstanceAs (Decidable (b = 35 ∨ Blank b ∨ b = 105 ∨ b = 112))

theorem Word.starts (w : Word) : ∃ b bs, w.bytes = b :: bs ∧ Starts b := by
  cases w with
  | comment text _ => exact ⟨35, _, rfl, Or.inl rfl⟩
  | blank b is => exact ⟨b, _, rfl, Or.inr (Or.inl is)⟩
  | ip addr b _ _ _ => exact ⟨105, _, rfl, Or.inr (Or.inr (Or.inl rfl))⟩
  | ipKey k b _ => exact ⟨105, _, rfl, Or.inr (Or.inr (Or.inl rfl))⟩
  | port digits b _ _ _ => exact ⟨112, _, rfl, Or.inr (Or.inr (Or.inr rfl))⟩
  | portKey k b _ => exact ⟨112, _, rfl, Or.inr (Or.inr (Or.inr rfl))⟩

theorem Word.length_pos (w : Word) : 0 < w.bytes.length := by
  obtain ⟨b, bs, h, -⟩ := w.starts
  rw [h]
  exact Nat.zero_lt_succ _

/-! ## The inner loops -/

theorem comment_looks {text : List UInt8} (hd : buf.drop i = text ++ 10 :: rest) (hno : 10 ∉ text)
    (hf : text.length < fuel) : Looks (comment buf fuel i) i (text.length + 1) (i + text.length) := by
  induction text generalizing i fuel with
  | nil =>
    obtain ⟨fuel, rfl⟩ : ∃ f, fuel = f + 1 := ⟨fuel - 1, by simp at hf; omega⟩
    exact (probe_looks Stop.behind hd).then (if_pos rfl)
  | cons b text ih =>
    obtain ⟨fuel, rfl⟩ : ∃ f, fuel = f + 1 := ⟨fuel - 1, by simp at hf; omega⟩
    rw [List.mem_cons, not_or] at hno
    have hrest : Looks (comment buf fuel (i + 1)) (i + 1) (text.length + 1) (i + 1 + text.length) :=
      ih (drop_succ hd) hno.2 (Nat.lt_of_succ_lt_succ hf)
    rw [List.length_cons, Nat.add_comm text.length 1, Nat.add_assoc 1, ← Nat.add_assoc i, comment]
    refine (probe_looks Stop.behind hd).bind ?_
    rw [if_neg (Ne.symm hno.1)]
    exact hrest

theorem comment_fails (hno : 10 ∉ buf.drop i) (hi : i ≤ buf.length) (hf : buf.length < fuel + i) :
    Fails (comment buf fuel i) .behind := by
  induction fuel generalizing i with
  | zero => omega
  | succ fuel ih =>
    rw [comment]
    cases hd : buf.drop i with
    | nil => exact (probe_fails Stop.behind hd).bind _
    | cons b rest =>
      have hlt : i < buf.length := by
        by_contra hge
        rw [List.drop_eq_nil_of_le (Nat.le_of_not_lt hge)] at hd
        cases hd
      rw [hd, List.mem_cons, not_or] at hno
      refine (probe_looks Stop.behind hd).fails ?_
      rw [if_neg (Ne.symm hno.1)]
      exact ih (by rw [drop_succ hd]; exact hno.2) hlt (by omega)

theorem key_looks {k : List UInt8} (hd : buf.drop i = k ++ rest) :
    Looks (key buf k i) i k.length (true, i + k.length) := by
  induction k generalizing i with
  | nil => exact Looks.pure _ _
  | cons c k ih =>
    rw [List.length_cons, Nat.add_comm k.length 1, ← Nat.add_assoc i, key]
    refine (probe_looks Stop.behind hd).bind ?_
    rw [if_pos rfl]
    exact ih (drop_succ hd)

theorem key_differs {k pre : List UInt8} (hd : buf.drop i = pre ++ b :: rest) (hk : Differs k pre b) :
    Looks (key buf k i) i (pre.length + 1) (false, i + pre.length + 1) := by
  obtain ⟨c, post, rfl, hne⟩ := hk
  induction pre generalizing i with
  | nil => exact (probe_looks Stop.behind hd).then (if_neg hne)
  | cons d pre ih =>
    rw [List.length_cons, Nat.add_comm pre.length 1, Nat.add_assoc 1, ← Nat.add_assoc i, List.cons_append, key]
    refine (probe_looks Stop.behind hd).bind ?_
    rw [if_pos rfl]
    exact ih (drop_succ hd)

theorem key_cases (buf k : List UInt8) (i : Nat) : (∃ rest, buf.drop i = k ++ rest) ∨
    (∃ pre b rest, buf.drop i = pre ++ b :: rest ∧ Differs k pre b) ∨ Fails (key buf k i) .behind := by
  induction k generalizing i with
  | nil => exact Or.inl ⟨_, rfl⟩
  | cons c k ih =>
    cases hd : buf.drop i with
    | nil => exact Or.inr (Or.inr ((probe_fails Stop.behind hd).bind _))
    | cons b rest =>
      by_cases hb : b = c
      swap
      · exact Or.inr (Or.inl ⟨[], b, rest, rfl, c, k, rfl, hb⟩)
      subst hb
      rcases ih (i + 1) with ⟨rest', h⟩ | ⟨pre, d, rest', h, e, post, rfl, hne⟩ | h
      · rw [drop_succ hd] at h
        exact Or.inl ⟨rest', by rw [h]; rfl⟩
      · rw [drop_succ hd] at h
        exact Or.inr (Or.inl ⟨b :: pre, d, rest', by rw [h]; rfl, e, post, rfl, hne⟩)
      · refine Or.inr (Or.inr ((probe_looks Stop.behind hd).fails ?_))
        rw [if_pos rfl]
        exact h

theorem value_looks {bs : List UInt8} (hd : buf.drop i = bs ++ b :: rest) (hin : ∀ c ∈ bs, ¬ stop c)
    (hlen : bs.length ≤ n) (hb : stop b ∨ bs.length = n) :
    Looks (value buf stop n i) i (bs.length + 1) (bs, i + bs.length) := by
  induction bs generalizing i n with
  | nil =>
    rw [value.eq_def]
    refine (probe_looks Stop.behind hd).then ?_
    by_cases hs : stop b
    · exact if_pos hs
    · obtain rfl : n = 0 := (hb.resolve_left hs).symm
      exact if_neg hs
  | cons x bs ih =>
    obtain ⟨n, rfl⟩ : ∃ m, n = m + 1 := ⟨n - 1, by simp at hlen; omega⟩
    have hrest : Looks (value buf stop n (i + 1)) (i + 1) (bs.length + 1) (bs, i + 1 + bs.length) :=
      ih (drop_succ hd) (fun c hc => hin c (List.mem_cons_of_mem _ hc)) (Nat.le_of_succ_le_succ hlen)
        (hb.imp_right Nat.succ.inj)
    rw [List.length_cons, Nat.add_comm bs.length 1, Nat.add_assoc 1, ← Nat.add_assoc i, value.eq_def]
    refine (probe_looks Stop.behind hd).bind ?_
    rw [if_neg (hin x List.mem_cons_self)]
    exact hrest.then rfl

/-- Nothing stops the value before the array ends. -/
theorem value_fails (hin : ∀ c ∈ buf.drop i, ¬ stop c) (hlen : (buf.drop i).length ≤ n) :
    Fails (value buf stop n i) .behind := by
  induction n generalizing i with
  | zero =>
    rw [value.eq_def]
    exact (probe_fails Stop.behind (List.eq_nil_of_length_eq_zero (Nat.le_zero.1 hlen))).bind _
  | succ n ih =>
    rw [value.eq_def]
    cases hd : buf.drop i with
    | nil => exact (probe_fails Stop.behind hd).bind _
    | cons b rest =>
      rw [hd] at hin hlen
      obtain ⟨hb, hrest⟩ := List.forall_mem_cons.1 hin
      refine (probe_looks Stop.behind hd).fails ?_
      rw [if_neg hb]
      exact (ih (by rwa [drop_succ hd]) (by rw [drop_succ hd]; exact Nat.le_of_succ_le_succ hlen)).bind _

theorem value_cases (buf : List UInt8) (stop : UInt8 → Prop) [DecidablePred stop] (n i : Nat) :
    (∃ bs b rest, buf.drop i = bs ++ b :: rest ∧ (∀ c ∈ bs, ¬ stop c) ∧
      bs.length ≤ n ∧ (stop b ∨ bs.length = n)) ∨ Fails (value buf stop n i) .behind := by
  induction n generalizing i with
  | zero =>
    rw [value.eq_def]
    cases hd : buf.drop i with
    | nil => exact Or.inr ((probe_fails Stop.behind hd).bind _)
    | cons b rest => exact Or.inl ⟨[], b, rest, rfl, nofun, Nat.le_refl _, Or.inr rfl⟩
  | succ n ih =>
    rw [value.eq_def]
    cases hd : buf.drop i with
    | nil => exact Or.inr ((probe_fails Stop.behind hd).bind _)
    | cons b rest =>
      by_cases hs : stop b
      · exact Or.inl ⟨[], b, rest, rfl, nofun, Nat.zero_le _, Or.inl hs⟩
      rcases ih (i + 1) with ⟨bs, x, rest', h, hin, hlen, hx⟩ | h
      · rw [drop_succ hd] at h
        refine Or.inl ⟨b :: bs, x, rest', by rw [h]; rfl, ?_, Nat.succ_le_succ hlen, hx.imp_right (congrArg _)⟩
        exact List.forall_mem_cons.2 ⟨hs, hin⟩
      · refine Or.inr ((probe_looks Stop.behind hd).fails ?_)
        rw [if_neg hs]
        exact h.bind _

/-! ## A key and its value -/

/-- The two branches with a key: a value behind it is written by `f`, and where the key is misspelt `d` is left. -/
def keyed (buf k : List UInt8) (stop : UInt8 → Prop) [DecidablePred stop] (n i : Nat) (f : List UInt8 → Addr)
    (d : Addr) : Probe Stop (Option (Nat × Addr)) := do
  let (same, i) ← key buf k i
  if same then
    let (bs, i) ← value buf stop n i
    pure (some (i + 1, f bs))
  else pure (some (i + 1, d))

variable {k : List UInt8} {f : List UInt8 → Addr} {d : Addr}

theorem keyed_value {bs : List UInt8} (hd : buf.drop i = k ++ (bs ++ b :: rest)) (hin : ∀ c ∈ bs, ¬ stop c)
    (hlen : bs.length ≤ n) (hb : stop b ∨ bs.length = n) :
    Looks (keyed buf k stop n i f d) i (k.length + (bs.length + 1)) (some (i + k.length + bs.length + 1, f bs)) := by
  have hval : buf.drop (i + k.length) = bs ++ b :: rest := by rw [← List.drop_drop, hd, List.drop_left]
  exact (key_looks hd).bind ((value_looks hval hin hlen hb).then rfl)

theorem keyed_differs {pre : List UInt8} (hd : buf.drop i = pre ++ b :: rest) (hk : Differs k pre b) :
    Looks (keyed buf k stop n i f d) i (pre.length + 1) (some (i + pre.length + 1 + 1, d)) :=
  (key_differs hd hk).then rfl

theorem keyed_fails (hd : buf.drop i = k ++ rest) (hfail : Fails (value buf stop n (i + k.length)) .behind) :
    Fails (keyed buf k stop n i f d) .behind :=
  (key_looks hd).fails (hfail.bind _)

theorem keyed_cases (buf k : List UInt8) (stop : UInt8 → Prop) [DecidablePred stop] (n i : Nat)
    (f : List UInt8 → Addr) (d : Addr) :
    (∃ bs b rest, buf.drop i = k ++ (bs ++ b :: rest) ∧ (∀ c ∈ bs, ¬ stop c) ∧ bs.length ≤ n ∧
      (stop b ∨ bs.length = n)) ∨
    (∃ pre b rest, buf.drop i = pre ++ b :: rest ∧ Differs k pre b) ∨ Fails (keyed buf k stop n i f d) .behind := by
  rcases key_cases buf k i with ⟨rest, hk⟩ | hdiff | hfail
  · rcases value_cases buf stop n (i + k.length) with ⟨bs, b, rest', hv, hin, hlen, hb⟩ | hfail
    · rw [← List.drop_drop, hk, List.drop_left] at hv
      exact Or.inl ⟨bs, b, rest', by rw [hk, hv], hin, hlen, hb⟩
    · exact Or.inr (Or.inr (keyed_fails hk hfail))
  · exact Or.inr (Or.inl hdiff)
  · exact Or.inr (Or.inr (hfail.bind _))

/-! ## One turn -/

variable {m : Nat} {r : Option (Nat × Addr)}

theorem turn_i (hd : buf.drop i = 105 :: rest)
    (h : Looks (keyed buf ipKey (· = 34) 15 (i + 1) (fun bs => c.setIp (bs ++ [0])) c) (i + 1) m r) :
    Looks (turn buf i c) i (1 + m) r := by
  refine (probe_looks Stop.behind hd).bind ?_
  rw [if_neg (by decide), if_neg (by decide), if_pos rfl]
  exact h

theorem turn_i_fails (hd : buf.drop i = 105 :: rest)
    (h : Fails (keyed buf ipKey (· = 34) 15 (i + 1) (fun bs => c.setIp (bs ++ [0])) c) .behind) :
    Fails (turn buf i c) .behind := by
  refine (probe_looks Stop.behind hd).fails ?_
  rw [if_neg (by decide), if_neg (by decide), if_pos rfl]
  exact h

theorem turn_p (hd : buf.drop i = 112 :: rest)
    (h : Looks (keyed buf portKey Blank 5 (i + 1) c.setPort (c.setPort [])) (i + 1) m r) :
    Looks (turn buf i c) i (1 + m) r := by
  refine (probe_looks Stop.behind hd).bind ?_
  rw [if_neg (by decide), if_neg (by decide), if_neg (by decide), if_pos rfl]
  exact h

theorem turn_p_fails (hd : buf.drop i = 112 :: rest)
    (h : Fails (keyed buf portKey Blank 5 (i + 1) c.setPort (c.setPort [])) .behind) :
    Fails (turn buf i c) .behind := by
  refine (probe_looks Stop.behind hd).fails ?_
  rw [if_neg (by decide), if_neg (by decide), if_neg (by decide), if_pos rfl]
  exact h

theorem next_eq {j j' : Nat} (h : j = j') (c : Addr) : some (j, c) = some (j', c) := by
  rw [h]

/-- **A turn at a word** looks at its bytes and at no others. -/
theorem turn_word (w : Word) (hd : buf.drop i = w.bytes ++ rest) (c : Addr) :
    Looks (turn buf i c) i w.bytes.length (some (i + w.bytes.length + w.skip, w.apply c)) := by
  cases w with
  | comment text inner =>
    replace hd : buf.drop i = 35 :: (text ++ 10 :: rest) := by simpa [Word.bytes] using hd
    have hlen : text.length < buf.length := by
      have h := congrArg List.length hd
      simp at h
      omega
    have hturn : Looks (turn buf i c) i (1 + (text.length + 1)) (some (i + 1 + text.length + 1, c)) := by
      refine (probe_looks Stop.behind hd).bind ?_
      rw [if_pos rfl]
      exact (comment_looks (drop_succ hd) inner hlen).then rfl
    refine hturn.of_eq ?_ (next_eq ?_ _) <;> simp [Word.bytes, Word.skip] <;> omega
  | blank b is =>
    refine (probe_looks Stop.behind hd).then ?_
    rw [if_neg (by rcases is with rfl | rfl <;> decide), if_pos is]
    rfl
  | ip addr b inner short ends =>
    replace hd : buf.drop i = 105 :: (ipKey ++ (addr ++ b :: rest)) := by simpa [Word.bytes] using hd
    have hturn := turn_i (c := c) hd (keyed_value (drop_succ hd) inner short ends)
    refine hturn.of_eq ?_ (next_eq ?_ _) <;> simp [Word.bytes, Word.skip] <;> omega
  | ipKey k b differs =>
    replace hd : buf.drop i = 105 :: (k ++ b :: rest) := by simpa [Word.bytes] using hd
    have hturn := turn_i (c := c) hd (keyed_differs (drop_succ hd) differs)
    refine hturn.of_eq ?_ (next_eq ?_ _) <;> simp [Word.bytes, Word.skip] <;> omega
  | port digits b inner short ends =>
    replace hd : buf.drop i = 112 :: (portKey ++ (digits ++ b :: rest)) := by simpa [Word.bytes] using hd
    have hturn := turn_p (c := c) hd (keyed_value (drop_succ hd) inner short ends)
    refine hturn.of_eq ?_ (next_eq ?_ _) <;> simp [Word.bytes, Word.skip] <;> omega
  | portKey k b differs =>
    replace hd : buf.drop i = 112 :: (k ++ b :: rest) := by simpa [Word.bytes] using hd
    have hturn := turn_p (c := c) hd (keyed_differs (drop_succ hd) differs)
    refine hturn.of_eq ?_ (next_eq ?_ _) <;> simp [Word.bytes, Word.skip] <;> omega

/-- A turn at a byte that begins no word. -/
theorem turn_stuck (hd : buf.drop i = b :: rest) (hb : ¬ Starts b) (c : Addr) : Looks (turn buf i c) i 1 none := by
  obtain ⟨h1, h2, h3, h4⟩ : b ≠ 35 ∧ ¬ Blank b ∧ b ≠ 105 ∧ b ≠ 112 := by simpa [Starts] using hb
  refine (probe_looks Stop.behind hd).then ?_
  rw [if_neg h1, if_neg h2, if_neg h3, if_neg h4]

/-- A comment that no newline ends. -/
theorem turn_hash_fails (hd : buf.drop i = 35 :: rest) (hno : 10 ∉ rest) (c : Addr) :
    Fails (turn buf i c) .behind := by
  have hi : i < buf.length := by
    by_contra hge
    rw [List.drop_eq_nil_of_le (Nat.le_of_not_lt hge)] at hd
    cases hd
  refine (probe_looks Stop.behind hd).fails ?_
  rw [if_pos rfl]
  exact (comment_fails (by rwa [drop_succ hd]) hi (by omega)).bind _

/-- A port that the array ends in. -/
theorem turn_port_fails (hd : buf.drop i = 112 :: (portKey ++ rest))
    (hfail : Fails (value buf Blank 5 (i + 1 + portKey.length)) .behind) (c : Addr) : Fails (turn buf i c) .behind :=
  turn_p_fails hd (keyed_fails (drop_succ hd) hfail)

/-- **Every turn** is at a byte that begins no word, or at a word, or goes on to the end of the array. -/
theorem turn_cases (hi : i < buf.length) (c : Addr) :
    (∃ b rest, buf.drop i = b :: rest ∧ ¬ Starts b) ∨
      (∃ w : Word, ∃ rest, buf.drop i = w.bytes ++ rest) ∨ Fails (turn buf i c) .behind := by
  obtain ⟨b, rest, hd⟩ : ∃ b rest, buf.drop i = b :: rest := ⟨_, _, List.drop_eq_getElem_cons hi⟩
  by_cases hb : Starts b
  swap
  · exact Or.inl ⟨b, rest, hd, hb⟩
  right
  rcases hb with rfl | hb | rfl | rfl
  · by_cases hno : 10 ∈ rest
    · obtain ⟨text, rest', rfl, hin⟩ := List.eq_append_cons_of_mem hno
      exact Or.inl ⟨.comment text hin, rest', by simp [hd, Word.bytes]⟩
    · exact Or.inr (turn_hash_fails hd hno c)
  · exact Or.inl ⟨.blank b hb, rest, by simp [hd, Word.bytes]⟩
  · rcases keyed_cases buf ipKey (· = 34) 15 (i + 1) (fun bs => c.setIp (bs ++ [0])) c with
      ⟨addr, b, rest', hk, hin, hlen, hb⟩ | ⟨pre, b, rest', hk, hdiff⟩ | hfail
    · rw [drop_succ hd] at hk
      exact Or.inl ⟨.ip addr b hin hlen hb, rest', by simp [hd, hk, Word.bytes]⟩
    · rw [drop_succ hd] at hk
      exact Or.inl ⟨.ipKey pre b hdiff, rest', by simp [hd, hk, Word.bytes]⟩
    · exact Or.inr (turn_i_fails hd hfail)
  · rcases keyed_cases buf portKey Blank 5 (i + 1) c.setPort (c.setPort []) with
      ⟨digits, b, rest', hk, hin, hlen, hb⟩ | ⟨pre, b, rest', hk, hdiff⟩ | hfail
    · rw [drop_succ hd] at hk
      exact Or.inl ⟨.port digits b hin hlen hb, rest', by simp [hd, hk, Word.bytes]⟩
    · rw [drop_succ hd] at hk
      exact Or.inl ⟨.portKey pre b hdiff, rest', by simp [hd, hk, Word.bytes]⟩
    · exact Or.inr (turn_p_fails hd hfail)

/-! ## A block -/

/-- The words `ws` are taken from `bs`, and `rest` is left. -/
inductive Takes : List UInt8 → List Word → List UInt8 → Prop
  | nil (rest : List UInt8) : Takes rest [] rest
  | word (w : Word) {behind rest : List UInt8} {ws : List Word} (h : Takes (behind.drop w.skip) ws rest) :
      Takes (w.bytes ++ behind) (w :: ws) rest

/-- The bytes are words to the end, or, for `false`, up to a byte that begins none. -/
inductive Reads (bs : List UInt8) (ws : List Word) : Bool → Prop
  | whole (h : Takes bs ws []) : Reads bs ws true
  | stuck {b : UInt8} {rest : List UInt8} (h : Takes bs ws (b :: rest)) (hb : ¬ Starts b) : Reads bs ws false

/-- What words write. -/
def applies (ws : List Word) (c : Addr) : Addr := ws.foldl (fun c w => w.apply c) c

variable {bs : List UInt8} {ws : List Word} {r : Bool}

theorem Reads.cons {w : Word} {behind : List UInt8} (h : Reads (behind.drop w.skip) ws r) :
    Reads (w.bytes ++ behind) (w :: ws) r := by
  cases h with
  | whole h => exact .whole (.word w h)
  | stuck h hb => exact .stuck (.word w h) hb

theorem Takes.nil_left (h : Takes [] ws rest) : ws = [] ∧ rest = [] := by
  generalize hbs : ([] : List UInt8) = bs at h
  cases h with
  | nil rest => exact ⟨rfl, rfl⟩
  | word w h =>
    have hpos := w.length_pos
    rw [(List.append_eq_nil_iff.1 hbs.symm).1] at hpos
    exact absurd hpos (Nat.lt_irrefl 0)

theorem Reads.ne_nil (h : Reads bs ws false) : bs ≠ [] := by
  rintro rfl
  cases h with
  | stuck h hb => cases h.nil_left.2

/-- The bytes of the block at an index, and the array there. -/
theorem drop_block (hd : (buf.take lenth).drop i = b :: rest) :
    i < lenth ∧ buf.drop i = b :: rest ++ buf.drop lenth := by
  have hlt : i < (buf.take lenth).length := by
    by_contra hge
    rw [List.drop_eq_nil_of_le (Nat.le_of_not_lt hge)] at hd
    cases hd
  refine ⟨by rw [List.length_take] at hlt; omega, ?_⟩
  rw [← hd, ← List.drop_append_of_le_length (Nat.le_of_lt hlt), List.take_append_drop]

theorem scan_word (hi : i < lenth) (w : Word) (hd : buf.drop i = w.bytes ++ rest) (c : Addr) (reads : List Nat) :
    scan buf lenth (fuel + 1) i c reads =
      scan buf lenth fuel (i + w.bytes.length + w.skip) (w.apply c) (reads ++ List.range' i w.bytes.length) := by
  rw [scan, if_pos hi, bind_eq, turn_word w hd c]
  rfl

theorem scan_over (hi : lenth ≤ i) (c : Addr) (reads : List Nat) :
    scan buf lenth (fuel + 1) i c reads = .ok ((true, c), reads) := by
  rw [scan, if_neg (Nat.not_lt.2 hi)]
  rfl

theorem scan_stuck (hi : i < lenth) (hd : buf.drop i = b :: rest) (hb : ¬ Starts b) (c : Addr) (reads : List Nat) :
    scan buf lenth (fuel + 1) i c reads = .ok ((false, c), reads ++ [i]) := by
  rw [scan, if_pos hi, bind_eq, turn_stuck hd hb c]
  rfl

/-- There are turns enough from `i` on. -/
def Enough (lenth fuel i : Nat) : Prop := 0 < fuel ∧ lenth < fuel + i

/-- **The words of a block, one turn each**, with accesses to the block only. -/
theorem scan_takes (h : Takes bs ws rest) (hd : (buf.take lenth).drop i = bs) (hf : Enough lenth fuel i) (c : Addr)
    (reads : List Nat) :
    ∃ fuel' i' ks, (buf.take lenth).drop i' = rest ∧ Enough lenth fuel' i' ∧ (∀ k ∈ ks, k < lenth) ∧
      scan buf lenth fuel i c reads = scan buf lenth fuel' i' (applies ws c) (reads ++ ks) := by
  induction h generalizing i fuel c reads with
  | nil rest => exact ⟨fuel, i, [], hd, hf, nofun, by rw [List.append_nil]; rfl⟩
  | @word w behind rest ws h ih =>
    obtain ⟨b, bs, hw, -⟩ := w.starts
    have hfront : (buf.take lenth).drop i = b :: (bs ++ behind) := by
      rw [hd, hw]
      rfl
    obtain ⟨hi, hbuf⟩ := drop_block hfront
    replace hbuf : buf.drop i = w.bytes ++ (behind ++ buf.drop lenth) := by rw [hbuf, hw]; simp
    obtain ⟨fuel, rfl⟩ : ∃ f, fuel = f + 1 := ⟨fuel - 1, by have := hf.1; omega⟩
    have hnext : (buf.take lenth).drop (i + w.bytes.length + w.skip) = behind.drop w.skip := by
      rw [← List.drop_drop, ← List.drop_drop, hd, List.drop_left]
    have hf' : Enough lenth fuel (i + w.bytes.length + w.skip) := by
      have := w.length_pos
      have := hf.2
      exact ⟨by omega, by omega⟩
    obtain ⟨fuel', i', ks, hrest, hf', hks, heq⟩ := ih hnext hf' (w.apply c) (reads ++ List.range' i w.bytes.length)
    refine ⟨fuel', i', List.range' i w.bytes.length ++ ks, hrest, hf', ?_, ?_⟩
    · intro k hk
      rcases List.mem_append.1 hk with hk | hk
      · have hlen := congrArg List.length hd
        rw [List.length_drop, List.length_take, List.length_append] at hlen
        have := (List.mem_range'_1.1 hk).2
        omega
      · exact hks k hk
    · rw [scan_word hi w hbuf, heq, List.append_assoc]
      rfl

/-- **A block of whole words** is scanned to its end or to the byte that begins none. -/
theorem scan_reads (h : Reads bs ws r) (hd : (buf.take lenth).drop i = bs) (hf : Enough lenth fuel i)
    (hlen : lenth ≤ buf.length) (c : Addr) (reads : List Nat) :
    ∃ ks, (∀ k ∈ ks, k < lenth) ∧ scan buf lenth fuel i c reads = .ok ((r, applies ws c), reads ++ ks) := by
  cases h with
  | whole h =>
    obtain ⟨fuel', i', ks, hrest, hf', hks, heq⟩ := scan_takes h hd hf c reads
    have hi' : lenth ≤ i' := by
      rw [List.drop_eq_nil_iff, List.length_take] at hrest
      omega
    obtain ⟨fuel', rfl⟩ : ∃ f, fuel' = f + 1 := ⟨fuel' - 1, by have := hf'.1; omega⟩
    exact ⟨ks, hks, by rw [heq, scan_over hi']⟩
  | @stuck b rest h hb =>
    obtain ⟨fuel', i', ks, hrest, hf', hks, heq⟩ := scan_takes h hd hf c reads
    obtain ⟨hi', hbuf⟩ := drop_block hrest
    obtain ⟨fuel', rfl⟩ : ∃ f, fuel' = f + 1 := ⟨fuel' - 1, by have := hf'.1; omega⟩
    refine ⟨ks ++ [i'], ?_, by rw [heq, scan_stuck hi' hbuf hb, List.append_assoc]⟩
    exact List.forall_mem_append.2 ⟨hks, List.forall_mem_singleton.2 hi'⟩

/-- **Back from a scan**: it ends, unless it looks behind the array; and where it returns -1, or has
looked at nothing behind the block, the block is whole words. -/
theorem scan_back (hf : Enough lenth fuel i) (hlen : lenth ≤ buf.length) (c : Addr) (reads : List Nat) :
    scan buf lenth fuel i c reads = .error .behind ∨
      ∃ r c' ks, scan buf lenth fuel i c reads = .ok ((r, c'), reads ++ ks) ∧
        ((r = false ∨ ∀ k ∈ ks, k < lenth) → ∃ ws, Reads ((buf.take lenth).drop i) ws r) := by
  induction fuel generalizing i c reads with
  | zero => exact absurd hf.1 (Nat.lt_irrefl 0)
  | succ fuel ih =>
    by_cases hi : i < lenth
    swap
    · refine Or.inr ⟨true, c, [], by rw [scan_over (Nat.not_lt.1 hi), List.append_nil], fun _ => ⟨[], .whole ?_⟩⟩
      rw [List.drop_eq_nil_of_le (by rw [List.length_take]; omega)]
      exact .nil []
    rcases turn_cases (Nat.lt_of_lt_of_le hi hlen) c with ⟨b, rest, hd, hb⟩ | ⟨w, rest, hd⟩ | hfail
    · have hfront : (buf.take lenth).drop i = b :: rest.take (lenth - i - 1) := by
        rw [List.drop_take, hd, show lenth - i = lenth - i - 1 + 1 by omega]
        rfl
      refine Or.inr ⟨false, c, [i], scan_stuck hi hd hb c reads, fun _ => ⟨[], ?_⟩⟩
      rw [hfront]
      exact .stuck (.nil _) hb
    · have hf' : Enough lenth fuel (i + w.bytes.length + w.skip) := by
        have := w.length_pos
        have := hf.2
        exact ⟨by omega, by omega⟩
      rw [scan_word hi w hd]
      rcases ih hf' (w.apply c) (reads ++ List.range' i w.bytes.length) with herr | ⟨r, c', ks, heq, hback⟩
      · exact Or.inl herr
      refine Or.inr ⟨r, c', List.range' i w.bytes.length ++ ks, by rw [heq, List.append_assoc], fun hr => ?_⟩
      obtain ⟨ws, hws⟩ := hback (hr.imp_right fun h k hk => h k (List.mem_append_right _ hk))
      have hin : i + w.bytes.length ≤ lenth := by
        rcases hr with rfl | hr
        · have hne := hws.ne_nil
          rw [Ne, List.drop_eq_nil_iff, List.length_take] at hne
          omega
        · have hpos := w.length_pos
          have hlast := hr (i + w.bytes.length - 1)
            (List.mem_append_left _ (List.mem_range'_1.2 ⟨by omega, by omega⟩))
          omega
      have hblock : (buf.take lenth).drop i = w.bytes ++ rest.take (lenth - i - w.bytes.length) := by
        rw [List.drop_take, hd, List.take_append, List.take_of_length_le (by omega)]
      refine ⟨w :: ws, ?_⟩
      rw [hblock]
      refine Reads.cons ?_
      rwa [← List.drop_drop, ← List.drop_drop, hblock, List.drop_left] at hws
    · refine Or.inl ?_
      rw [scan, if_pos hi, bind_eq, hfail]
      rfl

/-! ## The scan of a block in the array -/

variable {stale more : List UInt8}

theorem enough_start (lenth : Nat) : Enough lenth (lenth + 1) 0 := ⟨Nat.zero_lt_succ _, Nat.lt_succ_self _⟩

theorem length_le_append (bs stale : List UInt8) : bs.length ≤ (bs ++ stale).length := by
  rw [List.length_append]
  exact Nat.le_add_right _ _

theorem scanBlock_takes (h : Takes bs ws rest) (stale : List UInt8) (c : Addr) :
    ∃ fuel i ks, ((bs ++ stale).take bs.length).drop i = rest ∧ Enough bs.length fuel i ∧ (∀ k ∈ ks, k < bs.length) ∧
      scanBlock (bs ++ stale) bs.length c = scan (bs ++ stale) bs.length fuel i (applies ws c) ks :=
  scan_takes (i := 0) h (List.take_left ..) (enough_start _) c []

theorem scanBlock_reads (h : Reads bs ws r) (stale : List UInt8) (c : Addr) :
    ∃ ks, (∀ k ∈ ks, k < bs.length) ∧ scanBlock (bs ++ stale) bs.length c = .ok ((r, applies ws c), ks) :=
  scan_reads (i := 0) h (List.take_left ..) (enough_start _) (length_le_append bs stale) c []

theorem scanBlock_back (bs stale : List UInt8) (c : Addr) : scanBlock (bs ++ stale) bs.length c = .error .behind ∨
    ∃ r c' ks, scanBlock (bs ++ stale) bs.length c = .ok ((r, c'), ks) ∧
      ((r = false ∨ ∀ k ∈ ks, k < bs.length) → ∃ ws, Reads bs ws r) := by
  have h := scan_back (enough_start bs.length) (length_le_append bs stale) c []
  rw [List.take_left, List.drop_zero] at h
  exact h

/-- The block ends inside the word `w`, and the scan takes the rest of it from behind the block. -/
theorem scanBlock_cut (h : Takes bs ws rest) (hne : rest ≠ []) (w : Word) (hw : rest ++ stale = w.bytes ++ more)
    (hover : rest.length ≤ w.bytes.length) (c : Addr) :
    ∃ ks, scanBlock (bs ++ stale) bs.length c = .ok ((true, w.apply (applies ws c)), ks) := by
  obtain ⟨fuel, i, ks, hrest, hf, -, heq⟩ := scanBlock_takes h stale c
  obtain ⟨b, rest, rfl⟩ := List.exists_cons_of_ne_nil hne
  obtain ⟨hi, hbuf⟩ := drop_block hrest
  rw [List.drop_left, hw] at hbuf
  obtain ⟨fuel, rfl⟩ : ∃ f, fuel = f + 2 := ⟨fuel - 2, by have := hf.2; omega⟩
  have hend : bs.length ≤ i + w.bytes.length + w.skip := by
    rw [List.take_left] at hrest
    have := congrArg List.length hrest
    rw [List.length_drop] at this
    omega
  exact ⟨_, by rw [heq, scan_word hi w hbuf, scan_over hend]⟩

/-- The block ends inside a word, and so does the array. -/
theorem scanBlock_fails (h : Takes bs ws rest) (hne : rest ≠ [])
    (hfail : ∀ i c, (bs ++ stale).drop i = rest ++ stale → Fails (turn (bs ++ stale) i c) .behind) (c : Addr) :
    scanBlock (bs ++ stale) bs.length c = .error .behind := by
  obtain ⟨fuel, i, ks, hrest, hf, -, heq⟩ := scanBlock_takes h stale c
  obtain ⟨b, rest, rfl⟩ := List.exists_cons_of_ne_nil hne
  obtain ⟨hi, hbuf⟩ := drop_block hrest
  rw [List.drop_left] at hbuf
  obtain ⟨fuel, rfl⟩ : ∃ f, fuel = f + 1 := ⟨fuel - 1, by have := hf.1; omega⟩
  rw [heq, scan, if_pos hi, bind_eq, hfail i _ hbuf]
  rfl

/-- **The scan ends inside the block exactly where the block does not end inside a word**: it is words to
its end, or up to a byte that begins none. -/
theorem scan_inside (buf : Buf UInt8 1024) (b : Block UInt8 1024) (c : Addr) :
    (∃ r ks, scanBlock (buf.read b).bytes b.bytes.length c = .ok (r, ks) ∧ ∀ k ∈ ks, k < b.bytes.length) ↔
      ∃ ws r, Reads b.bytes ws r := by
  rw [Buf.read_bytes]
  constructor
  · rintro ⟨r, ks, hrun, hks⟩
    rcases scanBlock_back b.bytes (buf.bytes.drop b.bytes.length) c with herr | ⟨r', c', ks', heq, hback⟩
    · rw [hrun] at herr
      cases herr
    · obtain ⟨rfl, rfl⟩ := Prod.mk.inj (Except.ok.inj (hrun.symm.trans heq))
      obtain ⟨ws, hws⟩ := hback (Or.inr hks)
      exact ⟨ws, r', hws⟩
  · rintro ⟨ws, r, h⟩
    obtain ⟨ks, hks, hrun⟩ := scanBlock_reads h (buf.bytes.drop b.bytes.length) c
    exact ⟨_, ks, hrun, hks⟩

theorem scanBlock_hash (stale : List UInt8) (c : Addr) :
    scanBlock (35 :: 10 :: stale) 1 c = .ok ((true, c), [0, 1]) := rfl

/-- A block that is one `#`: the end of the comment is looked for behind it. -/
theorem scan_inside_counterexample : ¬ ∃ r ks,
    scanBlock ((⟨List.replicate 1024 10, List.length_replicate⟩ : Buf UInt8 1024).read
      ⟨[35], List.cons_ne_nil _ _, by decide⟩).bytes 1 ⟨fun _ => 0, 0⟩ = .ok (r, ks) ∧ ∀ k ∈ ks, k < 1 := by
  rintro ⟨r, ks, hrun, hks⟩
  have hhash := scanBlock_hash (List.replicate 1022 10) ⟨fun _ => 0, 0⟩
  obtain ⟨rfl, rfl⟩ := Prod.mk.inj (Except.ok.inj (hhash.symm.trans hrun))
  exact absurd (hks 1 (by decide)) (Nat.lt_irrefl 1)

end UnixNote.Conf
