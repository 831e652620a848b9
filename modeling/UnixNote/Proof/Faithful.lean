import UnixNote.Proof.Grammar

/-!
# What a successful parse means

A call that returns 0 should have opened a file with an `ip` and a `port`, and have written the last ones; on
everything else it should return -1. It does so on a file that gets stuck at a byte that begins no word, and on
a configuration, but for one whose last port ends with the file and is shorter than five digits: the scan goes
on with the byte that the array holds behind it.

* `sound_of`: it is enough that every call returns -1 or is faithful.
* `cut_run`, `cut_fails`: a port that ends with the file, by what is behind it in the array.
* `sound_iff`: exactly when the call is right.
-/

namespace UnixNote.Conf

variable {t : Int} {name : String} {items : List Item} {a : Address} {d : Decimal} {c : Addr} {buf : Buf UInt8 1024}

/-- What a file holds. -/
abbrev Content := { bs : List UInt8 // bs.length ≤ 1024 }

/-- Items with an `ip` and a `port`, the last of them `a` and `d`. -/
def Ended (bs : List UInt8) (a : Address) (d : Decimal) : Prop :=
  ∃ items, bs = text items ∧ InRange items ∧ lastIp items = some a ∧ lastPort items = some d

/-- The same with a last port that ends with the file. -/
def Cut (bs : List UInt8) (a : Address) (d : Decimal) : Prop :=
  ∃ items, bs = text items ++ 112 :: (portKey ++ d.bytes) ∧ InRange items ∧ lastIp items = some a ∧ d.value ≤ 65535

/-- A configuration with the last address `a` and the last port `d`. -/
def Config (bs : List UInt8) (a : Address) (d : Decimal) : Prop := Ended bs a d ∨ Cut bs a d

/-- The file for a type is opened and has the content. -/
def Opened (F : String → Option Content) (t : Int) (content : Content) : Prop :=
  ∃ name, fileName t = some name ∧ F name = some content

/-- What is read from files. -/
def delivers (F : String → Option Content) (name : String) : Option (List (Block UInt8 1024)) :=
  (F name).map fun content => delivered content.1 content.2

/-- The address is that of the configuration. -/
def Faithful (F : String → Option Content) (t : Int) (addr : Addr) : Prop :=
  ∃ content a d, Opened F t content ∧ Config content.1 a d ∧ Holds addr.ip a.bytes ∧ addr.pport.toNat = d.value

/-- There is a configuration. -/
def Configured (F : String → Option Content) (t : Int) : Prop :=
  ∃ content a d, Opened F t content ∧ Config content.1 a d

/-- Whatever is in the array and at `ip` and `pport`, the call returns; a 0 means that the address is that of the
configuration, and without a configuration it is -1. `client_init` and `server_init` go on with no other address. -/
def Sound (F : String → Option Content) (t : Int) : Prop :=
  (∀ buf c, ∃ r, confFileAnalysis (delivers F) t buf c = .ok r ∧ (r.ret = 0 → Faithful F t r.addr) ∧
    (¬ Configured F t → r.ret = -1)) ∧
  ∀ buf port, ∃ o, init t (delivers F) buf port = .ok o ∧ ∀ addr, o = some addr → Faithful F t addr

/-- An array of blanks. -/
def blanks : Buf UInt8 1024 := ⟨List.replicate 1024 32, List.length_replicate⟩

/-- Blanks, but for a `1` behind `n` bytes. -/
def one (n : Nat) (h : n < 1024) : Buf UInt8 1024 where
  bytes := List.replicate n 32 ++ 49 :: List.replicate (1023 - n) 32
  size := by
    simp
    omega

variable {F : String → Option Content} {content : Content}

/-! ## Runs -/

theorem run_none (ht : fileName t = none) (buf : Buf UInt8 1024) (c : Addr) :
    confFileAnalysis (delivers F) t buf c = .ok ⟨-1, c, ["The argument conf_type is wrong\n"], []⟩ := by
  unfold fileName at ht
  unfold confFileAnalysis
  by_cases hs : t = SERVER_CONF
  · rw [if_pos hs] at ht
    cases ht
  rw [if_neg hs] at ht ⊢
  by_cases hc : t = CLIENT_CONF
  · rw [if_pos hc] at ht
    cases ht
  · rw [if_neg hc]

/-- A file that is missing: nothing is read, and the call returns 0. -/
theorem run_missing (ht : fileName t = some name) (hF : F name = none) (buf : Buf UInt8 1024) (c : Addr) :
    confFileAnalysis (delivers F) t buf c = .ok ⟨0, c, [], []⟩ := by
  rw [confFileAnalysis_eq ht, delivers, hF]
  rfl

theorem run_opened (h : Opened F t content) (buf : Buf UInt8 1024) (c : Addr) :
    confFileAnalysis (delivers F) t buf c = analyse buf (delivered content.1 content.2) c := by
  obtain ⟨name, ht, hF⟩ := h
  rw [confFileAnalysis_eq ht, delivers, hF]
  rfl

theorem Opened.eq {content' : Content} (h : Opened F t content) (h' : Opened F t content') : content = content' := by
  obtain ⟨name, ht, hF⟩ := h
  obtain ⟨name', ht', hF'⟩ := h'
  obtain rfl := Option.some.inj (ht.symm.trans ht')
  exact Option.some.inj (hF.symm.trans hF')

theorem stuck_run {ws : List Word} (h : Reads content.1 ws false) (buf : Buf UInt8 1024) (c : Addr) :
    ∃ r, analyse buf (delivered content.1 content.2) c = .ok r ∧ r.ret = -1 := by
  obtain ⟨ks, -, hscan⟩ := scanBlock_reads h (buf.bytes.drop content.1.length) c
  rw [analyse_delivered h.ne_nil, hscan]
  exact ⟨_, rfl, rfl⟩

/-- A call returns 0, or the file gets stuck at a byte. -/
theorem ret_cases {r : Result} (h : analyse buf (delivered content.1 content.2) c = .ok r) :
    r.ret = 0 ∨ ∃ ws, Reads content.1 ws false := by
  by_cases hne : content.1 = []
  · rw [delivered, dif_pos hne] at h
    obtain rfl := Except.ok.inj h
    exact Or.inl rfl
  rw [analyse_delivered hne] at h
  rcases scanBlock_back content.1 (buf.bytes.drop content.1.length) c with herr | ⟨done, c', ks, hscan, hback⟩
  · rw [herr] at h
    cases h
  rw [hscan] at h
  cases done with
  | true =>
    obtain rfl := Except.ok.inj h
    exact Or.inl rfl
  | false => exact Or.inr (hback (Or.inl rfl))

theorem ended_run (h : Ended content.1 a d) (buf : Buf UInt8 1024) (c : Addr) :
    ∃ r, analyse buf (delivered content.1 content.2) c = .ok r ∧ r.ret = 0 ∧ Holds r.addr.ip a.bytes ∧
      r.addr.pport.toNat = d.value := by
  obtain ⟨bs, hlen⟩ := content
  obtain ⟨items, rfl, hr, ha, hd⟩ := h
  obtain ⟨ks, -, hrun⟩ := analyse_items (by rintro rfl; cases ha) hlen buf c
  refine ⟨_, hrun, rfl, writes_lastIp ha c, ?_⟩
  show (writes items c).pport.toNat = d.value
  rw [writes_lastPort hd, Nat.mod_eq_of_lt (Nat.lt_succ_of_le (lastPort_le hr hd))]

theorem cut_takes (items : List Item) (hc : content.1 = text items ++ 112 :: (portKey ++ d.bytes)) :
    content.1 ≠ [] ∧ Takes content.1 (items.map Item.word) (112 :: (portKey ++ d.bytes)) := by
  rw [hc]
  exact ⟨List.append_ne_nil_of_right_ne_nil _ (List.cons_ne_nil _ _), Takes.items items _⟩

/-- A port that ends with the file, and the bytes of the array that the scan takes for more of it. -/
theorem cut_run (items : List Item) (hc : content.1 = text items ++ 112 :: (portKey ++ d.bytes))
    {more rest : List UInt8} {b : UInt8} (hstale : buf.bytes.drop content.1.length = more ++ b :: rest)
    (hmore : ∀ x ∈ d.bytes ++ more, ¬ Blank x) (hshort : (d.bytes ++ more).length ≤ 5)
    (hends : Blank b ∨ (d.bytes ++ more).length = 5) (c : Addr) :
    ∃ r, analyse buf (delivered content.1 content.2) c = .ok r ∧ r.ret = 0 ∧
      r.addr = (writes items c).setPort (d.bytes ++ more) := by
  obtain ⟨hne, htakes⟩ := cut_takes items hc
  have hover : (112 :: (portKey ++ d.bytes)).length ≤
      (Word.port (d.bytes ++ more) b hmore hshort hends).bytes.length := by
    simp [Word.bytes]
  have hword : 112 :: (portKey ++ d.bytes) ++ buf.bytes.drop content.1.length =
      (Word.port (d.bytes ++ more) b hmore hshort hends).bytes ++ rest := by
    rw [hstale]
    simp [Word.bytes]
  obtain ⟨ks, hscan⟩ := scanBlock_cut htakes (List.cons_ne_nil _ _) _ hword hover c
  rw [analyse_delivered hne, hscan]
  exact ⟨_, rfl, rfl, rfl⟩

/-- The array ends before the port does. -/
theorem cut_fails (items : List Item) (hc : content.1 = text items ++ 112 :: (portKey ++ d.bytes)) {more : List UInt8}
    (hstale : buf.bytes.drop content.1.length = more) (hmore : ∀ x ∈ d.bytes ++ more, ¬ Blank x)
    (hshort : (d.bytes ++ more).length ≤ 5) (c : Addr) :
    analyse buf (delivered content.1 content.2) c = .error .behind := by
  subst hstale
  obtain ⟨hne, htakes⟩ := cut_takes items hc
  have hscan : scanBlock (content.1 ++ buf.bytes.drop content.1.length) content.1.length c = .error .behind := by
    refine scanBlock_fails htakes (List.cons_ne_nil _ _) (fun i c hd => ?_) c
    rw [List.cons_append, List.append_assoc] at hd
    have hval : (content.1 ++ buf.bytes.drop content.1.length).drop (i + 1 + portKey.length) =
        d.bytes ++ buf.bytes.drop content.1.length := by
      rw [← List.drop_drop, drop_succ hd, List.drop_left]
    exact turn_port_fails hd (value_fails (by rwa [hval]) (by rwa [hval])) c
  rw [analyse_delivered hne, hscan]
  rfl

/-! ## A port that ends with the file -/

/-- The digits with nothing taken from behind the file. -/
theorem Decimal.append_nil (d : Decimal) : (∀ x ∈ d.bytes ++ [], ¬ Blank x) ∧ (d.bytes ++ []).length ≤ 5 := by
  rw [List.append_nil]
  exact ⟨not_blank_of_decimal d.decimal, d.short⟩

/-- With blanks behind the file, the port is that of the configuration. -/
theorem config_port (h : Config content.1 a d) (hlt : content.1.length < 1024) (c : Addr) :
    ∃ r, analyse blanks (delivered content.1 content.2) c = .ok r ∧ r.addr.pport.toNat = d.value := by
  rcases h with h | ⟨items, hc, hr, ha, hd⟩
  · obtain ⟨r, hrun, -, -, hport⟩ := ended_run h blanks c
    exact ⟨r, hrun, hport⟩
  · have hstale : blanks.bytes.drop content.1.length = [] ++ 32 :: List.replicate (1023 - content.1.length) 32 := by
      rw [blanks, List.drop_replicate, List.nil_append, ← List.replicate_succ]
      congr 1
      omega
    obtain ⟨r, hrun, -, haddr⟩ := cut_run items hc hstale d.append_nil.1 d.append_nil.2 (Or.inl (Or.inr rfl)) c
    refine ⟨r, hrun, ?_⟩
    rw [haddr, List.append_nil, setPort_pport d.decimal]
    exact Nat.mod_eq_of_lt (Nat.lt_succ_of_le hd)

theorem append_one (d : Decimal) : ∀ c ∈ d.bytes ++ [49], 48 ≤ c ∧ c ≤ 57 := by
  intro c hc
  rcases List.mem_append.1 hc with hc | hc
  · exact d.decimal c hc
  · obtain rfl := List.mem_singleton.1 hc
    decide

theorem decimalFrom_append_one (d : Decimal) : decimalFrom 0 (d.bytes ++ [49]) = 10 * d.value + 1 := by
  rw [decimalFrom, List.foldl_append]
  rfl

theorem one_drop {n : Nat} (h : n < 1024) : (one n h).bytes.drop n = 49 :: List.replicate (1023 - n) 32 := by
  have hn : (List.replicate n (32 : UInt8)).length = n := List.length_replicate
  calc (one n h).bytes.drop n = (one n h).bytes.drop (List.replicate n (32 : UInt8)).length := by rw [hn]
    _ = 49 :: List.replicate (1023 - n) 32 := List.drop_left

theorem Sound.returns (hs : Sound F t) (hF : Opened F t content) (buf : Buf UInt8 1024) (c : Addr) :
    ∃ r, analyse buf (delivered content.1 content.2) c = .ok r ∧ (r.ret = 0 → Faithful F t r.addr) := by
  obtain ⟨r, hrun, hfaith, -⟩ := hs.1 buf c
  rw [run_opened hF] at hrun
  exact ⟨r, hrun, hfaith⟩

/-- **Back from soundness**: where a port ends with the file, it has five digits, and the array goes on. -/
theorem cut_of_sound (hF : Opened F t content) (hs : Sound F t) (h : Cut content.1 a d) :
    d.bytes.length = 5 ∧ content.1.length < 1024 := by
  have hcut := h
  obtain ⟨items, hc, hr, ha, hd⟩ := h
  let c : Addr := ⟨fun _ => 0, 0⟩
  have hlt : content.1.length < 1024 := by
    by_contra hge
    have hnil : blanks.bytes.drop content.1.length = [] :=
      List.drop_eq_nil_of_le (by rw [blanks.size]; exact Nat.le_of_not_lt hge)
    have herr := cut_fails items hc hnil d.append_nil.1 d.append_nil.2 c
    obtain ⟨r, hrun, -⟩ := hs.returns hF blanks c
    rw [herr] at hrun
    cases hrun
  refine ⟨?_, hlt⟩
  by_contra hfive
  have hshort : (d.bytes ++ [49]).length ≤ 5 := by
    have := d.short
    rw [List.length_append, List.length_singleton]
    omega
  have hmore := not_blank_of_decimal (append_one d)
  obtain ⟨r, hrun, hfaith⟩ := hs.returns hF (one content.1.length hlt) c
  have hone := one_drop hlt
  by_cases hlast : content.1.length = 1023
  · -- the array ends behind the `1`
    rw [show 1023 - content.1.length = 0 by omega, List.replicate_zero] at hone
    rw [cut_fails items hc hone hmore hshort c] at hrun
    cases hrun
  -- the port is ten times what it should be, and one
  have hstale : (one content.1.length hlt).bytes.drop content.1.length =
      [49] ++ 32 :: List.replicate (1022 - content.1.length) 32 := by
    rw [hone, show 1023 - content.1.length = 1022 - content.1.length + 1 by omega]
    rfl
  obtain ⟨r', hrun', hret, haddr⟩ := cut_run items hc hstale hmore hshort (Or.inl (Or.inr rfl)) c
  obtain rfl := Except.ok.inj (hrun.symm.trans hrun')
  obtain ⟨content', a', d', hF', hconf', -, hport⟩ := hfaith hret
  obtain rfl := hF.eq hF'
  have hsame : d'.value = d.value := by
    obtain ⟨r1, hr1, hp1⟩ := config_port (Or.inr hcut) hlt c
    obtain ⟨r2, hr2, hp2⟩ := config_port hconf' hlt c
    obtain rfl := Except.ok.inj (hr1.symm.trans hr2)
    exact hp2.symm.trans hp1
  rw [haddr, setPort_pport (append_one d), decimalFrom_append_one, hsame] at hport
  have hval : d.value < 10 ^ 4 := by
    have := d.short
    exact Nat.lt_of_lt_of_le d.value_lt (Nat.pow_le_pow_right (by decide) (by omega))
  omega

/-! ## Soundness -/

/-- It is enough that a call returns -1 or is faithful. -/
theorem sound_of (h : ∀ buf c, ∃ r, confFileAnalysis (delivers F) t buf c = .ok r ∧
    (r.ret = -1 ∨ r.ret = 0 ∧ Faithful F t r.addr)) : Sound F t := by
  constructor
  · intro buf c
    obtain ⟨r, hrun, hr⟩ := h buf c
    refine ⟨r, hrun, fun h0 => ?_, fun hnot => ?_⟩
    · rcases hr with h1 | ⟨-, hf⟩
      · rw [h0] at h1
        cases h1
      · exact hf
    · rcases hr with h1 | ⟨-, content, a, d, hF, hconf, -⟩
      · exact h1
      · exact absurd ⟨content, a, d, hF, hconf⟩ hnot
  · intro buf port
    obtain ⟨r, hrun, hr⟩ := h buf ⟨fun _ => 0, port⟩
    rcases hr with h1 | ⟨h0, hf⟩
    · refine ⟨none, ?_, nofun⟩
      rw [init, hrun]
      show (if (if r.ret = 0 then 1 else 0) = 0 then _ else _) = _
      rw [if_pos (by rw [h1]; decide)]
      rfl
    · refine ⟨some r.addr, ?_, fun addr haddr => Option.some.inj haddr ▸ hf⟩
      rw [init, hrun]
      show (if (if r.ret = 0 then 1 else 0) = 0 then _ else _) = _
      rw [if_neg (by rw [h0]; decide)]
      rfl

/-- **Exactly when a call is right.** -/
theorem sound_iff (F : String → Option Content) (t : Int) : Sound F t ↔
    fileName t = none ∨ ∃ content, Opened F t content ∧ ((∃ ws, Reads content.1 ws false) ∨
      (∃ a d, Ended content.1 a d) ∨ ∃ a d, Cut content.1 a d ∧ d.bytes.length = 5 ∧ content.1.length < 1024) := by
  constructor
  · intro hs
    cases ht : fileName t with
    | none => exact Or.inl rfl
    | some name =>
      right
      cases hF : F name with
      | none =>
        -- nothing is read, and the call returns 0
        obtain ⟨r, hrun, hfaith, -⟩ := hs.1 blanks ⟨fun _ => 0, 0⟩
        rw [run_missing ht hF] at hrun
        obtain rfl := Except.ok.inj hrun
        obtain ⟨content, a, d, ⟨name', ht', hF'⟩, -⟩ := hfaith rfl
        obtain rfl := Option.some.inj (ht.symm.trans ht')
        rw [hF] at hF'
        cases hF'
      | some content =>
        have hopen : Opened F t content := ⟨name, ht, hF⟩
        refine ⟨content, hopen, ?_⟩
        obtain ⟨r, hrun, hfaith⟩ := hs.returns hopen blanks ⟨fun _ => 0, 0⟩
        rcases ret_cases hrun with h0 | hstuck
        · obtain ⟨content', a, d, hopen', hconf, -⟩ := hfaith h0
          obtain rfl := hopen.eq hopen'
          rcases hconf with hended | hcut
          · exact Or.inr (Or.inl ⟨a, d, hended⟩)
          · exact Or.inr (Or.inr ⟨a, d, hcut, cut_of_sound hopen hs hcut⟩)
        · exact Or.inl hstuck
  · rintro (ht | ⟨content, hopen, ⟨ws, hstuck⟩ | ⟨a, d, hended⟩ | ⟨a, d, hcut, hfive, hlt⟩⟩)
    · exact sound_of fun buf c => ⟨_, run_none ht buf c, Or.inl rfl⟩
    · refine sound_of fun buf c => ?_
      obtain ⟨r, hrun, hret⟩ := stuck_run hstuck buf c
      exact ⟨r, by rw [run_opened hopen, hrun], Or.inl hret⟩
    · refine sound_of fun buf c => ?_
      obtain ⟨r, hrun, hret, haddr, hport⟩ := ended_run hended buf c
      exact ⟨r, by rw [run_opened hopen, hrun], Or.inr ⟨hret, content, a, d, hopen, Or.inl hended, haddr, hport⟩⟩
    · refine sound_of fun buf c => ?_
      have hconf : Config content.1 a d := Or.inr hcut
      obtain ⟨items, hc, hr, ha, hd⟩ := hcut
      obtain ⟨b, rest, hstale⟩ : ∃ b rest, buf.bytes.drop content.1.length = [] ++ b :: rest :=
        ⟨_, _, List.drop_eq_getElem_cons (by rw [buf.size]; exact hlt)⟩
      obtain ⟨r, hrun, hret, haddr⟩ := cut_run items hc hstale d.append_nil.1 d.append_nil.2
        (Or.inr (by rw [List.append_nil]; exact hfive)) c
      refine ⟨r, by rw [run_opened hopen, hrun], Or.inr ⟨hret, content, a, d, hopen, hconf, ?_, ?_⟩⟩
      · rw [haddr]
        exact writes_lastIp ha c
      · rw [haddr, List.append_nil, setPort_pport d.decimal]
        exact Nat.mod_eq_of_lt (Nat.lt_succ_of_le hd)

/-- The address that an init goes on with. -/
theorem Sound.goes_on {port : UInt16} {addr : Addr} (hs : Sound F t)
    (hrun : init t (delivers F) buf port = .ok (some addr)) : Faithful F t addr := by
  obtain ⟨o, ho, hfaith⟩ := hs.2 buf port
  exact hfaith addr (Except.ok.inj (ho.symm.trans hrun))

theorem inits_faithful {port : UInt16} {addr : Addr} :
    (Sound F CLIENT_CONF → clientInit (delivers F) buf port = .ok (some addr) → Faithful F CLIENT_CONF addr) ∧
      (Sound F SERVER_CONF → serverInit (delivers F) buf port = .ok (some addr) → Faithful F SERVER_CONF addr) :=
  ⟨fun hs hrun => hs.goes_on hrun, fun hs hrun => hs.goes_on hrun⟩

/-- No file is there, and the call returns 0. -/
theorem sound_iff_counterexample : ¬ Sound (fun _ => none) SERVER_CONF := by
  intro hs
  obtain ⟨r, hrun, hfaith, -⟩ := hs.1 blanks ⟨fun _ => 0, 0⟩
  rw [run_missing fileName_server rfl] at hrun
  obtain rfl := Except.ok.inj hrun
  obtain ⟨content, a, d, ⟨name, -, hF⟩, -⟩ := hfaith rfl
  cases hF

end UnixNote.Conf
