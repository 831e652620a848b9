import Mathlib.Algebra.Group.Nat.Defs
import Mathlib.Data.List.TakeWhile
import Mathlib.Data.List.Induction
import UnixNote.Proof.Scan

/-!
# The grammar of a configuration

* `Item`: a comment, a blank, `ip="A"` with its quotes, or `port=D` with the blank behind it.
* `Takes.items`: items are taken item by item.
* `applies_lastIp`, `applies_lastPort`: what is written in the end are the last values.
* `accepts`: `conf_file_analysis` returns 0 on a file of items, with the last values.
-/

namespace UnixNote.Conf

open Keyboard (atoi isSpace digits)

/-- The bytes between the quotes. -/
structure Address where
  bytes : List UInt8
  inner : ∀ c ∈ bytes, c ≠ 34
  short : bytes.length ≤ 15

/-- One to five decimal digits. -/
structure Decimal where
  bytes : List UInt8
  some : bytes ≠ []
  short : bytes.length ≤ 5
  decimal : ∀ c ∈ bytes, 48 ≤ c ∧ c ≤ 57

/-- The decimal value of bytes, behind digits of the value `n`. -/
def decimalFrom (n : Nat) (bs : List UInt8) : Nat := bs.foldl (fun n b => 10 * n + (b.toNat - 48)) n

def Decimal.value (d : Decimal) : Nat := decimalFrom 0 d.bytes

/-- What a configuration is made of. -/
inductive Item where
  | comment (text : List UInt8) (inner : 10 ∉ text)
  | blank (b : UInt8) (is : Blank b)
  | ip (addr : Address)
  | port (number : Decimal) (b : UInt8) (is : Blank b)

namespace Item

def bytes : Item → List UInt8
  | comment text _ => 35 :: (text ++ [10])
  | blank b _ => [b]
  | ip addr => 105 :: (ipKey ++ (addr.bytes ++ [34]))
  | port number b _ => 112 :: (portKey ++ (number.bytes ++ [b]))

def address? : Item → Option Address
  | ip addr => some addr
  | _ => none

def number? : Item → Option Decimal
  | port number _ _ => some number
  | _ => none

end Item

/-- The items of a file, one behind the other. -/
def text (items : List Item) : List UInt8 := items.flatMap Item.bytes

def lastIp (items : List Item) : Option Address := (items.filterMap Item.address?).getLast?

def lastPort (items : List Item) : Option Decimal := (items.filterMap Item.number?).getLast?

/-- The ports are ports. -/
def InRange (items : List Item) : Prop := ∀ it ∈ items, ∀ d ∈ it.number?, d.value ≤ 65535

/-! ## Decimal digits -/

theorem not_blank_of_decimal {bs : List UInt8} (hdec : ∀ c ∈ bs, 48 ≤ c ∧ c ≤ 57) : ∀ c ∈ bs, ¬ Blank c := by
  intro c hc hb
  have h := (hdec c hc).1
  rcases hb with rfl | rfl
  · exact absurd h (by decide)
  · exact absurd h (by decide)

theorem digits_decimal {bs : List UInt8} (h : ∀ c ∈ bs, 48 ≤ c ∧ c ≤ 57) (n : Nat) :
    digits n bs = decimalFrom n bs := by
  induction bs generalizing n with
  | nil => rfl
  | cons b bs ih =>
    obtain ⟨hb, hbs⟩ := List.forall_mem_cons.1 h
    rw [digits, if_pos hb]
    have hn : (10 * (n : Int) + ((b.toNat - 48 : Nat) : Int)) = ((10 * n + (b.toNat - 48) : Nat) : Int) := by
      push_cast
      rfl
    rw [hn, ih hbs]
    rfl

theorem decimalFrom_lt {bs : List UInt8} (h : ∀ c ∈ bs, 48 ≤ c ∧ c ≤ 57) (n : Nat) :
    decimalFrom n bs < (n + 1) * 10 ^ bs.length := by
  induction bs generalizing n with
  | nil => simp [decimalFrom]
  | cons b bs ih =>
    obtain ⟨⟨-, hb⟩, hbs⟩ := List.forall_mem_cons.1 h
    have hb' : b.toNat - 48 ≤ 9 := by
      have : b.toNat ≤ 57 := UInt8.le_iff_toNat_le.1 hb
      omega
    calc decimalFrom n (b :: bs) = decimalFrom (10 * n + (b.toNat - 48)) bs := rfl
      _ < (10 * n + (b.toNat - 48) + 1) * 10 ^ bs.length := ih hbs _
      _ ≤ ((n + 1) * 10) * 10 ^ bs.length := Nat.mul_le_mul_right _ (by omega)
      _ = (n + 1) * 10 ^ (b :: bs).length := by rw [Nat.mul_assoc, ← Nat.pow_succ', List.length_cons]

theorem atoi_decimal {bs : List UInt8} (h : ∀ c ∈ bs, 48 ≤ c ∧ c ≤ 57) :
    atoi (bs.takeWhile (· ≠ 0)) = decimalFrom 0 bs := by
  have hnul : bs.takeWhile (· ≠ 0) = bs := by
    refine List.takeWhile_eq_self_iff.2 fun c hc => ?_
    have := (h c hc).1
    refine decide_eq_true ?_
    rintro rfl
    exact absurd this (by decide)
  rw [hnul, ← digits_decimal h 0]
  cases bs with
  | nil => rfl
  | cons b bs =>
    have hb := (h b List.mem_cons_self).1
    have hb' := (h b List.mem_cons_self).2
    have hspace : isSpace b = false := by
      rw [isSpace, decide_eq_false_iff_not]
      rintro (rfl | ⟨-, h13⟩)
      · exact absurd hb (by decide)
      · exact absurd (UInt8.le_trans hb h13) (by decide)
    rw [atoi, List.dropWhile_cons_of_neg (by rw [hspace]; decide)]
    split
    · next h45 => rw [(List.cons.inj h45).1] at hb; exact absurd hb (by decide)
    · next h43 => rw [(List.cons.inj h43).1] at hb; exact absurd hb (by decide)
    · rfl

theorem setPort_pport {bs : List UInt8} (h : ∀ c ∈ bs, 48 ≤ c ∧ c ≤ 57) (c : Addr) :
    (c.setPort bs).pport.toNat = decimalFrom 0 bs % 65536 := by
  show (UInt16.ofInt (atoi (bs.takeWhile (· ≠ 0)))).toNat = _
  rw [atoi_decimal h]
  simp [UInt16.ofInt]
  omega

/-- The value of one to five digits is below 100000. -/
theorem Decimal.value_lt (d : Decimal) : d.value < 10 ^ d.bytes.length := by
  have h := decimalFrom_lt d.decimal 0
  rwa [Nat.zero_add, Nat.one_mul] at h

/-! ## Items are words -/

/-- The word that the scan takes for an item. -/
def Item.word : Item → Word
  | comment text inner => .comment text inner
  | blank b is => .blank b is
  | ip addr => .ip addr.bytes 34 addr.inner addr.short (Or.inl rfl)
  | port number b is => .port number.bytes b (not_blank_of_decimal number.decimal) number.short (Or.inl is)

@[simp]
theorem Item.word_bytes (it : Item) : it.word.bytes = it.bytes := by
  cases it <;> rfl

@[simp]
theorem Item.word_skip (it : Item) : it.word.skip = 0 := by
  cases it <;> rfl

/-- What items write. -/
def writes (items : List Item) (c : Addr) : Addr := applies (items.map Item.word) c

theorem Takes.items (items : List Item) (rest : List UInt8) :
    Takes (text items ++ rest) (items.map Item.word) rest := by
  induction items with
  | nil => exact .nil rest
  | cons it items ih =>
    rw [text, List.flatMap_cons, List.append_assoc, ← it.word_bytes]
    refine .word it.word ?_
    rw [it.word_skip]
    exact ih

theorem text_ne_nil {items : List Item} (h : items ≠ []) : text items ≠ [] := by
  obtain ⟨it, items, rfl⟩ := List.exists_cons_of_ne_nil h
  obtain ⟨b, bs, hw, -⟩ := it.word.starts
  rw [text, List.flatMap_cons, ← it.word_bytes, hw]
  exact List.cons_ne_nil _ _

theorem Reads.items (items : List Item) : Reads (text items) (items.map Item.word) true :=
  .whole (by simpa using Takes.items items [])

/-! ## What is written -/

variable {items : List Item} {a : Address} {d : Decimal} {c : Addr}

theorem setIp_holds (c : Addr) (bs : List UInt8) : Holds (c.setIp (bs ++ [0])).ip bs := by
  refine ⟨fun j b hj => ?_, ?_⟩
  · have hlt : j < bs.length := (List.getElem?_eq_some_iff.1 hj).1
    show (bs ++ [0]).getD j _ = b
    rw [List.getD_eq_getElem?_getD, List.getElem?_append_left hlt, hj]
    rfl
  · show (bs ++ [0]).getD bs.length _ = 0
    simp

theorem writes_concat (items : List Item) (it : Item) (c : Addr) :
    writes (items ++ [it]) c = it.word.apply (writes items c) := by
  rw [writes, writes, applies, applies, List.map_append, List.foldl_append]
  rfl

theorem writes_lastIp (h : lastIp items = some a) (c : Addr) : Holds (writes items c).ip a.bytes := by
  induction items using List.reverseRecOn with
  | nil => cases h
  | append_singleton items it ih =>
    rw [writes_concat]
    rw [lastIp, List.filterMap_append, List.getLast?_append] at h
    cases it with
    | ip addr =>
      obtain rfl : addr = a := by simpa [Item.address?] using h
      exact setIp_holds _ _
    | comment text inner => exact ih h
    | blank b is => exact ih h
    | port number b is => exact ih h

theorem writes_lastPort (h : lastPort items = some d) (c : Addr) : (writes items c).pport.toNat = d.value % 65536 := by
  induction items using List.reverseRecOn with
  | nil => cases h
  | append_singleton items it ih =>
    rw [writes_concat]
    rw [lastPort, List.filterMap_append, List.getLast?_append] at h
    cases it with
    | port number b is =>
      obtain rfl : number = d := by simpa [Item.number?] using h
      exact setPort_pport number.decimal _
    | comment text inner => exact ih h
    | blank b is => exact ih h
    | ip addr => exact ih h

theorem lastPort_le (hr : InRange items) (h : lastPort items = some d) : d.value ≤ 65535 := by
  obtain ⟨it, hit, hnum⟩ := List.mem_filterMap.1 (List.mem_of_getLast? h)
  exact hr it hit d hnum

theorem Word.apply_beyond (w : Word) (c : Addr) {j : Nat} (hj : 16 ≤ j) : (w.apply c).ip j = c.ip j := by
  cases w with
  | ip addr b inner short ends =>
    have hlen : (addr ++ [0]).length ≤ j := by
      rw [List.length_append, List.length_singleton]
      omega
    show (addr ++ [0]).getD j (c.ip j) = _
    rw [List.getD_eq_getElem?_getD, List.getElem?_eq_none hlen]
    rfl
  | _ => rfl

theorem applies_beyond (ws : List Word) (c : Addr) {j : Nat} (hj : 16 ≤ j) : (applies ws c).ip j = c.ip j := by
  induction ws generalizing c with
  | nil => rfl
  | cons w ws ih => exact (ih (w.apply c)).trans (w.apply_beyond c hj)

/-! ## Files -/

/-- The file that is opened for a type. -/
def fileName (t : Int) : Option String :=
  if t = SERVER_CONF then some "./server.conf" else if t = CLIENT_CONF then some "./client.conf" else none

theorem fileName_server : fileName SERVER_CONF = some "./server.conf" := rfl

variable {t : Int} {name : String} {buf : Buf UInt8 1024} {b : Block UInt8 1024} {bs : List (Block UInt8 1024)}
  {c' : Addr} {ks : List Nat} {files : String → Option (List (Block UInt8 1024))}

theorem confFileAnalysis_eq (hn : fileName t = some name) (files : String → Option (List (Block UInt8 1024)))
    (buf : Buf UInt8 1024) (c : Addr) : confFileAnalysis files t buf c = analyse buf ((files name).getD []) c := by
  unfold fileName at hn
  unfold confFileAnalysis
  by_cases hs : t = SERVER_CONF
  · rw [if_pos hs] at hn ⊢
    rw [← Option.some.inj hn]
  rw [if_neg hs] at hn ⊢
  by_cases hc : t = CLIENT_CONF
  · rw [if_pos hc] at hn ⊢
    rw [← Option.some.inj hn]
  · rw [if_neg hc] at hn
    cases hn

theorem analyse_done (h : scanBlock (buf.read b).bytes b.bytes.length c = .ok ((true, c'), ks)) :
    analyse buf (b :: bs) c = (analyse (buf.read b) bs c').map
      fun r => { r with accesses := (b.bytes.length, ks) :: r.accesses } := by
  rw [analyse, h]
  rfl

theorem analyse_stuck (h : scanBlock (buf.read b).bytes b.bytes.length c = .ok ((false, c'), ks)) :
    analyse buf (b :: bs) c =
      .ok ⟨-1, c', ["Analysis network configuration file failed!\n"], [(b.bytes.length, ks)]⟩ := by
  rw [analyse, h]
  rfl

theorem analyse_error {e : Stop} (h : scanBlock (buf.read b).bytes b.bytes.length c = .error e) :
    analyse buf (b :: bs) c = .error e := by
  rw [analyse, h]
  rfl

/-- What is read from a file of at most 1024 bytes. -/
def delivered (bs : List UInt8) (h : bs.length ≤ 1024) : List (Block UInt8 1024) :=
  if hne : bs = [] then [] else [⟨bs, hne, h⟩]

/-- **One read**: the call comes to what the scan of the block comes to. -/
theorem analyse_delivered {bs : List UInt8} (hne : bs ≠ []) (hlen : bs.length ≤ 1024) (buf : Buf UInt8 1024)
    (c : Addr) :
    analyse buf (delivered bs hlen) c = (scanBlock (bs ++ buf.bytes.drop bs.length) bs.length c).map fun r =>
      if r.1.1 then ⟨0, r.1.2, [], [(bs.length, r.2)]⟩
      else ⟨-1, r.1.2, ["Analysis network configuration file failed!\n"], [(bs.length, r.2)]⟩ := by
  have hdelivered : delivered bs hlen = [⟨bs, hne, hlen⟩] := dif_neg hne
  rw [hdelivered]
  cases hscan : scanBlock (bs ++ buf.bytes.drop bs.length) bs.length c with
  | error e =>
    have hread : scanBlock (buf.read ⟨bs, hne, hlen⟩).bytes bs.length c = .error e := hscan
    rw [analyse_error hread]
    rfl
  | ok r =>
    obtain ⟨⟨done, c'⟩, ks⟩ := r
    have hread : scanBlock (buf.read ⟨bs, hne, hlen⟩).bytes bs.length c = .ok ((done, c'), ks) := hscan
    cases done with
    | false => rw [analyse_stuck hread]; rfl
    | true => rw [analyse_done hread]; rfl

/-- The run on items, with accesses below the length. -/
theorem analyse_items (h : items ≠ []) (hlen : (text items).length ≤ 1024) (buf : Buf UInt8 1024) (c : Addr) :
    ∃ ks, (∀ k ∈ ks, k < (text items).length) ∧ analyse buf (delivered (text items) hlen) c =
      .ok ⟨0, writes items c, [], [((text items).length, ks)]⟩ := by
  obtain ⟨ks, hks, hscan⟩ := scanBlock_reads (Reads.items items) (buf.bytes.drop (text items).length) c
  exact ⟨ks, hks, by rw [analyse_delivered (text_ne_nil h), hscan]; rfl⟩

/-- **A file of items**, with an `ip` and a `port` among them, is accepted with the last ones. -/
theorem accepts (hn : fileName t = some name) (hr : InRange items) (ha : lastIp items = some a)
    (hd : lastPort items = some d) (hlen : (text items).length ≤ 1024)
    (hf : files name = some (delivered (text items) hlen)) (buf : Buf UInt8 1024) (c : Addr) :
    ∃ r, confFileAnalysis files t buf c = .ok r ∧ r.ret = 0 ∧ Holds r.addr.ip a.bytes ∧
      (∀ j, 16 ≤ j → r.addr.ip j = c.ip j) ∧ r.addr.pport.toNat = d.value ∧
        ∀ block ∈ r.accesses, ∀ k ∈ block.2, k < (text items).length := by
  obtain ⟨ks, hks, hrun⟩ := analyse_items (by rintro rfl; cases ha) hlen buf c
  refine ⟨⟨0, writes items c, [], [((text items).length, ks)]⟩, ?_, rfl, writes_lastIp ha c, ?_, ?_, ?_⟩
  · rw [confFileAnalysis_eq hn, hf]
    exact hrun
  · exact fun j hj => applies_beyond _ c hj
  · show (writes items c).pport.toNat = d.value
    rw [writes_lastPort hd, Nat.mod_eq_of_lt (Nat.lt_succ_of_le (lastPort_le hr hd))]
  · intro block hblock
    rw [List.mem_singleton] at hblock
    subst hblock
    exact hks

/-- The items of `server.conf`. -/
def serverConf : List Item :=
  [.comment
    [115, 101, 116, 32, 116, 104, 101, 32, 105, 112, 32, 97, 100, 100, 114, 101, 115, 115, 32, 97, 110,
     100, 32, 116, 104, 101, 32, 112, 111, 114, 116, 32, 102, 111, 114, 32, 115, 101, 114, 118, 101, 114,
     32, 32, 32, 32] (by decide),
   .ip ⟨[49, 57, 50, 46, 49, 54, 56, 46, 56, 56, 46, 49, 51, 48], by simp, by decide⟩] ++
  List.replicate 7 (.blank 32 (Or.inr rfl)) ++
  [.blank 10 (Or.inl rfl), .port ⟨[56, 48, 56, 48], by decide, by decide, by simp⟩ 32 (Or.inr rfl)] ++
  List.replicate 4 (.blank 32 (Or.inr rfl)) ++
  [.blank 10 (Or.inl rfl), .comment [101, 110, 100] (by decide)]

theorem serverConf_inRange : InRange serverConf := by
  simp [InRange, serverConf, Item.number?]
  decide

theorem serverConf_accepted : ∃ r,
    confFileAnalysis (fun _ => some (delivered (text serverConf) (by decide))) SERVER_CONF
      ⟨List.replicate 1024 0, List.length_replicate⟩ ⟨fun _ => 0, 0⟩ = .ok r ∧ r.ret = 0 ∧
    Holds r.addr.ip [49, 57, 50, 46, 49, 54, 56, 46, 56, 56, 46, 49, 51, 48] ∧ r.addr.pport.toNat = 8080 := by
  have hip : lastIp serverConf =
    some ⟨[49, 57, 50, 46, 49, 54, 56, 46, 56, 56, 46, 49, 51, 48], by simp, by decide⟩ := rfl
  have hport : lastPort serverConf = some ⟨[56, 48, 56, 48], by decide, by decide, by simp⟩ := rfl
  have hlen : (text serverConf).length ≤ 1024 := by decide
  let files : String → Option (List (Block UInt8 1024)) := fun _ => some (delivered (text serverConf) hlen)
  have hf : files "./server.conf" = some (delivered (text serverConf) hlen) := rfl
  obtain ⟨r, hrun, hret, haddr, -, hpport, -⟩ := accepts fileName_server serverConf_inRange hip hport hlen hf
    ⟨List.replicate 1024 0, List.length_replicate⟩ ⟨fun _ => 0, 0⟩
  exact ⟨r, hrun, hret, haddr, hpport⟩

end UnixNote.Conf
