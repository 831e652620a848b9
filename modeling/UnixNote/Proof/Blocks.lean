import UnixNote.Proof.Grammar

/-!
# A configuration in blocks

A file may come in more than one block. Where every block is a sequence of items, the blocks come to
what the whole content comes to. The scan keeps nothing from one block to the next, and so a boundary
inside an item is not taken for what it is; a file is safe from this only where no item is longer than
a byte.

* `analyse_parts`: blocks of items.
* `singles_rejected`: byte by byte, with an array that holds `x` behind the byte, a file with a comment, an
  `ip` or a `port` is not accepted.
* `blocks_same`: both, against the scan of the whole content.
-/

namespace UnixNote.Conf

variable {t : Int} {name : String} {items : List Item} {buf : Buf UInt8 1024} {c : Addr}

/-- The scan of the whole content at once: the result, and what is written. -/
def whole (content : List UInt8) (c : Addr) : Except Stop (Int × Addr) :=
  (scanBlock content content.length c).map fun r => (if r.1.1 then 0 else -1, r.1.2)

/-- The result of a call, and what is written. -/
def outcome (run : Except Stop Result) : Except Stop (Int × Addr) := run.map fun r => (r.ret, r.addr)

/-- The blocks come to what the whole content comes to. -/
def Same (t : Int) (blocks : List (Block UInt8 1024)) (buf : Buf UInt8 1024) (c : Addr) : Prop :=
  outcome (confFileAnalysis (fun _ => some blocks) t buf c) = whole (blocks.flatMap Block.bytes) c

theorem whole_items (items : List Item) (c : Addr) : whole (text items) c = .ok (0, writes items c) := by
  obtain ⟨ks, -, hscan⟩ := scanBlock_reads (Reads.items items) [] c
  rw [List.append_nil] at hscan
  rw [whole, hscan]
  rfl

/-! ## Blocks of items -/

/-- A block that is scanned to its end. -/
theorem outcome_done {b : Block UInt8 1024} {bs : List (Block UInt8 1024)} {c' : Addr} {ks : List Nat}
    (h : scanBlock (buf.read b).bytes b.bytes.length c = .ok ((true, c'), ks)) :
    outcome (analyse buf (b :: bs) c) = outcome (analyse (buf.read b) bs c') := by
  rw [analyse_done h]
  cases analyse (buf.read b) bs c' <;> rfl

theorem analyse_parts (parts : List (List Item)) {blocks : List (Block UInt8 1024)}
    (hb : blocks.map Block.bytes = parts.map text) (buf : Buf UInt8 1024) (c : Addr) :
    outcome (analyse buf blocks c) = .ok (0, writes parts.flatten c) := by
  induction parts generalizing blocks buf c with
  | nil =>
    obtain rfl := List.map_eq_nil_iff.1 hb
    rfl
  | cons part parts ih =>
    obtain ⟨b, bs, rfl, hpart, hparts⟩ := List.map_eq_cons_iff.1 hb
    obtain ⟨ks, -, hscan⟩ := scanBlock_reads (Reads.items part) (buf.bytes.drop b.bytes.length) c
    rw [← hpart] at hscan
    rw [outcome_done hscan, ih hparts, List.flatten_cons]
    simp only [writes, applies, List.map_append, List.foldl_append]

theorem text_flatten (parts : List (List Item)) : text parts.flatten = (parts.map text).flatten := by
  induction parts with
  | nil => rfl
  | cons part parts ih => rw [List.flatten_cons, List.map_cons, List.flatten_cons, ← ih, text, List.flatMap_append]; rfl

/-- **Blocks that end between items.** -/
theorem same_parts (hn : fileName t = some name) (parts : List (List Item)) {blocks : List (Block UInt8 1024)}
    (hb : blocks.map Block.bytes = parts.map text) (buf : Buf UInt8 1024) (c : Addr) : Same t blocks buf c := by
  have hcontent : blocks.flatMap Block.bytes = text parts.flatten := by rw [text_flatten, ← hb, List.flatMap_def]
  rw [Same, confFileAnalysis_eq hn, hcontent, whole_items]
  exact analyse_parts parts hb buf c

/-! ## Blanks -/

def Item.IsBlank : Item → Prop
  | .blank _ _ => True
  | _ => False

theorem blank_text (h : ∀ it ∈ items, it.IsBlank) : ∀ b ∈ text items, Blank b := by
  intro b hb
  obtain ⟨it, hit, hb⟩ := List.mem_flatMap.1 hb
  cases it with
  | blank b' is =>
    obtain rfl := List.mem_singleton.1 hb
    exact is
  | comment text inner => exact absurd (h _ hit) id
  | ip addr => exact absurd (h _ hit) id
  | port number b' is => exact absurd (h _ hit) id

theorem exists_text {bs : List UInt8} (h : ∀ b ∈ bs, Blank b) : ∃ items, bs = text items := by
  induction bs with
  | nil => exact ⟨[], rfl⟩
  | cons b bs ih =>
    obtain ⟨hb, hbs⟩ := List.forall_mem_cons.1 h
    obtain ⟨items, rfl⟩ := ih hbs
    exact ⟨.blank b hb :: items, rfl⟩

theorem exists_parts {blocks : List (Block UInt8 1024)} (h : ∀ b ∈ blocks.flatMap Block.bytes, Blank b) :
    ∃ parts : List (List Item), blocks.map Block.bytes = parts.map text := by
  induction blocks with
  | nil => exact ⟨[], rfl⟩
  | cons block blocks ih =>
    rw [List.flatMap_cons, List.forall_mem_append] at h
    obtain ⟨part, hpart⟩ := exists_text h.1
    obtain ⟨parts, hparts⟩ := ih h.2
    exact ⟨part :: parts, by rw [List.map_cons, List.map_cons, hpart, hparts]⟩

/-! ## Byte by byte -/

/-- A block of one byte. -/
def single (b : UInt8) : Block UInt8 1024 := ⟨[b], List.cons_ne_nil _ _, (by decide : 1 ≤ 1024)⟩

/-- The array holds `x` from its second byte on. -/
def Exes (buf : Buf UInt8 1024) : Prop := buf.bytes.drop 1 = List.replicate 1023 120

theorem Exes.read (h : Exes buf) (b : UInt8) : (buf.read (single b)).bytes = b :: List.replicate 1023 120 := by
  rw [Buf.read_bytes]
  exact congrArg (b :: ·) h

theorem Exes.next (h : Exes buf) (b : UInt8) : Exes (buf.read (single b)) := by
  rw [Exes, h.read]
  rfl

variable {b : UInt8} {bs : List (Block UInt8 1024)}

/-- `i` and the `p` of another key: a misspelt key to the scan. -/
theorem scan_i (h : Exes buf) (c : Addr) :
    ∃ ks, scanBlock (buf.read (single 105)).bytes 1 c = .ok ((true, c), ks) := by
  rw [h.read]
  exact scanBlock_cut (Takes.nil [105]) (List.cons_ne_nil _ _) (.ipKey [] 120 ⟨112, _, rfl, by decide⟩) rfl
    (by decide) c

theorem scan_p (h : Exes buf) (c : Addr) :
    ∃ ks, scanBlock (buf.read (single 112)).bytes 1 c = .ok ((true, c.setPort []), ks) := by
  rw [h.read]
  exact scanBlock_cut (Takes.nil [112]) (List.cons_ne_nil _ _) (.portKey [] 120 ⟨111, _, rfl, by decide⟩) rfl
    (by decide) c

theorem scan_other (h : Exes buf) (hb : ¬ Starts b) (c : Addr) :
    ∃ ks, scanBlock (buf.read (single b)).bytes 1 c = .ok ((false, c), ks) := by
  rw [h.read]
  obtain ⟨ks, -, hscan⟩ := scanBlock_reads (.stuck (.nil [b]) hb) (List.replicate 1023 120) c
  exact ⟨ks, hscan⟩

theorem scan_blank (h : Exes buf) (hb : Blank b) (c : Addr) :
    ∃ ks, scanBlock (buf.read (single b)).bytes 1 c = .ok ((true, c), ks) := by
  rw [h.read]
  obtain ⟨ks, -, hscan⟩ := scanBlock_reads (Reads.items [.blank b hb]) (List.replicate 1023 120) c
  exact ⟨ks, hscan⟩

theorem scan_hash (h : Exes buf) (c : Addr) : scanBlock (buf.read (single 35)).bytes 1 c = .error .behind := by
  rw [h.read]
  refine scanBlock_fails (Takes.nil [35]) (List.cons_ne_nil _ _) (fun i c hd => turn_hash_fails hd ?_ c) c
  intro hmem
  have heq : (10 : UInt8) = 120 := List.eq_of_mem_replicate (show 10 ∈ List.replicate 1023 120 from hmem)
  exact absurd heq (by decide)

/-- The call does not return 0. -/
def Rejects (run : Except Stop Result) : Prop := ∀ a, outcome run ≠ .ok (0, a)

theorem rejects_stuck (h : Exes buf) (hb : ¬ Starts b) (bs : List (Block UInt8 1024)) (c : Addr) :
    Rejects (analyse buf (single b :: bs) c) := by
  intro a ha
  obtain ⟨ks, hscan⟩ := scan_other h hb c
  rw [analyse_stuck hscan] at ha
  exact absurd (congrArg Prod.fst (Except.ok.inj ha)) (by decide : (-1 : Int) ≠ 0)

/-- **Byte by byte, with `x` behind the byte**: a file with more than blanks is not accepted. -/
theorem singles_rejected (h : ∃ it ∈ items, ¬ it.IsBlank) (hx : Exes buf) (c : Addr) :
    Rejects (analyse buf ((text items).map single) c) := by
  induction items generalizing buf c with
  | nil => obtain ⟨it, hit, -⟩ := h; cases hit
  | cons it items ih =>
    rw [text, List.flatMap_cons, List.map_append]
    cases it with
    | comment text inner =>
      intro a ha
      rw [Item.bytes, List.map_cons, List.cons_append, analyse_error (scan_hash hx c)] at ha
      cases ha
    | blank b is =>
      obtain ⟨ks, hscan⟩ := scan_blank hx is c
      have hrest : ∃ it ∈ items, ¬ it.IsBlank := by
        obtain ⟨it, hit, hnot⟩ := h
        rcases List.mem_cons.1 hit with rfl | hit
        · exact absurd trivial hnot
        · exact ⟨it, hit, hnot⟩
      intro a ha
      rw [Item.bytes, List.map_singleton, List.singleton_append, outcome_done hscan] at ha
      exact ih hrest (hx.next b) c a ha
    | ip addr =>
      -- `i` and `p` are misspelt keys, and `=` begins no word
      obtain ⟨ks, hi⟩ := scan_i hx c
      obtain ⟨ks', hp⟩ := scan_p (hx.next 105) c
      intro a ha
      rw [Item.bytes, List.map_cons, List.cons_append, outcome_done hi, ipKey, List.cons_append, List.map_cons,
        List.cons_append, outcome_done hp] at ha
      exact rejects_stuck ((hx.next 105).next 112) (by decide) _ _ a ha
    | port number b is =>
      obtain ⟨ks, hp⟩ := scan_p hx c
      intro a ha
      rw [Item.bytes, List.map_cons, List.cons_append, outcome_done hp] at ha
      exact rejects_stuck (hx.next 112) (by decide) _ _ a ha

theorem flatMap_single (bs : List UInt8) : (bs.map single).flatMap Block.bytes = bs := by
  induction bs with
  | nil => rfl
  | cons b bs ih => rw [List.map_cons, List.flatMap_cons, ih]; rfl

/-- An array of `x`. -/
def exes : Buf UInt8 1024 := ⟨List.replicate 1024 120, List.length_replicate⟩

theorem exes_exes : Exes exes := rfl

/-- **Where block boundaries do not matter**: in a split between items; and, for all splits of a file, where
the file is blank. -/
theorem blocks_same (hn : fileName t = some name) :
    (∀ (parts : List (List Item)) (blocks : List (Block UInt8 1024)), blocks.map Block.bytes = parts.map text →
      ∀ buf c, Same t blocks buf c) ∧
    ∀ items, (∀ blocks : List (Block UInt8 1024), blocks.flatMap Block.bytes = text items →
      ∀ buf c, Same t blocks buf c) ↔ ∀ it ∈ items, it.IsBlank := by
  refine ⟨fun parts blocks hb buf c => same_parts hn parts hb buf c, fun items => ⟨fun hall => ?_, ?_⟩⟩
  · by_contra hblank
    have hblank : ∃ it ∈ items, ¬ it.IsBlank := by simpa using hblank
    have hsame := hall ((text items).map single) (flatMap_single _) exes ⟨fun _ => 0, 0⟩
    rw [Same, confFileAnalysis_eq hn, flatMap_single, whole_items] at hsame
    exact singles_rejected hblank exes_exes _ _ hsame
  · intro hblank blocks hblocks buf c
    obtain ⟨parts, hparts⟩ := exists_parts (hblocks ▸ blank_text hblank)
    exact same_parts hn parts hparts buf c

/-- `server.conf` in two blocks, cut behind its `ip`. -/
theorem blocks_same_server :
    Same SERVER_CONF
      [⟨text (serverConf.take 2), by decide, by decide⟩, ⟨text (serverConf.drop 2), by decide, by decide⟩]
      exes ⟨fun _ => 0, 0⟩ :=
  (blocks_same fileName_server).1 [serverConf.take 2, serverConf.drop 2] _ rfl _ _

/-- A comment that a boundary cuts: its `a` is taken for a byte that begins no item. -/
theorem blocks_same_counterexample :
    [single 35, ⟨[97, 10], List.cons_ne_nil _ _, by decide⟩].flatMap Block.bytes = text [.comment [97] (by decide)] ∧
      ¬ Same SERVER_CONF [single 35, ⟨[97, 10], List.cons_ne_nil _ _, by decide⟩]
        ⟨List.replicate 1024 10, List.length_replicate⟩ ⟨fun _ => 0, 0⟩ := by
  refine ⟨rfl, fun h => ?_⟩
  let buf : Buf UInt8 1024 := ⟨List.replicate 1024 10, List.length_replicate⟩
  let block : Block UInt8 1024 := ⟨[97, 10], List.cons_ne_nil _ _, by decide⟩
  have hhash : scanBlock (buf.read (single 35)).bytes (single 35).bytes.length ⟨fun _ => 0, 0⟩ = _ :=
    scanBlock_hash (List.replicate 1022 10) ⟨fun _ => 0, 0⟩
  obtain ⟨ks, -, hrest⟩ := scanBlock_reads (.stuck (.nil [97, 10]) (by decide))
    ((buf.read (single 35)).bytes.drop 2) ⟨fun _ => 0, 0⟩
  have hblock : scanBlock ((buf.read (single 35)).read block).bytes block.bytes.length ⟨fun _ => 0, 0⟩ = _ := hrest
  have hwhole := whole_items [.comment [97] (by decide)] ⟨fun _ => 0, 0⟩
  rw [Same, confFileAnalysis_eq fileName_server, Option.getD_some, outcome_done hhash, analyse_stuck hblock] at h
  exact absurd (congrArg Prod.fst (Except.ok.inj (h.trans hwhole))) (by decide : (-1 : Int) ≠ 0)

end UnixNote.Conf
