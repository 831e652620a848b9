import UnixNote.Chat.File
import UnixNote.Proof.Framing

/-!
# Both encoders and `Read`

* `WriteCall.bytes_frame`, `FileCall.bytes_frame`: what the encoders build is a frame, the second
  one around a `FILE_HEADER`.
* `FileCall.describes`: the fields of that header.
* `frames_round_trip`: calls of both on one stream, read back.
-/

namespace UnixNote.Socket

variable {w : WriteCall} {f : FileCall} {c : Call} {cs : List Call} {t : Transfer} {ts : List Transfer}
  {p : Package} {bytes rest mem : List UInt8} {k : Nat}

/-! ## What the encoders build -/

/-- A block that is filled up to `k` is filled further. -/
theorem put_next (front : List UInt8) (hk : front.length = k) :
    put (front ++ mem.drop k) k bytes = (front ++ bytes) ++ mem.drop (k + bytes.length) := by
  have hdrop : (front ++ mem.drop k).drop (k + bytes.length) = mem.drop (k + bytes.length) := by
    rw [← hk, List.drop_append, List.drop_of_length_le (by omega), List.nil_append, List.drop_drop]
    congr 1
    omega
  rw [put, List.take_left' hk, hdrop]

/-- The package that `Write` sends. -/
def WriteCall.package (w : WriteCall) : Package where
  optype := w.optype
  lenth := w.buf.length
  data := w.buf
  optypeInt := w.optypeInt
  lenthInt := by
    have := w.short
    unfold CInt.InRange
    omega
  size := by simp

theorem WriteCall.bytes_frame : w.bytes = w.package.frame := by
  have hsize := w.size
  have h₀ : put w.mem 0 (CInt.store w.optype) = CInt.store w.optype ++ w.mem.drop 4 :=
    put_next [] rfl
  have h₁ : put (CInt.store w.optype ++ w.mem.drop 4) 4 (CInt.store w.buf.length) =
      (CInt.store w.optype ++ CInt.store w.buf.length) ++ w.mem.drop 8 := put_next _ rfl
  have h₂ : put ((CInt.store w.optype ++ CInt.store w.buf.length) ++ w.mem.drop 8) 8 w.buf =
      ((CInt.store w.optype ++ CInt.store w.buf.length) ++ w.buf) ++ w.mem.drop (8 + w.buf.length) := put_next _ rfl
  rw [WriteCall.bytes, h₀, h₁, h₂, List.drop_of_length_le (by omega), List.append_nil]
  rfl

/-- The bytes of `filename[20]` behind the name: as `malloc` returned them. -/
def FileCall.slack (f : FileCall) : List UInt8 := (f.mem.drop (13 + f.filename.length)).take (19 - f.filename.length)

theorem FileCall.slack_length : f.slack.length = 19 - f.filename.length := by
  have hsize := f.size
  have hfits := f.fits
  rw [FileCall.slack, List.length_take_of_le]
  rw [List.length_drop]
  omega

/-- `filename[20]`. -/
def FileCall.field (f : FileCall) : List UInt8 := f.filename ++ [0] ++ f.slack

theorem FileCall.field_length : f.field.length = 20 := by
  have hfits := f.fits
  rw [FileCall.field, List.length_append, List.length_append, f.slack_length, List.length_singleton]
  omega

/-- The `FILE_HEADER`. -/
def FileCall.header (f : FileCall) : List UInt8 :=
  CInt.store f.optype ++ f.field ++ CInt.store f.srcId ++ CInt.store f.destId ++ CInt.store f.buf.length

theorem FileCall.header_length : f.header.length = 36 := by
  simp only [FileCall.header, List.length_append, CInt.store_length, f.field_length]

/-- The package that `Write_file` sends: the declared length is that of header and data. -/
def FileCall.package (f : FileCall) : Package where
  optype := OP_FILE
  lenth := f.buf.length + 36
  data := f.header ++ f.buf
  optypeInt := by decide
  lenthInt := by
    have := f.short
    unfold CInt.InRange
    omega
  size := by
    rw [List.length_append, f.header_length]
    omega

/-- The block behind the name: the rest of the field, and what comes after. -/
theorem FileCall.drop_name : f.mem.drop (12 + (f.filename ++ [0]).length) = f.slack ++ f.mem.drop 32 := by
  have hfits := f.fits
  have hdrop : f.mem.drop 32 = (f.mem.drop (13 + f.filename.length)).drop (19 - f.filename.length) := by
    rw [List.drop_drop]
    congr 1
    omega
  rw [hdrop, FileCall.slack, List.take_append_drop, List.length_append, List.length_singleton]
  congr 1
  omega

theorem FileCall.bytes_frame : f.bytes = f.package.frame := by
  have hsize := f.size
  set b₀ := CInt.store OP_FILE with hb₀
  set b₁ := CInt.store (f.buf.length + 36) with hb₁
  set b₂ := CInt.store f.optype with hb₂
  set b₄ := CInt.store f.srcId with hb₄
  set b₅ := CInt.store f.destId with hb₅
  set b₆ := CInt.store f.buf.length with hb₆
  have h₀ : put f.mem 0 b₀ = b₀ ++ f.mem.drop 4 := put_next [] rfl
  have h₁ : put (b₀ ++ f.mem.drop 4) 4 b₁ = (b₀ ++ b₁) ++ f.mem.drop 8 := put_next _ rfl
  have h₂ : put ((b₀ ++ b₁) ++ f.mem.drop 8) 8 b₂ = (b₀ ++ b₁ ++ b₂) ++ f.mem.drop 12 := put_next _ rfl
  have h₃ : put ((b₀ ++ b₁ ++ b₂) ++ f.mem.drop 12) 12 (f.filename ++ [0]) =
      (b₀ ++ b₁ ++ b₂ ++ f.field) ++ f.mem.drop 32 := by
    rw [put_next _ (k := 12) rfl, f.drop_name, FileCall.field]
    simp only [List.append_assoc]
  have hlen : (b₀ ++ b₁ ++ b₂ ++ f.field).length = 32 := by
    rw [List.length_append, f.field_length]
    rfl
  have h₄ : put ((b₀ ++ b₁ ++ b₂ ++ f.field) ++ f.mem.drop 32) 32 b₄ =
      (b₀ ++ b₁ ++ b₂ ++ f.field ++ b₄) ++ f.mem.drop 36 := put_next _ hlen
  have h₅ : put ((b₀ ++ b₁ ++ b₂ ++ f.field ++ b₄) ++ f.mem.drop 36) 36 b₅ =
      (b₀ ++ b₁ ++ b₂ ++ f.field ++ b₄ ++ b₅) ++ f.mem.drop 40 := put_next _ (by rw [List.length_append, hlen]; rfl)
  have h₆ : put ((b₀ ++ b₁ ++ b₂ ++ f.field ++ b₄ ++ b₅) ++ f.mem.drop 40) 40 b₆ =
      (b₀ ++ b₁ ++ b₂ ++ f.field ++ b₄ ++ b₅ ++ b₆) ++ f.mem.drop 44 :=
    put_next _ (by rw [List.length_append, List.length_append, hlen]; rfl)
  have h₇ : put ((b₀ ++ b₁ ++ b₂ ++ f.field ++ b₄ ++ b₅ ++ b₆) ++ f.mem.drop 44) 44 f.buf =
      (b₀ ++ b₁ ++ b₂ ++ f.field ++ b₄ ++ b₅ ++ b₆ ++ f.buf) ++ f.mem.drop (44 + f.buf.length) :=
    put_next _ (by rw [List.length_append, List.length_append, List.length_append, hlen]; rfl)
  rw [FileCall.bytes]
  simp only [← hb₀, ← hb₁, ← hb₂, ← hb₄, ← hb₅, ← hb₆]
  rw [h₀, h₁, h₂, h₃, h₄, h₅, h₆, h₇, List.drop_of_length_le (by omega), List.append_nil]
  simp only [Package.frame, Package.header, FileCall.package, FileCall.header, List.append_assoc]
  rfl

def Call.package : Call → Package
  | .write w => w.package
  | .writeFile f => f.package

theorem Call.bytes_frame : c.bytes = c.package.frame := by
  cases c with
  | write w => exact w.bytes_frame
  | writeFile f => exact f.bytes_frame

/-! ## What is read -/

/-- `payload` is a `FILE_HEADER` with the arguments of the call, and then its data. -/
structure FileCall.Describes (f : FileCall) (payload : List UInt8) : Prop where
  length : payload.length = 36 + f.buf.length
  optype : CInt.load payload = f.optype
  filename : ((payload.drop 4).take 20).takeWhile (· ≠ 0) = f.filename
  terminated : 0 ∈ (payload.drop 4).take 20
  srcId : CInt.load (payload.drop 24) = f.srcId
  destId : CInt.load (payload.drop 28) = f.destId
  lenth : CInt.load (payload.drop 32) = f.buf.length
  data : payload.drop 36 = f.buf

/-- What a `Read` yields for a call: its optype and payload, or `OP_FILE` and a file. -/
def Delivers : Call → Received → Prop
  | .write w, got => got = ⟨w.optype, if w.buf = [] then none else some w.buf⟩
  | .writeFile f, got => got.optype = OP_FILE ∧ ∃ payload, got.buf = some payload ∧ f.Describes payload

/-- A name up to its NUL. -/
theorem takeWhile_name {name : CStr} (h : 0 ∉ name) : (name ++ 0 :: rest).takeWhile (· ≠ 0) = name := by
  have hall : ∀ b ∈ name, decide (b ≠ 0) = true := by
    intro b hb
    rw [decide_eq_true_eq]
    rintro rfl
    exact h hb
  rw [List.takeWhile_append_of_pos hall, List.takeWhile_cons_of_neg (by simp), List.append_nil]

/-- **The fields of the header** are where `FILE_HEADER` has them. -/
theorem FileCall.describes (f : FileCall) : f.Describes (f.header ++ f.buf) := by
  have hshort : CInt.InRange f.buf.length := by
    have := f.short
    unfold CInt.InRange
    omega
  have hpay : f.header ++ f.buf = CInt.store f.optype ++ (f.field ++ (CInt.store f.srcId ++
      (CInt.store f.destId ++ (CInt.store f.buf.length ++ f.buf)))) := by
    simp only [FileCall.header, List.append_assoc]
  have h4 : (f.header ++ f.buf).drop 4 = f.field ++ (CInt.store f.srcId ++
      (CInt.store f.destId ++ (CInt.store f.buf.length ++ f.buf))) := by
    rw [hpay]
    exact List.drop_left' CInt.store_length
  have h24 : (f.header ++ f.buf).drop 24 = CInt.store f.srcId ++
      (CInt.store f.destId ++ (CInt.store f.buf.length ++ f.buf)) := by
    have := congrArg (List.drop 20) h4
    rwa [List.drop_drop, List.drop_left' f.field_length] at this
  have h28 : (f.header ++ f.buf).drop 28 = CInt.store f.destId ++ (CInt.store f.buf.length ++ f.buf) := by
    have := congrArg (List.drop 4) h24
    rwa [List.drop_drop, List.drop_left' CInt.store_length] at this
  have h32 : (f.header ++ f.buf).drop 32 = CInt.store f.buf.length ++ f.buf := by
    have := congrArg (List.drop 4) h28
    rwa [List.drop_drop, List.drop_left' CInt.store_length] at this
  have hfield : ((f.header ++ f.buf).drop 4).take 20 = f.filename ++ 0 :: f.slack := by
    rw [h4, List.take_left' f.field_length, FileCall.field, List.append_assoc]
    rfl
  refine ⟨?_, ?_, ?_, ?_, ?_, ?_, ?_, List.drop_left' f.header_length⟩
  · rw [List.length_append, f.header_length]
  · rw [hpay, CInt.load_store f.optypeInt]
  · rw [hfield, takeWhile_name f.noNul]
  · rw [hfield]
    simp
  · rw [h24, CInt.load_store f.srcInt]
  · rw [h28, CInt.load_store f.destInt]
  · rw [h32, CInt.load_store hshort]

theorem Call.delivers (c : Call) : Delivers c c.package.received := by
  cases c with
  | write w =>
    show (⟨w.optype, if (0 : Int) < w.buf.length then some w.buf else none⟩ : Received) = _
    by_cases hb : w.buf = []
    · rw [if_pos hb, hb]
      rfl
    · have hpos : (0 : Int) < w.buf.length := by
        have := List.length_pos_iff.2 hb
        omega
      rw [if_pos hpos, if_neg hb]
  | writeFile f =>
    have hpos : (0 : Int) < f.buf.length + 36 := by omega
    refine ⟨rfl, f.header ++ f.buf, if_pos hpos, f.describes⟩

/-! ## Sequences of calls -/

/-- Requested transfers of a frame are whole, and the next ones are those of what is behind it. -/
theorem Requested.whole (h : Requested (t :: ts) (p.frame ++ rest)) :
    t.Allowed (p.frame ++ rest) ∧ t.Whole p ∧ Requested ts rest := by
  obtain ⟨h8, hstack, hpay, hts⟩ := h
  have hsize := p.size
  have hlen : lenth t (p.frame ++ rest) = p.lenth := lenth_whole h8 hstack
  rw [hlen] at hpay hts
  have hdrop : ((p.frame ++ rest).drop 8).drop p.lenth.toNat = rest := by
    rw [List.drop_drop]
    exact List.drop_left' (by rw [p.frame_length, hsize])
  rw [hdrop] at hts
  refine ⟨⟨by omega, ?_, hstack, ?_, ?_, ?_⟩, ⟨h8, fun hpos => (hpay hpos).1⟩, hts⟩
  · rw [h8, List.length_append, p.frame_length]
    omega
  · rw [hlen]
    exact fun hpos => Int.le_of_eq (hpay hpos).1
  · rw [hlen, h8]
    intro hpos
    rw [(hpay hpos).1, List.length_drop, List.length_append, p.frame_length]
    omega
  · rw [hlen]
    exact fun hpos => (hpay hpos).2

/-- **Frame round trip for both encoders**: as many calls of `Read` return 0, yield what was sent in
order, and leave the stream empty. -/
theorem frames_round_trip (hn : ts.length = cs.length) (h : Requested ts (stream cs)) :
    ∃ gots, reads ts (stream cs) = some (gots, []) ∧ List.Forall₂ Delivers cs gots := by
  induction cs generalizing ts with
  | nil =>
    obtain rfl : ts = [] := List.length_eq_zero_iff.1 hn
    exact ⟨[], rfl, .nil⟩
  | cons c cs ih =>
    cases ts with
    | nil => cases hn
    | cons t ts =>
      have hstream : stream (c :: cs) = c.package.frame ++ stream cs := by
        rw [← Call.bytes_frame]
        rfl
      rw [hstream] at h ⊢
      obtain ⟨hallowed, hwhole, hts⟩ := h.whole
      obtain ⟨gots, hgots, hall⟩ := ih (Nat.succ.inj hn) hts
      refine ⟨c.package.received :: gots, ?_, .cons c.delivers hall⟩
      simp only [reads, read_whole hallowed hwhole, hgots, Option.bind_eq_bind, Option.bind_some]

/-- A file named "a" with three bytes, between two frames without payload. -/
def parcel : List Call :=
  [.write ⟨OP_ALLOW_DISCONNECT, [], List.replicate 8 255, by decide, by decide, rfl⟩,
    .writeFile ⟨0, [97], 1001, 1002, [1, 2, 3], List.replicate 47 255, CInt.inRange_zero, by decide, by decide,
      by decide, by decide, by decide, rfl⟩,
    .write ⟨OP_ALLOW_DISCONNECT, [], List.replicate 8 255, by decide, by decide, rfl⟩]

/-- Three calls of `Read`. -/
def parcelReads : List Transfer :=
  [⟨8, 0, List.replicate 8 0, []⟩, ⟨8, 39, List.replicate 8 0, List.replicate 39 0⟩, ⟨8, 0, List.replicate 8 0, []⟩]

theorem frames_round_trip_parcel :
    ∃ gots, reads parcelReads (stream parcel) = some (gots, []) ∧ List.Forall₂ Delivers parcel gots :=
  frames_round_trip rfl (by simp only [parcelReads, Requested]; decide)

end UnixNote.Socket
