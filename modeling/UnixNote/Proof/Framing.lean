import UnixNote.Chat.Socket

/-!
# When a stream stays synchronised

`Write` and `Read` report success for a partial transfer. `synchronised_iff`: for calls
that all return 0, the k-th `Read` yields the package of the k-th `Write` and takes
exactly its frame, for every k, if and only if no transfer was partial.
-/

namespace UnixNote.Socket

/-- What `Read` should make of a package. -/
def Package.received (p : Package) : Received := ⟨p.optype, if 0 < p.lenth then some p.data else none⟩

/-- Each `read(2)` of the call returns all it was asked for. -/
structure Transfer.Whole (t : Transfer) (p : Package) : Prop where
  header : t.header = 8
  payload : 0 < p.lenth → t.payload = p.lenth

variable {w : Sent} {ws : List Sent} {t : Transfer} {ts : List Transfer} {p : Package} {stream rest : List UInt8}
  {got : Received}

/-! ## Whole transfers -/

/-- A whole header read is the header that was sent. -/
theorem packheader_whole (h8 : t.header = 8) (hs : t.stack.length = 8) :
    packheader t (p.frame ++ rest) = p.header := by
  have hstack : t.stack.drop 8 = [] := List.drop_eq_nil_of_le (by omega)
  unfold packheader fill
  rw [h8, show (8 : Int).toNat = 8 from rfl, hstack, List.append_nil, Package.frame, List.append_assoc,
    List.take_left' p.header_length]

theorem optype_whole (h8 : t.header = 8) (hs : t.stack.length = 8) : optype t (p.frame ++ rest) = p.optype := by
  rw [optype, packheader_whole h8 hs, p.load_header]

theorem lenth_whole (h8 : t.header = 8) (hs : t.stack.length = 8) : lenth t (p.frame ++ rest) = p.lenth := by
  rw [lenth, packheader_whole h8 hs, p.load_drop_header]

/-- **Whole reads of a frame** yield its package and leave what is behind it. -/
theorem read_whole (ha : t.Allowed (p.frame ++ rest)) (hw : t.Whole p) :
    read t (p.frame ++ rest) = some (p.received, rest) := by
  have h8 := hw.header
  have hsize := p.size
  have hl : lenth t (p.frame ++ rest) = p.lenth := lenth_whole h8 ha.stack_size
  have hdrop : (p.frame ++ rest).drop 8 = p.data ++ rest := by
    rw [Package.frame, List.append_assoc, List.drop_left' p.header_length]
  unfold read
  rw [if_neg (by omega), if_neg (by omega), hl, optype_whole h8 ha.stack_size, h8,
    show (8 : Int).toNat = 8 from rfl]
  dsimp only
  rw [hdrop]
  unfold Package.received
  by_cases hd : 0 < p.lenth
  · have hpay := hw.payload hd
    have hheap : t.heap.drop p.data.length = [] := by
      have := ha.heap_size (by omega)
      exact List.drop_eq_nil_of_le (by omega)
    have hnat : t.payload.toNat = p.data.length := by omega
    rw [if_pos hd, if_neg (by omega), if_neg (by omega), if_pos hd, hnat]
    unfold fill
    rw [List.take_left' rfl, hheap, List.append_nil, List.drop_left' rfl]
  · have hnil : p.data = [] := List.length_eq_zero_iff.1 (by omega)
    rw [if_neg hd, if_neg hd, hnil, List.nil_append]

/-! ## What a correct outcome says about the transfers -/

/-- The outcome of a `Read` that returned 0: how many bytes it took, and the size of the
buffer. -/
theorem read_some (ha : t.Allowed stream) (h : read t stream = some (got, rest)) :
    0 < t.header ∧
      ((got.buf = none ∧ (rest.length : Int) = stream.length - t.header) ∨
        ∃ b, got.buf = some b ∧ 0 < t.payload ∧ (b.length : Int) = lenth t stream ∧ t.payload ≤ b.length ∧
          (rest.length : Int) = stream.length - t.header - t.payload) := by
  have hle := ha.header_sent
  unfold read at h
  split at h
  · cases h
  split at h
  · cases h
  rename_i hneg hzero
  refine ⟨by omega, ?_⟩
  dsimp only at h
  split at h
  · rename_i hlen
    split at h
    · cases h
    split at h
    · cases h
    rename_i hneg' hzero'
    obtain ⟨rfl, rfl⟩ : _ = got ∧ _ = rest := by simpa using h
    have hpl := ha.payload_le hlen
    have hps := ha.payload_sent hlen
    have hheap := ha.heap_size hlen
    rw [List.length_drop] at hps
    refine Or.inr ⟨_, rfl, by omega, ?_, ?_, ?_⟩
    · simp only [fill, List.length_append, List.length_take, List.length_drop]
      omega
    · simp only [fill, List.length_append, List.length_take, List.length_drop]
      omega
    · simp only [List.length_drop]
      omega
  · obtain ⟨rfl, rfl⟩ : _ = got ∧ _ = rest := by simpa using h
    refine Or.inl ⟨rfl, ?_⟩
    simp only [List.length_drop]
    omega

/-- **A `Read` that yields a package and takes its frame read it whole.** -/
theorem whole_of_read (ha : t.Allowed stream) (hf : stream = p.frame ++ rest)
    (h : read t stream = some (p.received, rest)) : t.Whole p := by
  have hlen : stream.length = 8 + p.data.length + rest.length := by
    rw [hf, List.length_append, Package.frame_length]
  have hsize := p.size
  have h8 := ha.header_le
  obtain ⟨hpos, hcase⟩ := read_some ha h
  unfold Package.received at hcase
  by_cases hd : 0 < p.lenth
  · rcases hcase with ⟨hb, -⟩ | ⟨b, hb, hpay, -, hle, hr⟩
    · simp [hd] at hb
    · -- the buffer is the payload, so no more than its length was read
      have hbd : p.data = b := by simpa [hd] using hb
      rw [← hbd] at hle
      exact ⟨by omega, fun _ => by omega⟩
  · rcases hcase with ⟨-, hr⟩ | ⟨b, hb, -⟩
    · exact ⟨by omega, fun hpos => absurd hpos hd⟩
    · simp [hd] at hb

/-! ## Sequences of calls -/

/-- Each `Read` yields the package of the `Write` with its number, and takes the frame of
that package, all of it and nothing else, from the stream. -/
def Synchronised : List Sent → List Transfer → Prop
  | _, [] => True
  | [], _ :: _ => False
  | w :: ws, t :: ts =>
    wire (w :: ws) = w.package.frame ++ wire ws ∧
      read t (wire (w :: ws)) = some (w.package.received, wire ws) ∧ Synchronised ws ts

theorem wire_whole (h : w.accepted = w.package.frame.length) : wire (w :: ws) = w.package.frame ++ wire ws := by
  rw [wire, h, List.take_length]

theorem accepted_of_wire (ha : w.Allowed) (h : wire (w :: ws) = w.package.frame ++ wire ws) :
    w.accepted = w.package.frame.length := by
  have hlen := congrArg List.length h
  simp only [wire, List.length_append, List.length_take] at hlen
  have := ha.2
  omega

/-- **Stream synchronisation.** For calls of `Write` and of `Read` that return 0, however the
kernel splits the transfers, every `Read` yields the package of its `Write` and takes exactly
its frame if and only if every frame that is read was taken whole and is read whole. -/
theorem synchronised_iff (hws : ∀ w ∈ ws, w.Allowed ∧ write w = 0) (hts : Reads (wire ws) ts) :
    Synchronised ws ts ↔
      ∀ c ∈ ws.zip ts, c.1.accepted = c.1.package.frame.length ∧ c.2.Whole c.1.package := by
  induction ts generalizing ws with
  | nil => simp [Synchronised]
  | cons t ts ih =>
    cases hts with
    | @cons _ rest _ _ got ha hread hrest =>
      cases ws with
      | nil =>
        -- nothing was sent, so the header read has nothing to return
        have hle : t.header ≤ 0 := ha.header_sent
        have := (read_some ha hread).1
        omega
      | cons w ws =>
        obtain ⟨⟨hw, -⟩, hws⟩ := List.forall_mem_cons.1 hws
        rw [List.zip_cons_cons, List.forall_mem_cons]
        constructor
        · rintro ⟨hwire, hr, hsync⟩
          obtain ⟨-, rfl⟩ : got = _ ∧ rest = _ := by simpa using hread.symm.trans hr
          exact ⟨⟨accepted_of_wire hw hwire, whole_of_read ha hwire hr⟩, (ih hws hrest).1 hsync⟩
        · rintro ⟨⟨hacc, hwhole⟩, hzip⟩
          have hwire : wire (w :: ws) = w.package.frame ++ wire ws := wire_whole hacc
          rw [hwire] at ha hread
          have hr := read_whole ha hwhole
          obtain ⟨-, rfl⟩ : got = _ ∧ rest = _ := by simpa using hread.symm.trans hr
          refine ⟨hwire, ?_, (ih hws hrest).2 hzip⟩
          rw [hwire]
          exact hr

/-- `OP_HEARTBEAT` with the id `0x04030201`, taken whole by the kernel. -/
def beat : Sent := ⟨⟨2, 4, [1, 2, 3, 4], by decide, by decide, rfl⟩, 12, by decide⟩

/-- A `Read` whose second `read(2)` returns `n` bytes into cleared memory. -/
def readPart (n : Nat) : Transfer := ⟨8, n, List.replicate 8 0, List.replicate 4 0⟩

/-- Read whole, the frame is delivered. -/
theorem synchronised_beat : Synchronised [beat] [readPart 4] := by
  have hreads : Reads (wire [beat]) [readPart 4] :=
    .cons ⟨by decide, by decide, by decide, by decide, by decide, by decide⟩ rfl .nil
  refine (synchronised_iff (by decide) hreads).2 fun c hc => ?_
  cases List.mem_singleton.1 hc
  exact ⟨by decide, by decide, by decide⟩

/-- **A short read loses the boundary**: the second `read(2)` returns 2 of the 4 bytes of the
payload, and `Read` returns 0. -/
theorem synchronised_breaks :
    ∃ ws ts, (∀ w ∈ ws, w.Allowed ∧ write w = 0) ∧ Reads (wire ws) ts ∧ ¬ Synchronised ws ts := by
  refine ⟨[beat], [readPart 2], by decide, ?_, ?_⟩
  · exact .cons ⟨by decide, by decide, by decide, by decide, by decide, by decide⟩ rfl .nil
  · rintro ⟨-, hr, -⟩
    revert hr
    decide

end UnixNote.Socket
