import UnixNote.Clitocli.Server
import UnixNote.Lib.Delimited

/-!
# When the relay forwards what it reads

The thread measures a block with `strlen` over its array. It writes what it read, and nothing else, exactly where
the block is one line with its NUL.

* `run_log`: what a thread has written, from the blocks it read, whatever the other thread did in between.
* `cString_frame`, `frame_of_cString`: one block.
* `relay_unchanged`: any run.
* `frames_each`: for the lines of a client, every read is one line.
-/

namespace UnixNote.Clitocli

variable {k : Bool} {s : Server} {events : List (Bool × Read)} {buf : Buf UInt8 1024} {b : Block UInt8 1024}
  {bs : List (Block UInt8 1024)} {fd : Nat}

/-- A line with its NUL. -/
abbrev IsLine (bs : List UInt8) : Prop := Delimited.Frame (· = 0) bs

/-! ## What a thread writes -/

/-- What is written to `fd` for the blocks that are read into `buf`. -/
def forwards (fd : Nat) : Buf UInt8 1024 → List (Block UInt8 1024) → List Forward
  | _, [] => []
  | buf, b :: bs => ⟨fd, b.bytes.length, cString (buf.read b).bytes⟩ :: forwards fd (buf.read b) bs

/-- Two clients are connected, and the threads wait for them. -/
structure Connected (s : Server) : Prop where
  distinct : s.sockfds false ≠ s.sockfds true
  sockfd : ∀ k, (s.thread k).sockfd = s.sockfds k
  running : ∀ k, (s.thread k).running = true

theorem Connected.dest (h : Connected s) (k : Bool) : s.dest (s.thread k).sockfd = s.sockfds (!k) := by
  rw [h.sockfd k, Server.dest]
  cases k with
  | false => rw [if_neg (not_not_intro rfl)]; rfl
  | true => rw [if_pos h.distinct]; rfl

theorem thread_self (s : Server) (k : Bool) (t : Thread) : (s.setThread k t).thread k = t := if_pos rfl

theorem thread_other (s : Server) {k k' : Bool} (h : k' ≠ k) (t : Thread) : (s.setThread k t).thread k' = s.thread k' :=
  if_neg h

theorem step_block (h : Connected s) (k : Bool) (b : Block UInt8 1024) :
    s.step k (.block b) = s.setThread k { s.thread k with
      buf := (s.thread k).buf.read b
      log := (s.thread k).log ++ [⟨s.sockfds (!k), b.bytes.length, cString ((s.thread k).buf.read b).bytes⟩] } := by
  rw [Server.step, ← h.dest k]
  exact if_pos (h.running k)

theorem Connected.block (h : Connected s) (k : Bool) (b : Block UInt8 1024) : Connected (s.step k (.block b)) := by
  rw [step_block h]
  refine ⟨h.distinct, fun k' => ?_, fun k' => ?_⟩
  · by_cases hk : k' = k
    · subst hk
      rw [thread_self]
      exact h.sockfd k'
    · rw [thread_other s hk]
      exact h.sockfd k'
  · by_cases hk : k' = k
    · subst hk
      rw [thread_self]
      exact h.running k'
    · rw [thread_other s hk]
      exact h.running k'

theorem blocks_self (k : Bool) (b : Block UInt8 1024) (events : List (Bool × Read)) :
    blocks k ((k, .block b) :: events) = b :: blocks k events :=
  List.filterMap_cons_some (if_pos rfl)

theorem blocks_other {k k' : Bool} (h : k' ≠ k) (b : Block UInt8 1024) (events : List (Bool × Read)) :
    blocks k ((k', .block b) :: events) = blocks k events :=
  List.filterMap_cons_none (if_neg h)

/-- **What the thread `k` writes** depends on its own blocks only. -/
theorem run_log (h : Connected s) (hopen : ∀ e ∈ events, e.2 ≠ .closed) (k : Bool) : ((s.run events).thread k).log =
    (s.thread k).log ++ forwards (s.sockfds (!k)) (s.thread k).buf (blocks k events) := by
  induction events generalizing s with
  | nil => exact (List.append_nil _).symm
  | cons e events ih =>
    obtain ⟨hopen₁, hrest⟩ := List.forall_mem_cons.1 hopen
    obtain ⟨k', r⟩ := e
    show (((s.step k' r).run events).thread k).log = _
    cases r with
    | closed => exact absurd rfl hopen₁
    | failed =>
      have hstep : s.step k' .failed = s := by
        rw [Server.step]
        exact if_pos (h.running k')
      rw [hstep, ih h hrest]
      rfl
    | block b =>
      have hsockfds : (s.step k' (.block b)).sockfds = s.sockfds := by rw [step_block h]; rfl
      rw [ih (h.block k' b) hrest, hsockfds, step_block h]
      by_cases hk : k = k'
      · subst hk
        rw [thread_self]
        rw [blocks_self, List.append_assoc]
        rfl
      · rw [thread_other s hk, blocks_other (Ne.symm hk)]

/-! ## One block -/

theorem strlen_line {init : List UInt8} (h : 0 ∉ init) (rest : List UInt8) :
    strlen (init ++ 0 :: rest) = some init.length := by
  induction init with
  | nil => rfl
  | cons c init ih =>
    rw [List.mem_cons, not_or] at h
    have hc : decide (c = 0) = false := decide_eq_false (Ne.symm h.1)
    rw [strlen, List.cons_append, List.findIdx?_cons, hc]
    show Option.map _ (strlen _) = _
    rw [ih h.2]
    rfl

theorem cString_line {init : List UInt8} (h : 0 ∉ init) (rest : List UInt8) :
    cString (init ++ 0 :: rest) = some (init ++ [0]) := by
  rw [cString, strlen_line h, Option.map_some, List.take_length_add_append]
  rfl

/-- `strlen` comes back where there is a NUL. -/
theorem cString_some {bytes bs : List UInt8} (h : cString bs = some bytes) :
    ∃ init rest, bs = init ++ 0 :: rest ∧ 0 ∉ init ∧ bytes = init ++ [0] := by
  by_cases hmem : 0 ∈ bs
  · obtain ⟨init, rest, rfl, hinit⟩ := List.eq_append_cons_of_mem hmem
    rw [cString_line hinit] at h
    exact ⟨init, rest, rfl, hinit, (Option.some.inj h).symm⟩
  · have hnone : strlen bs = none := by
      refine List.findIdx?_eq_none_iff.2 fun c hc => decide_eq_false ?_
      rintro rfl
      exact hmem hc
    rw [cString, hnone] at h
    cases h

/-- **A block that is a line** is written as it was read. -/
theorem cString_frame (h : IsLine b.bytes) (buf : Buf UInt8 1024) : cString (buf.read b).bytes = some b.bytes := by
  obtain ⟨init, last, hb, hlast, hinit⟩ := h
  subst hlast
  have hnot : 0 ∉ init := fun hmem => hinit 0 hmem rfl
  rw [Buf.read_bytes, hb, List.append_assoc]
  exact cString_line hnot _

/-- **And back**, where as many bytes are written as were read. -/
theorem frame_of_cString {bytes : List UInt8} (h : cString (buf.read b).bytes = some bytes)
    (hlen : bytes.length = b.bytes.length) : IsLine b.bytes := by
  obtain ⟨init, rest, hbuf, hinit, rfl⟩ := cString_some h
  have hbytes : b.bytes = init ++ [0] := by
    rw [Buf.read_bytes] at hbuf
    have hcut : b.bytes ++ buf.bytes.drop b.bytes.length = (init ++ [0]) ++ rest := by
      rw [hbuf, List.append_assoc]
      rfl
    exact (List.append_inj hcut hlen.symm).1
  exact ⟨init, 0, hbytes, rfl, fun c hc h0 => hinit (h0 ▸ hc)⟩

/-! ## Any run -/

/-- The bytes of a write. -/
def Forward.bytes (f : Forward) : List UInt8 := f.written.getD []

theorem Forward.bytes_some {f : Forward} {bytes : List UInt8} (h : f.written = some bytes) : f.bytes = bytes := by
  rw [Forward.bytes, h]
  rfl

/-- Every write goes to `fd` and uses no byte behind those read before, and together they write what was read. -/
structure Unchanged (fd : Nat) (read : List (Block UInt8 1024)) (log : List Forward) : Prop where
  sockfd : ∀ f ∈ log, f.sockfd = fd
  inside : ∀ f ∈ log, ∃ bytes, f.written = some bytes ∧ bytes.length ≤ f.ret
  same : log.flatMap Forward.bytes = read.flatMap Block.bytes

theorem forwards_sockfd (fd : Nat) (buf : Buf UInt8 1024) (bs : List (Block UInt8 1024)) :
    ∀ f ∈ forwards fd buf bs, f.sockfd = fd := by
  induction bs generalizing buf with
  | nil => nofun
  | cons b bs ih => exact List.forall_mem_cons.2 ⟨rfl, ih _⟩

theorem forwards_lines (h : ∀ b ∈ bs, IsLine b.bytes) (fd : Nat) (buf : Buf UInt8 1024) :
    Unchanged fd bs (forwards fd buf bs) := by
  refine ⟨forwards_sockfd fd buf bs, ?_, ?_⟩
  · induction bs generalizing buf with
    | nil => nofun
    | cons b bs ih =>
      obtain ⟨hb, hbs⟩ := List.forall_mem_cons.1 h
      exact List.forall_mem_cons.2 ⟨⟨_, cString_frame hb buf, Nat.le_refl _⟩, ih hbs _⟩
  · induction bs generalizing buf with
    | nil => rfl
    | cons b bs ih =>
      obtain ⟨hb, hbs⟩ := List.forall_mem_cons.1 h
      rw [forwards, List.flatMap_cons, List.flatMap_cons, ih hbs, Forward.bytes_some (cString_frame hb buf)]

/-- Where no write is longer than its block, they are together at most as long. -/
theorem forwards_length (h : ∀ f ∈ forwards fd buf bs, ∃ bytes, f.written = some bytes ∧ bytes.length ≤ f.ret) :
    ((forwards fd buf bs).flatMap Forward.bytes).length ≤ (bs.flatMap Block.bytes).length := by
  induction bs generalizing buf with
  | nil => exact Nat.le_refl 0
  | cons b bs ih =>
    obtain ⟨⟨bytes, hw, hle⟩, hrest⟩ := List.forall_mem_cons.1 h
    have hlen := ih hrest
    have hb : bytes.length ≤ b.bytes.length := hle
    have hfirst : (Forward.mk fd b.bytes.length (cString (buf.read b).bytes)).bytes = bytes := Forward.bytes_some hw
    rw [forwards, List.flatMap_cons, List.flatMap_cons, List.length_append, List.length_append, hfirst]
    omega

/-- **Back**: all the writes are as long as all the blocks, and none is longer, so each is as long as its block. -/
theorem lines_of_forwards (h : Unchanged fd bs (forwards fd buf bs)) : ∀ b ∈ bs, IsLine b.bytes := by
  have hinside := h.inside
  have hlen := congrArg List.length h.same
  clear h
  induction bs generalizing buf with
  | nil => nofun
  | cons b bs ih =>
    obtain ⟨⟨bytes, hw, hle⟩, hrest⟩ := List.forall_mem_cons.1 hinside
    have hb : bytes.length ≤ b.bytes.length := hle
    have hfirst : (Forward.mk fd b.bytes.length (cString (buf.read b).bytes)).bytes = bytes := Forward.bytes_some hw
    have htail := forwards_length hrest
    rw [forwards, List.flatMap_cons, List.flatMap_cons, List.length_append, List.length_append, hfirst] at hlen
    refine List.forall_mem_cons.2 ⟨frame_of_cString hw (by omega), ih hrest (by omega)⟩

/-- **Exactly when the relay forwards the stream unchanged**: every read of the thread is one line with its NUL. -/
theorem relay_unchanged (hs : Connected s) (hlog : ∀ k, (s.thread k).log = []) (hopen : ∀ e ∈ events, e.2 ≠ .closed)
    (k : Bool) : Unchanged (s.sockfds (!k)) (blocks k events) ((s.run events).thread k).log ↔
      ∀ b ∈ blocks k events, IsLine b.bytes := by
  rw [run_log hs hopen, hlog k, List.nil_append]
  exact ⟨lines_of_forwards, fun h => forwards_lines h _ _⟩

/-- Two clients on the sockets 4 and 5, before anything is read. -/
def pair : Server where
  sockfds k := if k then 5 else 4
  thread k := ⟨if k then 5 else 4, ⟨List.replicate 1024 0, List.length_replicate⟩, true, []⟩

theorem pair_connected : Connected pair := ⟨by decide, fun _ => rfl, fun _ => rfl⟩

theorem two_short (b : UInt8) : [b, 0].length ≤ 1024 := Nat.le_of_ble_eq_true rfl

/-- One letter with its NUL. -/
def letter (b : UInt8) : Block UInt8 1024 := ⟨[b, 0], List.cons_ne_nil _ _, two_short b⟩

theorem letter_line {b : UInt8} (hb : b ≠ 0) : IsLine (letter b).bytes := by
  refine ⟨[b], 0, rfl, rfl, fun c hc => ?_⟩
  rw [List.mem_singleton.1 hc]
  exact hb

/-- A client writes `a` and `b`, and the other one `c` and `d`; every line comes in one read. -/
def letters : List (Bool × Read) :=
  [(false, .block (letter 97)), (true, .block (letter 99)), (false, .block (letter 98)), (true, .block (letter 100))]

theorem relay_unchanged_letters :
    Unchanged 5 [letter 97, letter 98] ((pair.run letters).thread false).log ∧
      Unchanged 4 [letter 99, letter 100] ((pair.run letters).thread true).log := by
  have hopen : ∀ e ∈ letters, e.2 ≠ .closed := by
    simp [letters]
  have hfirst : ∀ b ∈ blocks false letters, IsLine b.bytes :=
    List.forall_mem_cons.2 ⟨letter_line (by decide), List.forall_mem_singleton.2 (letter_line (by decide))⟩
  have hsecond : ∀ b ∈ blocks true letters, IsLine b.bytes :=
    List.forall_mem_cons.2 ⟨letter_line (by decide), List.forall_mem_singleton.2 (letter_line (by decide))⟩
  exact ⟨(relay_unchanged pair_connected (fun _ => rfl) hopen false).2 hfirst,
    (relay_unchanged pair_connected (fun _ => rfl) hopen true).2 hsecond⟩

/-- A client writes `a` and `b`, and both lines come in one read. -/
theorem relay_unchanged_counterexample :
    [(⟨[97, 0, 98, 0], List.cons_ne_nil _ _, by decide⟩ : Block UInt8 1024)].flatMap Block.bytes = stream [[97], [98]] ∧
    ¬ Unchanged 5 [⟨[97, 0, 98, 0], List.cons_ne_nil _ _, by decide⟩]
      ((pair.run [(false, .block ⟨[97, 0, 98, 0], List.cons_ne_nil _ _, by decide⟩)]).thread false).log := by
  refine ⟨rfl, fun h => ?_⟩
  let block : Block UInt8 1024 := ⟨[97, 0, 98, 0], List.cons_ne_nil _ _, by decide⟩
  have hall : Unchanged 5 [block] (forwards 5 ⟨List.replicate 1024 0, List.length_replicate⟩ [block]) := h
  obtain ⟨init, last, hinit, -, hno⟩ := lines_of_forwards hall block List.mem_cons_self
  have hcut : [97, 0, 98] = init := by
    have hdrop := congrArg List.dropLast hinit
    rwa [List.dropLast_concat] at hdrop
  subst hcut
  exact hno 0 (by simp) rfl

/-! ## The lines of a client -/

/-- **For the lines that a client writes**, every read is then one of them, in order. -/
theorem frames_each {lines : List (List UInt8)} (hlines : ∀ l ∈ lines, 0 ∉ l)
    (h : bs.flatMap Block.bytes = stream lines) :
    (∀ b ∈ bs, IsLine b.bytes) ↔ bs.map Block.bytes = lines.map (· ++ [0]) := by
  constructor
  · intro hbs
    induction bs generalizing lines with
    | nil =>
      cases lines with
      | nil => rfl
      | cons l lines => simp [stream] at h
    | cons b bs ih =>
      obtain ⟨hb, hrest⟩ := List.forall_mem_cons.1 hbs
      cases lines with
      | nil =>
        have hnil : b.bytes = [] := (List.append_eq_nil_iff.1 (by rwa [List.flatMap_cons] at h)).1
        exact absurd hnil b.some
      | cons l lines =>
        obtain ⟨hl, hlines⟩ := List.forall_mem_cons.1 hlines
        have hfront : b.bytes ++ bs.flatMap Block.bytes = l ++ 0 :: stream lines := by
          rw [List.flatMap_cons, stream, List.flatMap_cons, List.append_assoc] at h
          exact h
        have hnot : ∀ c ∈ l, ¬ c = 0 := fun c hc h0 => hl (h0 ▸ hc)
        obtain ⟨hfirst, htail⟩ := hb.cut hnot rfl hfront
        rw [List.map_cons, List.map_cons, hfirst, ih hlines htail hrest]
  · intro hmap b hb
    have hmem : b.bytes ∈ lines.map (· ++ [0]) := hmap ▸ List.mem_map_of_mem hb
    obtain ⟨l, hl, hbytes⟩ := List.mem_map.1 hmem
    exact ⟨l, 0, hbytes.symm, rfl, fun c hc h0 => hlines l hl (h0 ▸ hc)⟩

end UnixNote.Clitocli
