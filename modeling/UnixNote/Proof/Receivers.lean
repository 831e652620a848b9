import UnixNote.Proof.Slots

/-!
# Frames on a connection with several receive threads

A receive thread takes a header and a payload in two reads, and nothing keeps another
thread from reading the same connection in between. `frames_delivered`: as long as no
thread reads a header while another one is between its two reads of that connection
(`Unshared`), the frames handed to `analysis_receive` are the frames the client sent, in
their order. `frames_delivered_breaks` is a schedule where a payload is taken for a header.
-/

namespace UnixNote.Loop

open Socket (Received Package)

variable {sockfd fd : Int} {s s' : Loop} {a : Act} {ps : List Package}

/-- The bytes of a sequence of frames. -/
def stream (ps : List Package) : List UInt8 := ps.flatMap Package.frame

@[simp] theorem stream_append {qs : List Package} : stream (ps ++ qs) = stream ps ++ stream qs :=
  List.flatMap_append

@[simp] theorem stream_cons {p : Package} : stream (p :: ps) = p.frame ++ stream ps := rfl

/-- No thread reads a header while another is between header and payload of the same
connection. -/
def Unshared (s : Loop) : Act → Prop
  | .header k =>
    match s.threads[k]? with
    | some (.waiting _ fd) => ∀ t ∈ s.threads, t.held fd = none
    | _ => True
  | _ => True

instance (s : Loop) (a : Act) : Decidable (s.Unshared a) :=
  let headers : (t : Option Thread) → Decidable (match t with
      | some (.waiting _ fd) => ∀ t ∈ s.threads, t.held fd = none
      | _ => True)
    | some (.waiting _ fd) => inferInstanceAs (Decidable (∀ t ∈ s.threads, t.held fd = none))
    | some (.created _ _) | some (.between _ _ _) | some (.done _ _) | none => isTrue trivial
  match a with
  | .header k => headers s.threads[k]?
  | .connect _ | .arrive _ _ | .wait _ | .body | .first _ | .payload _ => isTrue trivial

/-- The headers that threads hold between their two reads of `fd`. -/
def held (s : Loop) (fd : Int) : List (List UInt8) := s.threads.filterMap (Thread.held fd)

/-- How far the frames `ps` of a connection have been taken: the first `n` are delivered, and
the connection is at the next one, or some thread has the header of the next one. -/
inductive Position (fd : Int) (ps : List Package) (s : Loop) : Prop
  | atFrame (n : Nat) : s.delivered fd = (ps.take n).map Package.received → s.held fd = [] →
      s.arrived fd = stream (ps.take n) ++ s.buf fd → Position fd ps s
  | inFrame (n : Nat) (p : Package) : s.delivered fd = (ps.take n).map Package.received → ps[n]? = some p →
      0 < p.lenth → s.held fd = [p.header] → s.arrived fd = stream (ps.take n) ++ p.header ++ s.buf fd →
      Position fd ps s

/-- A step that does not touch the connection. -/
theorem Position.congr (h : Position fd ps s) (hd : s'.delivered fd = s.delivered fd) (hh : s'.held fd = s.held fd)
    (ha : s'.arrived fd = s.arrived fd) (hb : s'.buf fd = s.buf fd) : Position fd ps s' := by
  cases h with
  | atFrame n hdel hheld harr => exact .atFrame n (hd.trans hdel) (hh.trans hheld) (by rw [ha, hb, harr])
  | inFrame n p hdel hp hpos hheld harr =>
    exact .inFrame n p (hd.trans hdel) hp hpos (hh.trans hheld) (by rw [ha, hb, harr])

/-- Bytes that arrive are behind those that are there. -/
theorem Position.arrive {bytes : List UInt8} (h : Position fd ps s) (hd : s'.delivered fd = s.delivered fd)
    (hh : s'.held fd = s.held fd) (ha : s'.arrived fd = s.arrived fd ++ bytes) (hb : s'.buf fd = s.buf fd ++ bytes) :
    Position fd ps s' := by
  cases h with
  | atFrame n hdel hheld harr =>
    exact .atFrame n (hd.trans hdel) (hh.trans hheld) (by rw [ha, hb, harr, List.append_assoc])
  | inFrame n p hdel hp hpos hheld harr =>
    refine .inFrame n p (hd.trans hdel) hp hpos (hh.trans hheld) ?_
    rw [ha, hb, harr]
    simp only [List.append_assoc]

/-- What is left of a prefix of the frames, behind the first `n`. -/
theorem prefix_behind {n : Nat} {bytes : List UInt8} (hpre : stream (ps.take n) ++ bytes <+: stream ps) :
    bytes <+: stream (ps.drop n) := by
  have hps : stream ps = stream (ps.take n) ++ stream (ps.drop n) := by
    rw [← stream_append, List.take_append_drop]
  rw [hps] at hpre
  exact (List.prefix_append_right_inj _).1 hpre

/-- The first bytes of a prefix, when there are enough of them. -/
theorem prefix_take {α : Type*} {l m r : List α} (h : l <+: m ++ r) (hlen : m.length ≤ l.length) :
    l.take m.length = m := by
  obtain ⟨t, ht⟩ := h
  have htake := congrArg (List.take m.length) ht
  rwa [List.take_append_of_le_length hlen, List.take_left'] at htake
  rfl

theorem prefix_drop {α : Type*} {l m r : List α} (h : l <+: m ++ r) (hlen : m.length ≤ l.length) :
    l = m ++ l.drop m.length := by
  have := List.take_append_drop m.length l
  rwa [prefix_take h hlen, eq_comm] at this

/-- **A header read at a frame boundary** takes the header of the next frame. -/
theorem next_frame {n : Nat} {bytes : List UInt8} (hpre : bytes <+: stream (ps.drop n)) (h8 : 8 ≤ bytes.length) :
    ∃ p, ps[n]? = some p ∧ ps.take (n + 1) = ps.take n ++ [p] ∧ bytes.take 8 = p.header ∧
      bytes = p.header ++ bytes.drop 8 := by
  by_cases hn : n < ps.length
  swap
  · rw [List.drop_eq_nil_of_le (by omega)] at hpre
    have : bytes = [] := List.prefix_nil.1 hpre
    rw [this] at h8
    simp at h8
  have hget : ps[n]? = some ps[n] := List.getElem?_eq_getElem hn
  rw [List.drop_eq_getElem_cons hn, stream_cons, Package.frame, List.append_assoc] at hpre
  refine ⟨ps[n], hget, ?_, prefix_take hpre h8, prefix_drop hpre h8⟩
  rw [List.take_add_one, hget]
  rfl

/-- The payload behind a header that was taken. -/
theorem next_payload {n : Nat} {p : Package} {bytes : List UInt8} (hp : ps[n]? = some p)
    (hpre : p.header ++ bytes <+: stream (ps.drop n)) (hlen : p.lenth ≤ bytes.length) :
    bytes.take p.lenth.toNat = p.data ∧ bytes = p.data ++ bytes.drop p.lenth.toNat := by
  obtain ⟨hn, rfl⟩ := List.getElem?_eq_some_iff.1 hp
  rw [List.drop_eq_getElem_cons hn, stream_cons, Package.frame, List.append_assoc] at hpre
  have hpre' := (List.prefix_append_right_inj _).1 hpre
  have hsize := ps[n].size
  rw [← hsize]
  exact ⟨prefix_take hpre' (by omega), prefix_drop hpre' (by omega)⟩

/-- The headers held, around the thread that moves. -/
theorem held_split {before after : List Thread} {t : Thread} (hs : s.threads = before ++ t :: after) :
    s.held fd = before.filterMap (Thread.held fd) ++ ((t.held fd).toList ++ after.filterMap (Thread.held fd)) := by
  unfold held
  rw [hs, List.filterMap_append, List.filterMap_cons]
  cases t.held fd <;> rfl

/-- A thread that holds the same header of `fd`, or none, before and after its step. -/
theorem held_same {before after : List Thread} {t t' : Thread} (hs : s.threads = before ++ t :: after)
    (hs' : s'.threads = before ++ t' :: after) (h : t'.held fd = t.held fd) : s'.held fd = s.held fd := by
  rw [held_split hs, held_split hs', h]

/-- **A header read keeps the position**, when no other thread is inside a frame. -/
theorem Position.header {before after : List Thread} {ev fd' : Int} (h : Position fd ps s)
    (hpre : s.arrived fd <+: stream ps) (hs : s.threads = before ++ .waiting ev fd' :: after)
    (h8 : 8 ≤ (s.buf fd').length) (hfree : ∀ t ∈ s.threads, t.held fd' = none) :
    Position fd ps (s.headerRead before after ev fd') := by
  by_cases hfd : fd' = fd
  swap
  · -- another connection
    unfold headerRead
    dsimp only
    split
    · refine h.congr rfl (held_same hs rfl (by simp [Thread.held, hfd])) rfl ?_
      exact Function.update_of_ne (Ne.symm hfd) _ _
    · refine h.congr ?_ (held_same hs rfl rfl) rfl ?_
      · exact Function.update_of_ne (Ne.symm hfd) _ _
      · exact Function.update_of_ne (Ne.symm hfd) _ _
  subst hfd
  have hheld : s.held fd' = [] := by
    unfold held
    rw [List.filterMap_eq_nil_iff]
    exact hfree
  cases h with
  | inFrame n p hdel hp hpos hh harr =>
    rw [hheld] at hh
    cases hh
  | atFrame n hdel _ harr =>
    rw [harr] at hpre
    obtain ⟨p, hp, htake, hhead, hbuf⟩ := next_frame (prefix_behind hpre) h8
    -- the thread that moves is the only one that can hold a header
    rw [held_split hs] at hheld
    obtain ⟨hbefore, hafter⟩ := List.append_eq_nil_iff.1 hheld
    have hnew : ∀ (s' : Loop) (t' : Thread), s'.threads = before ++ t' :: after →
        s'.held fd' = (t'.held fd').toList := by
      intro s' t' hs'
      rw [held_split hs', hbefore, (List.append_eq_nil_iff.1 hafter).2, List.append_nil, List.nil_append]
    have hlenth : lenth ((s.buf fd').take 8) = p.lenth := by
      rw [hhead]
      exact p.load_drop_header
    unfold headerRead
    dsimp only
    by_cases hpos : 0 < p.lenth
    · rw [if_pos (by rw [hlenth]; exact hpos)]
      refine .inFrame n p hdel hp hpos ?_ ?_
      · rw [hnew _ _ rfl, hhead]
        simp [Thread.held]
      · show s.arrived fd' = _ ++ Function.update s.buf fd' _ fd'
        rw [Function.update_self, harr, List.append_assoc, ← hbuf]
    · rw [if_neg (by rw [hlenth]; exact hpos)]
      have hdata : p.data = [] := by
        have := p.size
        exact List.length_eq_zero_iff.1 (by omega)
      refine .atFrame (n + 1) ?_ ?_ ?_
      · show Function.update s.delivered fd' _ fd' = _
        rw [Function.update_self, htake, List.map_append, ← hdel, hhead, p.load_header]
        simp [Package.received, hpos]
      · refine hnew _ (.done ev fd') ?_
        rfl
      · show s.arrived fd' = _ ++ Function.update s.buf fd' _ fd'
        rw [Function.update_self, harr, htake, stream_append, List.append_assoc, stream_cons, Package.frame, hdata,
          List.append_nil]
        show _ = stream (ps.take n) ++ (p.header ++ stream [] ++ _)
        rw [show stream [] = [] from rfl, List.append_nil, ← hbuf]

/-- **A payload read keeps the position.** -/
theorem Position.payload {before after : List Thread} {ev fd' : Int} {hd : List UInt8} (h : Position fd ps s)
    (hpre : s.arrived fd <+: stream ps) (hs : s.threads = before ++ .between ev fd' hd :: after)
    (hlen : lenth hd ≤ (s.buf fd').length) : Position fd ps (s.payloadRead before after ev fd' hd) := by
  by_cases hfd : fd' = fd
  swap
  · refine h.congr ?_ (held_same hs rfl (by simp [Thread.held, hfd])) rfl ?_
    · exact Function.update_of_ne (Ne.symm hfd) _ _
    · exact Function.update_of_ne (Ne.symm hfd) _ _
  subst hfd
  have hmem : hd ∈ s.held fd' := by
    rw [held_split hs]
    simp [Thread.held]
  cases h with
  | atFrame n hdel hh harr =>
    rw [hh] at hmem
    cases hmem
  | inFrame n p hdel hp hpos hh harr =>
    have hhd : hd = p.header := by
      rw [hh] at hmem
      exact List.mem_singleton.1 hmem
    subst hhd
    have hlenth : lenth p.header = p.lenth := p.load_drop_header
    rw [hlenth] at hlen
    rw [harr, List.append_assoc] at hpre
    obtain ⟨hdata, hbuf⟩ := next_payload hp (prefix_behind hpre) hlen
    have htake : ps.take (n + 1) = ps.take n ++ [p] := by
      rw [List.take_add_one, hp]
      rfl
    have hheld : (s.payloadRead before after ev fd' p.header).held fd' = [] := by
      rw [held_split hs] at hh
      have hlen := congrArg List.length hh
      simp only [Thread.held, if_true, Option.toList_some, List.length_append, List.length_cons,
        List.length_nil] at hlen
      rw [held_split rfl, List.length_eq_zero_iff.1 (show (before.filterMap (Thread.held fd')).length = 0 by omega),
        List.length_eq_zero_iff.1 (show (after.filterMap (Thread.held fd')).length = 0 by omega)]
      rfl
    refine .atFrame (n + 1) ?_ hheld ?_
    · show Function.update s.delivered fd' _ fd' = _
      rw [Function.update_self, htake, List.map_append, ← hdel, hlenth, hdata, p.load_header]
      simp [Package.received, hpos]
    · show s.arrived fd' = _ ++ Function.update s.buf fd' _ fd'
      rw [Function.update_self, harr, htake, stream_append, hlenth, stream_cons, Package.frame]
      show _ = stream (ps.take n) ++ (p.header ++ p.data ++ stream []) ++ _
      rw [show stream [] = [] from rfl, List.append_nil]
      simp only [List.append_assoc]
      rw [← hbuf]

/-- **One step keeps the position.** -/
theorem Position.act (h : s.arrived fd <+: stream ps → Position fd ps s) (hen : s.Enabled sockfd a)
    (hun : s.Unshared a) (hpre : (s.act sockfd a).arrived fd <+: stream ps) : Position fd ps (s.act sockfd a) := by
  cases a with
  | connect fd' => exact (h hpre).congr rfl rfl rfl rfl
  | wait fds => exact (h hpre).congr rfl rfl rfl rfl
  | arrive fd' bytes =>
    by_cases hfd : fd' = fd
    · subst hfd
      have harr : (s.act sockfd (.arrive fd' bytes)).arrived fd' = s.arrived fd' ++ bytes :=
        Function.update_self _ _ _
      rw [harr] at hpre
      exact (h ((List.prefix_append _ _).trans hpre)).arrive rfl rfl harr (Function.update_self _ _ _)
    · have harr : (s.act sockfd (.arrive fd' bytes)).arrived fd = s.arrived fd :=
        Function.update_of_ne (Ne.symm hfd) _ _
      rw [harr] at hpre
      exact (h hpre).congr rfl rfl harr (Function.update_of_ne (Ne.symm hfd) _ _)
  | body =>
    rcases body_cases hen with ⟨-, confd, backlog, -, hact⟩ | ⟨-, hact⟩
    · rw [hact] at hpre ⊢
      exact (h hpre).congr rfl rfl rfl rfl
    · rw [hact] at hpre ⊢
      refine (h hpre).congr rfl ?_ rfl rfl
      show (s.threads ++ [Thread.created _ _]).filterMap (Thread.held fd) = s.held fd
      rw [List.filterMap_append]
      exact List.append_nil _
  | first k =>
    obtain ⟨before, after, ev, slot, hs, hact⟩ := first_cases hen
    rw [hact] at hpre ⊢
    exact (h hpre).congr rfl (held_same hs rfl rfl) rfl rfl
  | header k =>
    obtain ⟨before, after, ev, fd', hk, hs, h8, hact⟩ := header_cases hen
    have hfree : ∀ t ∈ s.threads, t.held fd' = none := by simpa only [Unshared, hk] using hun
    rw [hact] at hpre ⊢
    have hsame : (s.headerRead before after ev fd').arrived = s.arrived := by
      unfold headerRead
      dsimp only
      split <;> rfl
    rw [hsame] at hpre
    exact (h hpre).header hpre hs h8 hfree
  | payload k =>
    obtain ⟨before, after, ev, fd', hd, hs, hlen, hact⟩ := payload_cases hen
    rw [hact] at hpre ⊢
    exact (h hpre).payload hpre hs hlen

/-- The position is kept along every run that does not share connections. -/
theorem run_position {C : Loop → Act → Prop} {tr : List (Loop × Act)} (hC : ∀ s a, C s a → s.Unshared a)
    (hr : (lts sockfd).Run C tr s) (hpre : s.arrived fd <+: stream ps) : Position fd ps s := by
  revert hpre
  refine hr.invariant (I := fun s => s.arrived fd <+: stream ps → Position fd ps s) ?_ ?_
  · rintro s ⟨events, rfl⟩ -
    exact .atFrame 0 rfl rfl rfl
  · rintro s a s' h hun ⟨hen, rfl⟩
    exact Position.act h hen (hC s a hun)

/-- **Exactly-once delivery with concurrent receive threads**, in every run in which no thread
reads a header while another is between the two reads of a frame of the same connection:
whatever frames `ps` the client sends and however much of them has arrived, the frames
handed to `analysis_receive` are the first ones of `ps`, each once and with its own
`optype` and payload. -/
theorem frames_delivered {tr : List (Loop × Act)} (hr : (lts sockfd).Run Unshared tr s)
    (hpre : s.arrived fd <+: stream ps) : s.delivered fd <+: ps.map Package.received := by
  cases run_position (fun _ _ h => h) hr hpre with
  | atFrame n hdel _ _ =>
    rw [hdel]
    exact (List.take_prefix n ps).map _
  | inFrame n p hdel _ _ _ _ =>
    rw [hdel]
    exact (List.take_prefix n ps).map _

/-- `OP_ADD_FRIEND` from user 1 to user 0. -/
def request : Package := ⟨9, 8, [1, 0, 0, 0, 0, 0, 0, 0], by decide, by decide, rfl⟩

/-- Connection 5 is accepted, the header of `request` arrives and is read, and then the payload
arrives, an event of its own. -/
def inTwoParts : List Act :=
  [.connect 5, .wait [3], .body, .arrive 5 request.header, .wait [5], .body, .first 0, .header 0,
    .arrive 5 request.data, .wait [5], .body, .first 1]

/-- The first thread takes the payload. -/
theorem frames_delivered_inTwoParts :
    ((inTwoParts ++ [Act.payload 0]).foldl (act 3) (start fun _ => 0)).delivered 5 <+: [request.received] := by
  obtain ⟨tr, hr⟩ := run_script 3 Unshared (inTwoParts ++ [Act.payload 0]) (by decide)
  have hpre : ((inTwoParts ++ [Act.payload 0]).foldl (act 3) (start fun _ => 0)).arrived 5 <+: stream [request] := by
    decide
  exact frames_delivered hr hpre

/-- **A payload is taken for a header**: the second thread reads the ids of the request as
`optype` 1 and length 0, and a login without a payload is handed to `analysis_receive`. -/
theorem frames_delivered_breaks :
    ∃ sockfd tr s fd ps, (lts sockfd).Run (fun _ _ => True) tr s ∧ s.arrived fd <+: stream ps ∧
      ∃ got ∈ s.delivered fd, got ∉ ps.map Package.received := by
  obtain ⟨tr, hr⟩ := run_script 3 (fun _ _ => True) (inTwoParts ++ [Act.header 1]) (by decide)
  exact ⟨3, tr, _, 5, [request], hr, by decide, ⟨1, none⟩, by decide, by decide⟩

end UnixNote.Loop
