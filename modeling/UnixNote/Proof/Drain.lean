import Mathlib.Data.List.Nodup
import UnixNote.Proof.Receivers

/-!
# Nothing is left behind an edge-triggered event

The main loop accepts one connection and a receive thread reads one frame for each
event. `drained`: as long as arrivals have an event of their own (`Uncoalesced`), and
threads neither lose their slot nor share a connection, a state in which everything has
come to rest has no connection in the backlog and no frame in a buffer.
`drained_breaks` is a run where two frames are one event.

The proof counts: the frames that arrived on a connection are the events that were
reported for it and the one that is pending.
-/

namespace UnixNote.Loop

open Socket (Received Package)

variable {sockfd fd : Int} {s s' : Loop} {a : Act}

/-- Bytes arrive in whole frames. -/
def Frames : Act → Prop
  | .arrive _ bytes => ∃ p : Package, bytes = p.frame
  | _ => True

/-- An arrival has an event of its own: the descriptor has none pending, and a connection that
is not accepted yet has nothing to read. -/
def Uncoalesced (sockfd : Int) (s : Loop) : Act → Prop
  | .connect _ => sockfd ∉ s.pending
  | .arrive fd _ => if fd ∈ s.watched then fd ∉ s.pending else s.buf fd = []
  | _ => True

instance (sockfd : Int) (s : Loop) (a : Act) : Decidable (s.Uncoalesced sockfd a) :=
  match a with
  | .connect _ => inferInstanceAs (Decidable (sockfd ∉ s.pending))
  | .arrive fd _ => inferInstanceAs (Decidable (if fd ∈ s.watched then fd ∉ s.pending else s.buf fd = []))
  | .wait _ | .body | .first _ | .header _ | .payload _ => isTrue trivial

/-- Arrivals are whole frames with events of their own, slots are kept, and connections are not
shared. -/
def Separate (sockfd : Int) (s : Loop) (a : Act) : Prop :=
  Frames a ∧ s.Uncoalesced sockfd a ∧ s.Kept a ∧ s.Unshared a

/-- No event is pending or waits in the batch, and every thread has finished. -/
def Quiescent (s : Loop) : Prop := s.pending = [] ∧ s.i = s.ret ∧ ∀ t ∈ s.threads, t.isDone = true

/-- No established connection waits to be accepted, and no buffer holds a complete frame. -/
def Drained (s : Loop) : Prop :=
  s.backlog = [] ∧ ∀ fd (p : Package) rest, s.buf fd ≠ p.frame ++ rest

/-! ## Where descriptors are -/

/-- What pends, is reported or is served is registered; what waits to be accepted is not, and
has not been read. -/
structure Places (sockfd : Int) (s : Loop) : Prop where
  pending : ∀ fd ∈ s.pending, fd = sockfd ∨ fd ∈ s.watched
  once : s.pending.Nodup
  reported : ∀ fd ∈ s.reported, fd = sockfd ∨ fd ∈ s.watched
  backlog : ∀ fd ∈ s.backlog, fd ∉ s.watched
  distinct : s.backlog.Nodup
  sock : sockfd ∉ s.backlog ∧ sockfd ∉ s.watched
  unread : ∀ fd, fd ∉ s.watched → s.buf fd = s.arrived fd
  fresh : ∀ fd, fd ∉ s.backlog → fd ∉ s.watched → s.arrived fd = []

/-- What a thread serves is a registered connection. -/
theorem Places.served (h : Places sockfd s) (hstart : Started sockfd s) (hslots : Slots s) {t : Thread}
    (ht : t ∈ s.threads) (hfd : t.serves = some fd) : fd ∈ s.watched := by
  have hmem : fd ∈ s.threads.map Thread.event ++ s.rest.filter (· ≠ sockfd) := by
    rw [hslots.own t ht fd hfd]
    exact List.mem_append_left _ (List.mem_map_of_mem ht)
  rw [hstart, List.mem_filter] at hmem
  rcases h.reported fd hmem.1 with he | hw
  · simp [he] at hmem
  · exact hw

/-- A read on a registered connection. -/
theorem Places.read (h : Places sockfd s) (hw : fd ∈ s.watched) (hp : s'.pending = s.pending)
    (hr : s'.reported = s.reported) (hb : s'.backlog = s.backlog) (hwt : s'.watched = s.watched)
    (ha : s'.arrived = s.arrived) (hbuf : ∀ x, x ≠ fd → s'.buf x = s.buf x) : Places sockfd s' where
  pending := by rw [hp, hwt]; exact h.pending
  once := by rw [hp]; exact h.once
  reported := by rw [hr, hwt]; exact h.reported
  backlog := by rw [hb, hwt]; exact h.backlog
  distinct := by rw [hb]; exact h.distinct
  sock := by rw [hb, hwt]; exact h.sock
  unread := by
    intro x hx
    rw [hwt] at hx
    rw [ha, hbuf x fun he => hx (he ▸ hw)]
    exact h.unread x hx
  fresh := by rw [hb, hwt, ha]; exact h.fresh

/-- An accepted connection moves from the backlog to the registered ones. -/
theorem Places.accept {confd : Int} {backlog : List Int} (h : Places sockfd s) (hb : s.backlog = confd :: backlog) :
    Places sockfd (s.accepted confd backlog) := by
  have hmem : confd ∈ s.backlog := by rw [hb]; exact List.mem_cons_self
  have hsub : ∀ x ∈ backlog, x ∈ s.backlog := fun x hx => by rw [hb]; exact List.mem_cons_of_mem _ hx
  have hnd := h.distinct
  rw [hb] at hnd
  obtain ⟨hnot, hnd⟩ := List.nodup_cons.1 hnd
  have hcons : ∀ x, x = sockfd ∨ x ∈ s.watched → x = sockfd ∨ x ∈ confd :: s.watched := by
    rintro x (hx | hx)
    · exact Or.inl hx
    · exact Or.inr (List.mem_cons_of_mem _ hx)
  refine ⟨?_, ?_, fun x hx => hcons x (h.reported x hx), ?_, hnd, ⟨fun hx => h.sock.1 (hsub _ hx), ?_⟩, ?_, ?_⟩
  · show ∀ x ∈ (if s.buf confd = [] then s.pending else s.pending.insert confd), _
    split
    · exact fun x hx => hcons x (h.pending x hx)
    · intro x hx
      rcases List.mem_insert_iff.1 hx with rfl | hx
      · exact Or.inr List.mem_cons_self
      · exact hcons x (h.pending x hx)
  · show (if s.buf confd = [] then s.pending else s.pending.insert confd).Nodup
    split
    · exact h.once
    · exact h.once.insert
  · intro x hx hw
    rcases List.mem_cons.1 hw with rfl | hw
    · exact hnot hx
    · exact h.backlog x (hsub x hx) hw
  · intro hx
    rcases List.mem_cons.1 hx with hx | hx
    · exact h.sock.1 (hx ▸ hmem)
    · exact h.sock.2 hx
  · exact fun x hx => h.unread x fun hw => hx (List.mem_cons_of_mem _ hw)
  · intro x hx hw
    refine h.fresh x (fun hm => ?_) fun hm => hw (List.mem_cons_of_mem _ hm)
    rw [hb] at hm
    rcases List.mem_cons.1 hm with rfl | hm
    · exact hw List.mem_cons_self
    · exact hx hm

/-- A client connects, with a descriptor that is not in use. -/
theorem Places.connect (h : Places sockfd s) (hen : s.Enabled sockfd (.connect fd)) :
    Places sockfd (s.act sockfd (.connect fd)) := by
  obtain ⟨hne, hb, hw⟩ := hen
  refine ⟨?_, h.once.insert, h.reported, ?_, ?_, ⟨?_, h.sock.2⟩, h.unread, ?_⟩
  · intro x hx
    rcases List.mem_insert_iff.1 hx with rfl | hx
    · exact Or.inl rfl
    · exact h.pending x hx
  · intro x hx
    rcases List.mem_append.1 hx with hx | hx
    · exact h.backlog x hx
    · rw [List.mem_singleton.1 hx]
      exact hw
  · refine List.nodup_append.2 ⟨h.distinct, List.nodup_singleton _, ?_⟩
    rintro x hx y hy rfl
    rw [List.mem_singleton.1 hy] at hx
    exact hb hx
  · intro hx
    rcases List.mem_append.1 hx with hx | hx
    · exact h.sock.1 hx
    · exact hne (List.mem_singleton.1 hx).symm
  · intro x hx hw
    exact h.fresh x (fun hm => hx (List.mem_append_left _ hm)) hw

/-- Bytes arrive, on a watched connection with an event. -/
theorem Places.arrive {bytes : List UInt8} (h : Places sockfd s) (hen : s.Enabled sockfd (.arrive fd bytes)) :
    Places sockfd (s.act sockfd (.arrive fd bytes)) := by
  refine ⟨?_, ?_, h.reported, h.backlog, h.distinct, h.sock, ?_, ?_⟩
  · show ∀ x ∈ (if fd ∈ s.watched then s.pending.insert fd else s.pending), _
    split
    · rename_i hw
      intro x hx
      rcases List.mem_insert_iff.1 hx with rfl | hx
      · exact Or.inr hw
      · exact h.pending x hx
    · exact h.pending
  · show (if fd ∈ s.watched then s.pending.insert fd else s.pending).Nodup
    split
    · exact h.once.insert
    · exact h.once
  · -- nobody reads from a connection that is not watched
    intro x hx
    show Function.update s.buf fd _ x = Function.update s.arrived fd _ x
    by_cases he : x = fd
    · subst he
      rw [Function.update_self, Function.update_self, h.unread x hx]
    · rw [Function.update_of_ne he, Function.update_of_ne he]
      exact h.unread x hx
  · intro x hb hw
    have he : x ≠ fd := by
      rintro rfl
      rcases hen.2 with hm | hm
      · exact hb hm
      · exact hw hm
    show Function.update s.arrived fd _ x = []
    rw [Function.update_of_ne he]
    exact h.fresh x hb hw

/-- **One step keeps the places.** -/
theorem Places.act (h : Places sockfd s) (hstart : Started sockfd s) (hslots : Slots s)
    (hen : s.Enabled sockfd a) : Places sockfd (s.act sockfd a) := by
  cases a with
  | connect fd => exact h.connect hen
  | arrive fd bytes => exact h.arrive hen
  | wait fds =>
    obtain ⟨-, -, -, hsub, -⟩ := hen
    refine ⟨?_, h.once.filter _, ?_, h.backlog, h.distinct, h.sock, h.unread, h.fresh⟩
    · exact fun x hx => h.pending x (List.mem_of_mem_filter hx)
    · intro x hx
      rcases List.mem_append.1 hx with hx | hx
      · exact h.reported x hx
      · exact h.pending x (hsub x hx)
  | body =>
    rcases body_cases hen with ⟨-, confd, backlog, hb, hact⟩ | ⟨-, hact⟩
    · rw [hact]
      exact h.accept hb
    · rw [hact]
      exact ⟨h.pending, h.once, h.reported, h.backlog, h.distinct, h.sock, h.unread, h.fresh⟩
  | first k =>
    obtain ⟨before, after, ev, slot, -, hact⟩ := first_cases hen
    rw [hact]
    exact ⟨h.pending, h.once, h.reported, h.backlog, h.distinct, h.sock, h.unread, h.fresh⟩
  | header k =>
    obtain ⟨before, after, ev, fd, -, hs, -, hact⟩ := header_cases hen
    have hw : fd ∈ s.watched := h.served (t := .waiting ev fd) hstart hslots (by rw [hs]; simp) rfl
    rw [hact, headerRead]
    dsimp only
    split
    · exact h.read hw rfl rfl rfl rfl rfl fun x hx => Function.update_of_ne hx _ _
    · exact h.read hw rfl rfl rfl rfl rfl fun x hx => Function.update_of_ne hx _ _
  | payload k =>
    obtain ⟨before, after, ev, fd, hd, hs, -, hact⟩ := payload_cases hen
    have hw : fd ∈ s.watched := h.served (t := .between ev fd hd) hstart hslots (by rw [hs]; simp) rfl
    rw [hact]
    exact h.read hw rfl rfl rfl rfl rfl fun x hx => Function.update_of_ne hx _ _

/-! ## Counting events -/

/-- Events are neither lost nor doubled: each connection in the backlog has an event of the
listening socket, pending or in the batch, and each frame that arrived on a connection has
one of its own, pending or reported, or to come when the connection is registered. -/
structure Counted (sockfd : Int) (s : Loop) : Prop where
  accepts : s.backlog.length = s.pending.count sockfd + s.rest.count sockfd
  frames : ∀ fd, fd ≠ sockfd → ∃ ps, s.arrived fd = stream ps ∧
    ps.length = s.pending.count fd + s.reported.count fd + if fd ∈ s.backlog ∧ s.arrived fd ≠ [] then 1 else 0

/-- Reported events are no longer pending. -/
theorem count_reported {l fds : List Int} (hl : l.Nodup) (hfds : fds.Nodup) (hsub : ∀ x ∈ fds, x ∈ l) (x : Int) :
    l.count x = (l.filter (· ∉ fds)).count x + fds.count x := by
  by_cases hx : x ∈ fds
  · have hnot : x ∉ l.filter (· ∉ fds) := by simp [hx]
    rw [List.count_eq_one_of_mem hl (hsub x hx), List.count_eq_one_of_mem hfds hx, List.count_eq_zero_of_not_mem hnot]
  · rw [List.count_filter (by simpa using hx), List.count_eq_zero_of_not_mem hx, Nat.add_zero]

theorem count_insert {l : List Int} {x : Int} (h : x ∉ l) (y : Int) :
    (l.insert x).count y = l.count y + if y = x then 1 else 0 := by
  rw [List.insert_of_not_mem h, List.count_cons]
  by_cases hy : y = x
  · simp [hy]
  · simp [hy, Ne.symm hy]

theorem frame_ne_nil (p : Package) : p.frame ≠ [] := by
  intro h
  have hlen := p.frame_length
  rw [h, List.length_nil] at hlen
  omega

/-- Steps that neither raise nor report an event. -/
theorem Counted.same (h : Counted sockfd s) (hb : s'.backlog = s.backlog) (hp : s'.pending = s.pending)
    (hr : s'.rest.count sockfd = s.rest.count sockfd) (hrep : s'.reported = s.reported) (ha : s'.arrived = s.arrived) :
    Counted sockfd s' := by
  refine ⟨by rw [hb, hp, hr]; exact h.accepts, fun fd hfd => ?_⟩
  rw [ha, hp, hrep, hb]
  exact h.frames fd hfd

theorem Counted.connect (h : Counted sockfd s) (hpl : Places sockfd s) (hen : s.Enabled sockfd (.connect fd))
    (hun : sockfd ∉ s.pending) : Counted sockfd (s.act sockfd (.connect fd)) := by
  obtain ⟨-, hb, hw⟩ := hen
  refine ⟨?_, fun x hx => ?_⟩
  · show (s.backlog ++ [fd]).length = (s.pending.insert sockfd).count sockfd + s.rest.count sockfd
    rw [count_insert hun, if_pos rfl, List.length_append, List.length_singleton, h.accepts]
    omega
  · obtain ⟨ps, harr, hlen⟩ := h.frames x hx
    refine ⟨ps, harr, ?_⟩
    show ps.length = (s.pending.insert sockfd).count x + s.reported.count x +
      if x ∈ s.backlog ++ [fd] ∧ s.arrived x ≠ [] then 1 else 0
    rw [count_insert hun, if_neg hx, Nat.add_zero, hlen]
    -- the new connection has nothing to read
    have hiff : (x ∈ s.backlog ++ [fd] ∧ s.arrived x ≠ []) ↔ (x ∈ s.backlog ∧ s.arrived x ≠ []) := by
      rw [List.mem_append, List.mem_singleton]
      constructor
      · rintro ⟨hm | rfl, hne⟩
        · exact ⟨hm, hne⟩
        · exact absurd (hpl.fresh x hb hw) hne
      · rintro ⟨hm, hne⟩
        exact ⟨Or.inl hm, hne⟩
    rw [if_congr hiff rfl rfl]

theorem Counted.arrive {p : Package} (h : Counted sockfd s) (hpl : Places sockfd s)
    (hen : s.Enabled sockfd (.arrive fd p.frame)) (hun : s.Uncoalesced sockfd (.arrive fd p.frame)) :
    Counted sockfd (s.act sockfd (.arrive fd p.frame)) := by
  have hne : fd ≠ sockfd := by
    rintro rfl
    rcases hen.2 with hm | hm
    · exact hpl.sock.1 hm
    · exact hpl.sock.2 hm
  have hcount : ∀ x, (s.act sockfd (.arrive fd p.frame)).pending.count x =
      s.pending.count x + if x = fd ∧ fd ∈ s.watched then 1 else 0 := by
    intro x
    show (if fd ∈ s.watched then s.pending.insert fd else s.pending).count x = _
    by_cases hw : fd ∈ s.watched
    · have hnot : fd ∉ s.pending := by simpa only [Uncoalesced, if_pos hw] using hun
      rw [if_pos hw, count_insert hnot]
      simp [hw]
    · rw [if_neg hw]
      simp [hw]
  refine ⟨?_, fun x hx => ?_⟩
  · -- the listening socket has no event of its own
    rw [hcount, if_neg (fun hc => hne hc.1.symm)]
    exact h.accepts
  · obtain ⟨ps, harr, hlen⟩ := h.frames x hx
    by_cases he : x = fd
    · subst he
      have harr' : (s.act sockfd (.arrive x p.frame)).arrived x = stream (ps ++ [p]) := by
        show Function.update s.arrived x _ x = _
        rw [Function.update_self, harr, stream_append]
        exact congrArg _ (List.append_nil _).symm
      refine ⟨ps ++ [p], harr', ?_⟩
      have hnonempty : (s.act sockfd (.arrive x p.frame)).arrived x ≠ [] := by
        show Function.update s.arrived x _ x ≠ []
        rw [Function.update_self]
        exact List.append_ne_nil_of_right_ne_nil _ (frame_ne_nil p)
      rw [hcount, List.length_append, List.length_singleton, hlen]
      show _ = _ + s.reported.count x + if x ∈ s.backlog ∧ _ then 1 else 0
      -- watched, it has an event at once; in the backlog, its first frame is counted until then
      by_cases hw : x ∈ s.watched
      · have hb : x ∉ s.backlog := fun hb => hpl.backlog x hb hw
        simp only [hw, hb, false_and, and_self, if_true, if_false]
        omega
      · have hb : x ∈ s.backlog := hen.2.resolve_right hw
        have hempty : s.arrived x = [] := by
          rw [← hpl.unread x hw]
          simpa only [Uncoalesced, if_neg hw] using hun
        simp only [hw, hb, hempty, ne_eq, not_true, hnonempty, not_false_eq_true, and_self, and_false, if_true,
          if_false]
        omega
    · have harr' : (s.act sockfd (.arrive fd p.frame)).arrived x = s.arrived x :=
        Function.update_of_ne he _ _
      refine ⟨ps, harr'.trans harr, ?_⟩
      rw [hcount, if_neg (fun hc => he hc.1), harr']
      exact hlen

theorem Counted.wait {fds : List Int} (h : Counted sockfd s) (hpl : Places sockfd s)
    (hen : s.Enabled sockfd (.wait fds)) : Counted sockfd (s.act sockfd (.wait fds)) := by
  obtain ⟨hi, -, hnd, hsub, -⟩ := hen
  have hcount := count_reported hpl.once hnd hsub
  have hrest : s.rest = [] := by
    unfold rest
    rw [hi, Nat.sub_self]
    rfl
  refine ⟨?_, fun x hx => ?_⟩
  · rw [rest_wait]
    show s.backlog.length = (s.pending.filter (· ∉ fds)).count sockfd + fds.count sockfd
    rw [← hcount, h.accepts, hrest, List.count_nil, Nat.add_zero]
  · obtain ⟨ps, harr, hlen⟩ := h.frames x hx
    refine ⟨ps, harr, ?_⟩
    show ps.length = (s.pending.filter (· ∉ fds)).count x + (s.reported ++ fds).count x + _
    rw [hlen, hcount x, List.count_append]
    show _ = _ + if x ∈ s.backlog ∧ s.arrived x ≠ [] then 1 else 0
    omega

theorem Counted.accept {confd : Int} {backlog : List Int} (h : Counted sockfd s) (hpl : Places sockfd s)
    (hi : s.i < s.ret) (hsock : s.events s.i = sockfd) (hb : s.backlog = confd :: backlog) :
    Counted sockfd (s.accepted confd backlog) := by
  have hmem : confd ∈ s.backlog := by rw [hb]; exact List.mem_cons_self
  have hne : confd ≠ sockfd := fun he => hpl.sock.1 (he ▸ hmem)
  have hnd := hpl.distinct
  rw [hb] at hnd
  obtain ⟨hnot, -⟩ := List.nodup_cons.1 hnd
  have hw : confd ∉ s.watched := hpl.backlog confd hmem
  have hpend : confd ∉ s.pending := fun hp => (hpl.pending confd hp).elim hne hw
  have hcount : ∀ x, (s.accepted confd backlog).pending.count x =
      s.pending.count x + if x = confd ∧ s.arrived confd ≠ [] then 1 else 0 := by
    intro x
    show (if s.buf confd = [] then s.pending else s.pending.insert confd).count x = _
    rw [hpl.unread confd hw]
    by_cases hempty : s.arrived confd = []
    · simp [hempty]
    · rw [if_neg hempty, count_insert hpend]
      simp [hempty]
  have hrest : s.rest.count sockfd = (s.accepted confd backlog).rest.count sockfd + 1 := by
    rw [rest_body hi, List.count_cons, hsock, beq_self_eq_true, if_pos rfl]
    rfl
  refine ⟨?_, fun x hx => ?_⟩
  · have hacc := h.accepts
    rw [hb, List.length_cons, hrest] at hacc
    rw [hcount, if_neg (fun hc => hne hc.1.symm)]
    show backlog.length = _
    omega
  · obtain ⟨ps, harr, hlen⟩ := h.frames x hx
    refine ⟨ps, harr, ?_⟩
    rw [hcount, hlen]
    show _ = _ + s.reported.count x + if x ∈ backlog ∧ s.arrived x ≠ [] then 1 else 0
    by_cases he : x = confd
    · -- what was to come is pending now
      subst he
      simp only [hmem, hnot, true_and, false_and, if_false]
      omega
    · have hiff : x ∈ s.backlog ↔ x ∈ backlog := by
        rw [hb, List.mem_cons]
        exact or_iff_right he
      simp only [he, hiff, false_and, if_false]
      omega

/-- **One step keeps the count.** -/
theorem Counted.act (h : Counted sockfd s) (hpl : Places sockfd s) (hen : s.Enabled sockfd a)
    (hfr : Frames a) (hun : s.Uncoalesced sockfd a) : Counted sockfd (s.act sockfd a) := by
  cases a with
  | connect fd => exact h.connect hpl hen hun
  | arrive fd bytes =>
    obtain ⟨p, rfl⟩ := hfr
    exact h.arrive hpl hen hun
  | wait fds => exact h.wait hpl hen
  | body =>
    rcases body_cases hen with ⟨hsock, confd, backlog, hb, hact⟩ | ⟨hsock, hact⟩
    · rw [hact]
      exact h.accept hpl hen.1 hsock hb
    · rw [hact]
      refine h.same rfl rfl ?_ rfl rfl
      rw [rest_body hen.1, List.count_cons, beq_eq_false_iff_ne.2 hsock, if_neg (by decide), Nat.add_zero]
      rfl
  | first k =>
    obtain ⟨before, after, ev, slot, -, hact⟩ := first_cases hen
    rw [hact]
    exact h.same rfl rfl rfl rfl rfl
  | header k =>
    obtain ⟨before, after, ev, fd, -, -, -, hact⟩ := header_cases hen
    rw [hact, headerRead]
    dsimp only
    split <;> exact h.same rfl rfl rfl rfl rfl
  | payload k =>
    obtain ⟨before, after, ev, fd, hd, -, -, hact⟩ := payload_cases hen
    rw [hact]
    exact h.same rfl rfl rfl rfl rfl

/-! ## At rest -/

/-- The thread has handed over a frame of `fd`. -/
def finished (fd : Int) : Thread → Bool
  | .done _ fd' => fd' = fd
  | _ => false

/-- Every finished thread has handed over one frame. -/
def Delivered (s : Loop) : Prop := ∀ fd, (s.delivered fd).length = s.threads.countP (finished fd)

/-- A thread that moves without finishing. -/
theorem Delivered.move {before after : List Thread} {t t' : Thread} (h : Delivered s)
    (hs : s.threads = before ++ t :: after) (hs' : s'.threads = before ++ t' :: after)
    (hd : s'.delivered = s.delivered) (ht : ∀ fd, finished fd t' = finished fd t) : Delivered s' := by
  intro fd
  have hfd := h fd
  rw [hs, List.countP_append, List.countP_cons] at hfd
  rw [hd, hs', List.countP_append, List.countP_cons, ht fd]
  exact hfd

/-- A thread that finishes. -/
theorem Delivered.finish {before after : List Thread} {t : Thread} {ev fd : Int} {got : Received} (h : Delivered s)
    (hs : s.threads = before ++ t :: after) (hs' : s'.threads = before ++ .done ev fd :: after)
    (hd : s'.delivered = Function.update s.delivered fd (s.delivered fd ++ [got]))
    (ht : ∀ fd, finished fd t = false) : Delivered s' := by
  intro x
  have hx := h x
  rw [hs, List.countP_append, List.countP_cons, ht x, if_neg (by decide)] at hx
  rw [hd, hs', List.countP_append, List.countP_cons]
  by_cases he : x = fd
  · subst he
    rw [Function.update_self, List.length_append, List.length_singleton]
    simp only [finished, decide_true, if_true]
    omega
  · rw [Function.update_of_ne he]
    simp only [finished, decide_eq_true_eq, Ne.symm he, if_false]
    omega

theorem Delivered.act (h : Delivered s) (hen : s.Enabled sockfd a) : Delivered (s.act sockfd a) := by
  cases a with
  | connect fd => exact h
  | arrive fd bytes => exact h
  | wait fds => exact h
  | body =>
    rcases body_cases hen with ⟨-, confd, backlog, -, hact⟩ | ⟨-, hact⟩
    · rw [hact]
      exact h
    · rw [hact]
      intro fd
      show (s.delivered fd).length = (s.threads ++ [Thread.created _ _]).countP (finished fd)
      rw [List.countP_append, h fd]
      rfl
  | first k =>
    obtain ⟨before, after, ev, slot, hs, hact⟩ := first_cases hen
    rw [hact]
    exact h.move hs rfl rfl fun _ => rfl
  | header k =>
    obtain ⟨before, after, ev, fd, -, hs, -, hact⟩ := header_cases hen
    rw [hact, headerRead]
    dsimp only
    split
    · exact h.move hs rfl rfl fun _ => rfl
    · exact h.finish hs rfl rfl fun _ => rfl
  | payload k =>
    obtain ⟨before, after, ev, fd, hd, hs, -, hact⟩ := payload_cases hen
    rw [hact]
    exact h.finish hs rfl rfl fun _ => rfl

/-- The counts along every run whose steps are separate. -/
theorem run_counted {tr : List (Loop × Act)} (hr : (lts sockfd).Run (Separate sockfd) tr s) :
    Counted sockfd s ∧ Places sockfd s ∧ Started sockfd s ∧ Slots s ∧ Delivered s := by
  refine hr.invariant
    (I := fun s => Counted sockfd s ∧ Places sockfd s ∧ Started sockfd s ∧ Slots s ∧ Delivered s) ?_ ?_
  · rintro s ⟨events, rfl⟩
    refine ⟨⟨rfl, fun fd _ => ⟨[], rfl, rfl⟩⟩, ?_, rfl, ⟨by simp [start], by simp [start]⟩, fun _ => rfl⟩
    exact ⟨by simp [start], by simp [start], by simp [start], by simp [start], by simp [start], by simp [start],
      fun _ _ => rfl, fun _ _ _ => rfl⟩
  · rintro s a s' ⟨hc, hpl, hst, hsl, hd⟩ ⟨hfr, hun, hk, -⟩ ⟨hen, rfl⟩
    exact ⟨hc.act hpl hen hfr hun, hpl.act hst hsl hen, hst.act hen, hsl.act hen hk, hd.act hen⟩

/-- **Edge-triggered drain**, in every run with whole frames in which no two arrivals share an
event and threads neither lose their slot nor share a connection: when no event is left and
every receive thread has finished, no connection has a complete frame in its buffer, and
none is left in the backlog. -/
theorem drained {tr : List (Loop × Act)} (hr : (lts sockfd).Run (Separate sockfd) tr s) (hq : s.Quiescent) :
    s.Drained := by
  obtain ⟨hc, hpl, hst, hsl, hdel⟩ := run_counted hr
  obtain ⟨hpend, hi, hdone⟩ := hq
  have hrest : s.rest = [] := by
    unfold rest
    rw [hi, Nat.sub_self]
    rfl
  have hb : s.backlog = [] := by
    have := hc.accepts
    rw [hpend, hrest] at this
    exact List.length_eq_zero_iff.1 this
  have hbuf : ∀ fd, s.buf fd = [] := by
    intro fd
    by_cases hfd : fd = sockfd
    · subst hfd
      rw [hpl.unread _ hpl.sock.2, hpl.fresh _ hpl.sock.1 hpl.sock.2]
    obtain ⟨ps, harr, hlen⟩ := hc.frames fd hfd
    rw [hpend, hb, List.count_nil, Nat.zero_add] at hlen
    simp only [List.not_mem_nil, false_and, if_false, Nat.add_zero] at hlen
    -- as many threads finished on this connection as frames arrived
    have hcount : (s.delivered fd).length = ps.length := by
      have hev : s.reported.count fd = (s.threads.map Thread.event).count fd := by
        have hst := congrArg (List.count fd) hst
        rw [hrest, List.filter_nil, List.append_nil, List.count_filter (by simpa using hfd)] at hst
        exact hst.symm
      rw [hlen, hev, hdel fd, List.count, List.countP_map]
      refine List.countP_congr fun t ht => ?_
      cases t with
      | done ev fd' =>
        have hown : fd' = ev := hsl.own _ ht fd' rfl
        simp [finished, Thread.event, hown]
      | created ev slot => exact absurd (hdone _ ht) (by simp [Thread.isDone])
      | waiting ev fd' => exact absurd (hdone _ ht) (by simp [Thread.isDone])
      | between ev fd' h => exact absurd (hdone _ ht) (by simp [Thread.isDone])
    have hpos : Position fd ps s :=
      run_position (fun _ _ h => h.2.2.2) hr (harr ▸ List.prefix_refl _)
    cases hpos with
    | atFrame n hn _ hall =>
      have htake : ps.take n = ps := by
        have hmin := congrArg List.length hn
        rw [hcount, List.length_map, List.length_take] at hmin
        exact List.take_of_length_le (by omega)
      rw [harr, htake] at hall
      exact List.self_eq_append_right.1 hall
    | inFrame n p _ _ _ hheld _ =>
      -- a finished thread holds no header
      have hnone : s.held fd = [] := by
        unfold held
        rw [List.filterMap_eq_nil_iff]
        intro t ht
        cases t with
        | done ev fd' => rfl
        | created ev slot => rfl
        | waiting ev fd' => rfl
        | between ev fd' h => exact absurd (hdone _ ht) (by simp [Thread.isDone])
      rw [hnone] at hheld
      cases hheld
  refine ⟨hb, fun fd p r hframe => ?_⟩
  rw [hbuf fd] at hframe
  exact frame_ne_nil p (List.append_eq_nil_iff.1 hframe.symm).1

/-- All that arrives is the frame of `p`. -/
def Only (p : Package) : Act → Prop
  | .arrive _ bytes => bytes = p.frame
  | _ => True

instance (p : Package) (a : Act) : Decidable (Only p a) :=
  match a with
  | .arrive _ bytes => inferInstanceAs (Decidable (bytes = p.frame))
  | .connect _ | .wait _ | .body | .first _ | .header _ | .payload _ => isTrue trivial

/-- A script of separate steps, with one frame again and again. -/
theorem separate_script (sockfd : Int) (p : Package) (as : List Act)
    (h : Lts.Script (fun s a => (Only p a ∧ s.Uncoalesced sockfd a ∧ s.Kept a ∧ s.Unshared a) ∧ s.Enabled sockfd a)
      (act sockfd) (start fun _ => 0) as) :
    ∃ tr, (lts sockfd).Run (Separate sockfd) tr (as.foldl (act sockfd) (start fun _ => 0)) := by
  have h₀ : (lts sockfd).Run (Separate sockfd) [] (start fun _ => 0) := .start ⟨_, rfl⟩
  refine ⟨_, h₀.script ?_ as h⟩
  rintro s a ⟨⟨honly, hrest⟩, hen⟩
  refine ⟨⟨?_, hrest⟩, hen, rfl⟩
  cases a with
  | arrive fd bytes => exact ⟨p, honly⟩
  | _ => trivial

/-- Connection 5 is accepted and sends a frame, which is read. -/
def oneFrame : List Act :=
  [.connect 5, .wait [3], .body, .arrive 5 Socket.beat.package.frame, .wait [5], .body, .first 0, .header 0, .payload 0]

theorem drained_oneFrame : (oneFrame.foldl (act 3) (start fun _ => 0)).Drained := by
  obtain ⟨tr, hr⟩ := separate_script 3 Socket.beat.package oneFrame (by decide)
  exact drained hr ⟨by decide, by decide, by decide⟩

/-- **Two frames, one event**: the second frame arrives before the event of the first one is
reported, one thread reads one frame, and nothing ever reads the other. -/
theorem drained_breaks :
    ∃ sockfd tr s, (lts sockfd).Run (fun _ a => Frames a) tr s ∧ s.Quiescent ∧ ¬ s.Drained := by
  have hr : ∃ tr, (lts 3).Run (fun _ a => Only Socket.beat.package a) tr
      ([.connect 5, .wait [3], .body, .arrive 5 Socket.beat.package.frame, .arrive 5 Socket.beat.package.frame,
        .wait [5], .body, .first 0, .header 0, .payload 0].foldl (act 3) (start fun _ => 0)) :=
    run_script 3 _ _ (by decide)
  obtain ⟨tr, hr⟩ := hr
  refine ⟨3, tr, _, hr.mono ?_, ⟨by decide, by decide, by decide⟩, fun h => ?_⟩
  · intro s a honly
    cases a with
    | arrive fd bytes => exact ⟨_, honly⟩
    | _ => trivial
  · exact h.2 5 Socket.beat.package [] (by decide)

end UnixNote.Loop
