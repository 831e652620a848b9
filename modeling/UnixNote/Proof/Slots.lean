import UnixNote.Chat.Loop
import UnixNote.Proof.Framing

/-!
# Which connection a receive thread serves

A receive thread is started with the address of a slot of `events` and reads it later,
when another `epoll_wait` may have written there. `threads_serve`: as long as no
`epoll_wait` puts another descriptor into the slot of a thread that has not read it
(`Kept`), every thread serves the connection it was started for, and the threads are
exactly the events that were reported. `threads_serve_breaks` is a schedule where two
threads serve one connection and the other has none.

The first section says once what each step of a thread does.
-/

namespace UnixNote.Loop

open Socket (Received)

variable {sockfd : Int} {s s' : Loop} {a : Act} {k : Nat}

/-! ## What a step of a thread does -/

/-- The element at an index, with what is before and behind it. -/
theorem set_split {α : Type*} {l : List α} {x : α} (h : l[k]? = some x) :
    ∃ before after, l = before ++ x :: after ∧ ∀ y, l.set k y = before ++ y :: after := by
  obtain ⟨hk, rfl⟩ := List.getElem?_eq_some_iff.1 h
  refine ⟨l.take k, l.drop (k + 1), ?_, fun y => ?_⟩
  · rw [← List.drop_eq_getElem_cons hk, List.take_append_drop]
  · rw [List.set_eq_take_append_cons_drop, if_pos hk]

/-- A thread reads its argument: whatever is in its slot now. -/
theorem first_cases (h : s.Enabled sockfd (.first k)) :
    ∃ before after ev slot, s.threads = before ++ .created ev slot :: after ∧
      s.act sockfd (.first k) = { s with threads := before ++ .waiting ev (s.events slot) :: after } := by
  simp only [Enabled] at h
  split at h
  · rename_i ev slot hk
    obtain ⟨before, after, hs, hset⟩ := set_split hk
    refine ⟨before, after, ev, slot, hs, ?_⟩
    simp only [act, hk, move, hset]
  · exact h.elim

/-- The state after a header read of the thread between `before` and `after`. -/
def headerRead (s : Loop) (before after : List Thread) (ev fd : Int) : Loop :=
  let h := (s.buf fd).take 8
  if 0 < lenth h then { s.consume fd 8 with threads := before ++ Thread.between ev fd h :: after }
  else { s.consume fd 8 with threads := before ++ Thread.done ev fd :: after }.deliver fd ⟨CInt.load h, none⟩

/-- A thread reads a header: it goes on to the payload, or hands the frame over when there is
none. -/
theorem header_cases (h : s.Enabled sockfd (.header k)) :
    ∃ before after ev fd, s.threads[k]? = some (.waiting ev fd) ∧ s.threads = before ++ .waiting ev fd :: after ∧
      8 ≤ (s.buf fd).length ∧ s.act sockfd (.header k) = s.headerRead before after ev fd := by
  simp only [Enabled] at h
  split at h
  · rename_i ev fd hk
    obtain ⟨before, after, hs, hset⟩ := set_split hk
    refine ⟨before, after, ev, fd, hk, hs, h, ?_⟩
    simp only [act, hk, headerRead, move, consume_threads, hset]
  · exact h.elim

/-- The state after a payload read of the thread between `before` and `after`. -/
def payloadRead (s : Loop) (before after : List Thread) (ev fd : Int) (h : List UInt8) : Loop :=
  { s.consume fd (lenth h).toNat with threads := before ++ Thread.done ev fd :: after }.deliver fd
    ⟨CInt.load h, some ((s.buf fd).take (lenth h).toNat)⟩

/-- A thread reads the payload its header declared, and hands the frame over. -/
theorem payload_cases (h : s.Enabled sockfd (.payload k)) :
    ∃ before after ev fd hd, s.threads = before ++ .between ev fd hd :: after ∧
      lenth hd ≤ (s.buf fd).length ∧ s.act sockfd (.payload k) = s.payloadRead before after ev fd hd := by
  simp only [Enabled] at h
  split at h
  · rename_i ev fd hd hk
    obtain ⟨before, after, hs, hset⟩ := set_split hk
    refine ⟨before, after, ev, fd, hd, hs, h, ?_⟩
    simp only [act, hk, payloadRead, move, consume_threads, hset]
  · exact h.elim

/-- The state in which `confd` is accepted and registered. -/
def accepted (s : Loop) (confd : Int) (backlog : List Int) : Loop :=
  { s with
    backlog := backlog
    watched := confd :: s.watched
    pending := if s.buf confd = [] then s.pending else s.pending.insert confd
    i := s.i + 1 }

/-- The body of the loop accepts a connection, or starts a thread. -/
theorem body_cases (h : s.Enabled sockfd .body) :
    (s.events s.i = sockfd ∧ ∃ confd backlog, s.backlog = confd :: backlog ∧
      s.act sockfd .body = s.accepted confd backlog) ∨
    (s.events s.i ≠ sockfd ∧ s.act sockfd .body =
      { s with threads := s.threads ++ [Thread.created (s.events s.i) s.i], i := s.i + 1 }) := by
  by_cases hsock : s.events s.i = sockfd
  · cases hb : s.backlog with
    | nil => exact absurd hb (h.2 hsock)
    | cons confd backlog =>
      refine Or.inl ⟨hsock, confd, backlog, rfl, ?_⟩
      simp only [act, if_pos hsock, hb]
      rfl
  · refine Or.inr ⟨hsock, ?_⟩
    simp only [act, if_neg hsock]

/-- The body of the loop takes the next descriptor of the batch. -/
theorem rest_body (h : s.i < s.ret) :
    s.rest = s.events s.i :: (List.range' (s.i + 1) (s.ret - (s.i + 1))).map s.events := by
  unfold rest
  rw [show s.ret - s.i = (s.ret - (s.i + 1)) + 1 by omega, List.range'_succ, List.map_cons]

/-- A new batch is what `epoll_wait` reported. -/
theorem rest_wait {fds : List Int} : (s.act sockfd (.wait fds)).rest = fds := by
  show (List.range' 0 (fds.length - 0)).map (fun j => fds.getD j (s.events j)) = fds
  refine List.ext_getElem (by simp) fun j hj hj' => ?_
  simp only [List.getElem_map, List.getElem_range', Nat.zero_add, Nat.one_mul]
  rw [List.getD_eq_getElem?_getD, List.getElem?_eq_getElem hj', Option.getD_some]

/-! ## Threads and events -/

/-- `epoll_wait` leaves the slots alone that some thread has not read yet. -/
def Kept (s : Loop) : Act → Prop
  | .wait fds => ∀ t ∈ s.threads, t.keeps fds = true
  | _ => True

instance (s : Loop) (a : Act) : Decidable (s.Kept a) :=
  match a with
  | .wait fds => inferInstanceAs (Decidable (∀ t ∈ s.threads, t.keeps fds = true))
  | .connect _ | .arrive _ _ | .body | .first _ | .header _ | .payload _ => isTrue trivial

/-- Slots that are still to be read hold the descriptor their thread was started for, and
threads that have read theirs serve it. -/
structure Slots (s : Loop) : Prop where
  kept : ∀ ev slot, .created ev slot ∈ s.threads → s.events slot = ev
  own : ∀ t ∈ s.threads, ∀ fd, t.serves = some fd → fd = t.event

/-- A thread moves on without changing what it serves. -/
theorem Slots.replace {before after : List Thread} {t t' : Thread} (h : Slots s)
    (hs : s.threads = before ++ t :: after) (hev : s'.events = s.events)
    (hs' : s'.threads = before ++ t' :: after) (hnew : ∀ ev slot, t' ≠ .created ev slot)
    (hown : ∀ fd, t'.serves = some fd → fd = t'.event) : Slots s' := by
  have hmem : ∀ x ∈ s'.threads, x = t' ∨ x ∈ s.threads := by
    intro x hx
    rw [hs', List.mem_append, List.mem_cons] at hx
    rw [hs, List.mem_append, List.mem_cons]
    tauto
  refine ⟨fun ev slot hx => ?_, fun x hx fd hfd => ?_⟩
  · rw [hev]
    rcases hmem _ hx with hx | hx
    · exact absurd hx.symm (hnew ev slot)
    · exact h.kept ev slot hx
  · rcases hmem x hx with rfl | hx
    · exact hown fd hfd
    · exact h.own x hx fd hfd

/-- **One step keeps the slots.** -/
theorem Slots.act (h : Slots s) (hen : s.Enabled sockfd a) (hk : s.Kept a) : Slots (s.act sockfd a) := by
  cases a with
  | connect fd => exact ⟨h.kept, h.own⟩
  | arrive fd bytes => exact ⟨h.kept, h.own⟩
  | wait fds =>
    refine ⟨fun ev slot hx => ?_, h.own⟩
    -- by `Kept`, the slot gets the descriptor it has
    show fds.getD slot (s.events slot) = ev
    rw [h.kept ev slot hx]
    simpa [Thread.keeps] using hk _ hx
  | body =>
    rcases body_cases hen with ⟨-, confd, backlog, -, hact⟩ | ⟨-, hact⟩
    · rw [hact]
      exact ⟨h.kept, h.own⟩
    · rw [hact]
      refine ⟨fun ev slot hx => ?_, fun t ht fd hfd => ?_⟩
      · rcases List.mem_append.1 hx with hx | hx
        · exact h.kept ev slot hx
        · cases List.mem_singleton.1 hx
          rfl
      · rcases List.mem_append.1 ht with ht | ht
        · exact h.own t ht fd hfd
        · cases List.mem_singleton.1 ht
          cases hfd
  | first k =>
    obtain ⟨before, after, ev, slot, hs, hact⟩ := first_cases hen
    -- the slot has not changed since the thread was started
    have hev : s.events slot = ev := h.kept ev slot (by rw [hs]; simp)
    rw [hact]
    refine h.replace hs rfl rfl (by simp) fun fd hfd => ?_
    simp only [Thread.serves, Option.some.injEq] at hfd
    rw [← hfd, hev]
    rfl
  | header k =>
    obtain ⟨before, after, ev, fd, -, hs, -, hact⟩ := header_cases hen
    have hown : fd = ev := h.own (.waiting ev fd) (by rw [hs]; simp) fd rfl
    rw [hact, headerRead]
    dsimp only
    split
    · refine h.replace hs rfl rfl (by simp) fun fd' hfd => ?_
      cases hfd
      exact hown
    · refine h.replace hs rfl rfl (by simp) fun fd' hfd => ?_
      cases hfd
      exact hown
  | payload k =>
    obtain ⟨before, after, ev, fd, hd, hs, -, hact⟩ := payload_cases hen
    have hown : fd = ev := h.own (.between ev fd hd) (by rw [hs]; simp) fd rfl
    rw [hact]
    refine h.replace hs rfl rfl (by simp) fun fd' hfd => ?_
    cases hfd
    exact hown

/-- The threads started so far, and then the rest of the batch, are the events reported on
connections. -/
def Started (sockfd : Int) (s : Loop) : Prop :=
  s.threads.map Thread.event ++ s.rest.filter (· ≠ sockfd) = s.reported.filter (· ≠ sockfd)

/-- **One step keeps the account of events.** -/
theorem Started.act (h : Started sockfd s) (hen : s.Enabled sockfd a) : Started sockfd (s.act sockfd a) := by
  unfold Started at h ⊢
  cases a with
  | connect fd => exact h
  | arrive fd bytes => exact h
  | wait fds =>
    -- `epoll_wait` is called when the batch is done
    have hrest : s.rest = [] := by
      unfold rest
      rw [hen.1, Nat.sub_self]
      rfl
    rw [hrest, List.filter_nil, List.append_nil] at h
    rw [rest_wait]
    show s.threads.map Thread.event ++ _ = (s.reported ++ fds).filter _
    rw [h, List.filter_append]
  | body =>
    rw [rest_body hen.1] at h
    rcases body_cases hen with ⟨hsock, confd, backlog, -, hact⟩ | ⟨hsock, hact⟩
    -- an event on the listening socket starts no thread
    · rw [List.filter_cons_of_neg (by simp [hsock])] at h
      rw [hact]
      exact h
    · rw [List.filter_cons_of_pos (by simpa using hsock)] at h
      rw [hact]
      show (s.threads ++ [Thread.created (s.events s.i) s.i]).map Thread.event ++ _ = _
      rw [List.map_append, List.append_assoc]
      exact h
  | first k =>
    obtain ⟨before, after, ev, slot, hs, hact⟩ := first_cases hen
    rw [hs, List.map_append, List.map_cons] at h
    rw [hact]
    show (before ++ Thread.waiting ev (s.events slot) :: after).map Thread.event ++ _ = _
    rw [List.map_append, List.map_cons]
    exact h
  | header k =>
    obtain ⟨before, after, ev, fd, -, hs, -, hact⟩ := header_cases hen
    rw [hs, List.map_append, List.map_cons] at h
    rw [hact, headerRead]
    dsimp only
    split
    · show (before ++ Thread.between ev fd _ :: after).map Thread.event ++ _ = _
      rw [List.map_append, List.map_cons]
      exact h
    · show (before ++ Thread.done ev fd :: after).map Thread.event ++ _ = _
      rw [List.map_append, List.map_cons]
      exact h
  | payload k =>
    obtain ⟨before, after, ev, fd, hd, hs, -, hact⟩ := payload_cases hen
    rw [hs, List.map_append, List.map_cons] at h
    rw [hact]
    show (before ++ Thread.done ev fd :: after).map Thread.event ++ _ = _
    rw [List.map_append, List.map_cons]
    exact h

/-- Both hold along every run that keeps the slots. -/
theorem run_slots {C : Loop → Act → Prop} {tr : List (Loop × Act)} (hC : ∀ s a, C s a → s.Kept a)
    (hr : (lts sockfd).Run C tr s) : Slots s := by
  refine hr.invariant (I := Slots) ?_ ?_
  · rintro s ⟨events, rfl⟩
    exact ⟨by simp [start], by simp [start]⟩
  · rintro s a s' h hk ⟨hen, rfl⟩
    exact h.act hen (hC s a hk)

theorem run_started {C : Loop → Act → Prop} {tr : List (Loop × Act)} (hr : (lts sockfd).Run C tr s) :
    Started sockfd s := by
  refine hr.invariant (I := Started sockfd) ?_ ?_
  · rintro s ⟨events, rfl⟩
    rfl
  · rintro s a s' h - ⟨hen, rfl⟩
    exact h.act hen

/-- **A receive thread serves the connection whose event started it**, in every run in which no
`epoll_wait` changes the slot of a thread that has not read it. Once the batch is done and
every thread has read its argument, the threads serve exactly the connections reported. -/
theorem threads_serve {tr : List (Loop × Act)} (hr : (lts sockfd).Run Kept tr s) :
    (∀ t ∈ s.threads, ∀ fd, t.serves = some fd → fd = t.event) ∧
      (s.i = s.ret → (∀ t ∈ s.threads, t.serves ≠ none) →
        s.threads.map Thread.serves = (s.reported.filter (· ≠ sockfd)).map some) := by
  have hown := (run_slots (fun _ _ h => h) hr).own
  refine ⟨hown, fun hi hall => ?_⟩
  have h : Started sockfd s := run_started hr
  -- nothing is left of the batch
  unfold Started rest at h
  rw [hi, Nat.sub_self, List.range'_zero, List.map_nil, List.filter_nil, List.append_nil] at h
  rw [← h, List.map_map]
  refine List.map_congr_left fun t ht => ?_
  cases hserves : t.serves with
  | none => exact absurd hserves (hall t ht)
  | some fd =>
    rw [hown t ht fd hserves]
    rfl

/-- A script of steps, from an empty array. -/
theorem run_script (sockfd : Int) (C : Loop → Act → Prop) (as : List Act)
    (h : Lts.Script (fun s a => C s a ∧ s.Enabled sockfd a) (act sockfd) (start fun _ => 0) as) :
    ∃ tr, (lts sockfd).Run C tr (as.foldl (act sockfd) (start fun _ => 0)) := by
  have h₀ : (lts sockfd).Run C [] (start fun _ => 0) := .start ⟨_, rfl⟩
  refine ⟨_, h₀.script ?_ as h⟩
  rintro s a ⟨hC, hen⟩
  exact ⟨hC, hen, rfl⟩

/-- Connections 5 and 6 are accepted, and a frame arrives on 5. -/
def twoClients : List Act :=
  [.connect 5, .wait [3], .body, .connect 6, .wait [3], .body, .arrive 5 Socket.beat.package.frame, .wait [5], .body]

/-- The thread for 5 reads its slot before the event on 6 is reported. -/
def inTurn : List Act :=
  twoClients ++ [Act.first 0, .arrive 6 Socket.beat.package.frame, .wait [6], .body, .first 1]

theorem threads_serve_inTurn :
    (inTurn.foldl (act 3) (start fun _ => 0)).threads.map Thread.serves = [some 5, some 6] := by
  obtain ⟨tr, hr⟩ := run_script 3 Kept inTurn (by decide)
  exact (threads_serve hr).2 (by decide) (by decide)

/-- **A thread serves another connection**: the event on 6 is reported into the slot that the
thread for 5 has not read yet. -/
theorem threads_serve_breaks :
    ∃ sockfd tr s, (lts sockfd).Run (fun _ _ => True) tr s ∧
      ∃ t ∈ s.threads, t.event = 5 ∧ t.serves = some 6 := by
  obtain ⟨tr, hr⟩ := run_script 3 (fun _ _ => True)
    (twoClients ++ [Act.arrive 6 Socket.beat.package.frame, .wait [6], .first 0]) (by decide)
  exact ⟨3, tr, _, hr, .waiting 5 6, by decide, rfl, rfl⟩

end UnixNote.Loop
