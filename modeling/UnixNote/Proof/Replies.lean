import UnixNote.Chat.System
import UnixNote.Proof.Messages
import UnixNote.Proof.SessionTable

/-!
# What one action of the server means for one connection

`Server.session s fd` is the user logged in on `fd`. On a connection that stays open an
action changes it only by a login there (`session_keep`, `loginAction_answers`). Answers
to a registration or a login go to the connection that asked, one each
(`registerAction_answers`, `loginAction_answers`), and a friend request goes to the
session of the user it names (`act_addressed`).
-/

namespace UnixNote

open Server

variable {env : Env} {s s' s₁ s₂ : Server} {fd confd x : Int} {m : Msg} {evs evs' : List Event}

/-! ## Sessions -/

/-- The user logged in on `fd`. -/
def Server.session (s : Server) (fd : Int) : Option Int := (s.pOnline.searchList fd .bySockfd).map fun n => n.id

theorem session_none : s.session fd = none ↔ ∀ n ∈ s.pOnline.nodes, n.sockfd ≠ fd := by
  unfold session
  rw [Option.map_eq_none_iff]
  exact OnlineList.searchSockfd_none

theorem session_some (h : Sessions s.pOnline) :
    s.session fd = some x ↔ ∃ n ∈ s.pOnline.nodes, n.sockfd = fd ∧ n.id = x := by
  unfold session
  rw [Option.map_eq_some_iff]
  constructor
  · rintro ⟨n, hn, hx⟩
    obtain ⟨hmem, hfd⟩ := OnlineList.searchSockfd_some hn
    exact ⟨n, hmem, hfd, hx⟩
  · rintro ⟨n, hmem, hfd, hx⟩
    exact ⟨n, h.fds.find?_iff.2 ⟨hmem, hfd⟩, hx⟩

/-- A session on `fd` is linked to `fd`. -/
theorem session_linked (h : Sessions s.pOnline) (hx : s.session fd = some x) : Linked s.pOnline fd x := by
  obtain ⟨n, hmem, rfl, rfl⟩ := (session_some h).1 hx
  exact h.linked hmem

/-- A connection that stays open keeps its session. -/
theorem session_keep (h : Sessions s.pOnline) (hs : Shrink s s') (hc : Closes s s') (ho : fd ∈ s'.opened) :
    s'.session fd = s.session fd := by
  refine Option.ext fun x => ?_
  rw [session_some hs.table.sessions, session_some h]
  constructor
  · rintro ⟨n, hmem, hfd, hx⟩
    exact ⟨n, hs.sublist.subset hmem, hfd, hx⟩
  · rintro ⟨n, hmem, rfl, hx⟩
    have hkept : n ∈ s'.pOnline.nodes := by
      by_contra hno
      exact hc n hmem hno ho
    exact ⟨n, hkept, rfl, hx⟩

/-! ## Messages on their way -/

/-- The events since `s`. -/
def Server.news (s s' : Server) : List Event := s'.log.drop s.log.length

/-- The answers that `Register_Iface_mgmt` and `Login_Iface_mgmt` wait for. -/
def Msg.isReply : Msg → Bool
  | .registerSuccess _ => true
  | .loginFeedback _ => true
  | _ => false

/-- The answers among messages. -/
def replies (ms : List Msg) : List Msg := ms.filter Msg.isReply

@[simp] theorem replies_append (ms ms' : List Msg) : replies (ms ++ ms') = replies ms ++ replies ms' :=
  List.filter_append ..

theorem replies_nil {ms : List Msg} (h : ∀ m ∈ ms, m.isReply = false) : replies ms = [] := by
  unfold replies
  rw [List.filter_eq_nil_iff]
  intro m hm
  rw [h m hm]
  exact Bool.false_ne_true

@[simp] theorem sent_append : sent fd (evs ++ evs') = sent fd evs ++ sent fd evs' := List.filterMap_append

theorem mem_sent : m ∈ sent fd evs ↔ .write fd m true ∈ evs := by
  unfold sent
  rw [List.mem_filterMap]
  constructor
  · rintro ⟨e, he, heq⟩
    split at heq
    · split at heq
      · rename_i hfd
        cases heq
        exact hfd ▸ he
      · cases heq
    · cases heq
  · intro he
    exact ⟨_, he, if_pos rfl⟩

/-- Without writes nothing is sent. -/
theorem sent_quiet (h : evs.all Event.quiet = true) : sent fd evs = [] := by
  rw [List.eq_nil_iff_forall_not_mem]
  intro m hm
  have := List.all_eq_true.1 h _ (mem_sent.1 hm)
  simp [Event.quiet] at this

theorem news_of_log (h : s'.log = s.log ++ evs) : s.news s' = evs := by
  unfold news
  rw [h, List.drop_left]

theorem news_trans (h₁ : s.log <+: s₁.log) (h₂ : s₁.log <+: s₂.log) : s.news s₂ = s.news s₁ ++ s₁.news s₂ := by
  obtain ⟨evs, h₁⟩ := h₁
  obtain ⟨evs', h₂⟩ := h₂
  rw [news_of_log h₁.symm, news_of_log h₂.symm]
  refine news_of_log ?_
  rw [← h₂, ← h₁, List.append_assoc]

namespace Writes

variable {P Q : Int → Msg → Prop}

theorem log_extends (h : Writes P s s') : s.log <+: s'.log := by
  obtain ⟨evs, hl, -⟩ := h
  exact ⟨evs, hl.symm⟩

/-- What was sent since is in `P`. -/
theorem sent (h : Writes P s s') (hm : m ∈ sent fd (s.news s')) : P fd m := by
  obtain ⟨evs, hl, hw⟩ := h
  rw [news_of_log hl, mem_sent] at hm
  exact hw fd m true hm

theorem sent_trans (h₁ : Writes P s s₁) (h₂ : Writes Q s₁ s₂) :
    UnixNote.sent fd (s.news s₂) = UnixNote.sent fd (s.news s₁) ++ UnixNote.sent fd (s₁.news s₂) := by
  rw [news_trans h₁.log_extends h₂.log_extends, sent_append]

/-- No answers, when there is none in `P`. -/
theorem replies_nil (h : Writes P s s') (hP : ∀ m, P fd m → m.isReply = false) :
    replies (UnixNote.sent fd (s.news s')) = [] :=
  UnixNote.replies_nil fun m hm => hP m (h.sent hm)

end Writes

/-- A silent walk sends nothing but teardowns. -/
theorem Walk.silent_writes {A : Allowed} (h : Walk env A.silent s s') : Writes (fun _ m => m.teardown = true) s s' :=
  h.writes.mono fun _ _ h => h.resolve_left fun h => h

theorem Msg.not_reply (h : m.teardown = true) : m.isReply = false := by
  cases m <;> simp_all [Msg.teardown, Msg.isReply]

/-! ## Answers -/

/-- A teardown closes its connection. -/
theorem offlineAction_closed {id : Int} : confd ∉ (s.offlineAction env confd id).opened := by
  have h : Cascade env (.offline confd id) s (s.offlineAction env confd id) := cascade_offlineAction
  generalize s.offlineAction env confd id = s' at h
  intro hfd
  cases h with
  | offlineNeg _ => simp at hfd
  | offlineRows _ _ _ _ => simp at hfd
  | offlineNoDb _ _ _ => simp at hfd

/-- `Write_server` sends its message, or the connection is gone. -/
theorem writeServer_sends (env : Env) (fd : Int) (m : Msg) (s : Server) :
    (s.writeServer env fd m).1 = s.emit (.write fd m true) ∨ fd ∉ (s.writeServer env fd m).1.opened := by
  unfold writeServer write
  cases env.write s.log fd m with
  | true => exact Or.inl rfl
  | false => exact Or.inr offlineAction_closed

/-- One answer, with nothing but other messages before and after. -/
theorem replies_one {P Q : Int → Msg → Prop} (h₁ : Writes P s s₁) (hP : ∀ m, P fd m → m.isReply = false)
    (h₂ : Writes Q (s₁.emit (.write fd m true)) s') (hQ : ∀ m, Q fd m → m.isReply = false)
    (hm : m.isReply = true) : replies (sent fd (s.news s')) = [m] := by
  have hw : Writes (fun _ _ => True) s₁ (s₁.emit (.write fd m true)) := Writes.write trivial
  have hone : sent fd (s₁.news (s₁.emit (.write fd m true))) = [m] := by
    rw [news_of_log (emit_log s₁ _)]
    exact List.filterMap_cons_some (if_pos rfl)
  have htail : Writes (fun _ _ => True) s₁ s' := hw.trans (h₂.mono fun _ _ _ => trivial)
  rw [h₁.sent_trans htail, hw.sent_trans h₂, hone, replies_append, replies_append, h₁.replies_nil hP,
    h₂.replies_nil hQ]
  unfold replies
  rw [List.filter_cons_of_pos hm]
  rfl

/-- **A registration is answered once**, unless the server crashes. -/
theorem registerAction_answers {user : User} (ho : confd ∈ (s.registerAction env confd user).opened) :
    replies (sent confd (s.news (s.registerAction env confd user))) = [] ∨
      ∃ x, replies (sent confd (s.news (s.registerAction env confd user))) = [.registerSuccess x] := by
  obtain ⟨s₁, hw, heq | ⟨id, c, heq⟩⟩ := registerAction_cases env confd user s
  · have hcrash : Writes (fun _ m => m.teardown = true) s₁ (s₁.emit .crash) := Writes.quiet [_] rfl rfl
    rw [heq]
    exact Or.inl ((hw.silent_writes.trans hcrash).replies_nil fun _ => Msg.not_reply)
  · rw [heq] at ho ⊢
    unfold registerReply at ho ⊢
    rcases writeServer_sends env confd (.registerSuccess id) s₁ with hsend | hclosed
    · rw [hsend]
      have hend : Writes (fun _ m => m.teardown = true) (s₁.emit (.write confd (.registerSuccess id) true))
          ((s₁.emit (.write confd (.registerSuccess id) true)).mysqlEnd c) := Writes.refl.mysqlEnd c
      exact Or.inr ⟨id, replies_one hw.silent_writes (fun _ => Msg.not_reply) hend (fun _ => Msg.not_reply) rfl⟩
    · exact absurd ho hclosed

/-- What a login comes to on its own connection, when that stays open: the session that was
there and a refusal, or the new session and its confirmation. -/
theorem loginAction_answers {user : User} (h : Table s) (hs : s.session confd = none)
    (hpos : env.sql s.log (.selectUser user.id) = true → s.Admits user → 0 ≤ user.id) (he : confd ∈ s.epfd)
    (ho : confd ∈ (s.loginAction env confd user).opened) :
    ((s.loginAction env confd user).session confd = none ∧ ∃ flag, Refusal flag ∧
        replies (sent confd (s.news (s.loginAction env confd user))) = [.loginFeedback flag]) ∨
      ((s.loginAction env confd user).session confd = some user.id ∧
        replies (sent confd (s.news (s.loginAction env confd user))) = [.loginFeedback 0]) := by
  have hfd : ∀ n ∈ s.pOnline.nodes, n.sockfd ≠ confd := session_none.1 hs
  rcases loginAction_cases env confd user s with ⟨s₁, flag, c, hw, hflag, heq⟩ | ⟨had, hok, heq⟩
  · have hwalk : Walk env (refusedCalls confd) s (s.loginAction env confd user) := by
      rw [heq]
      exact (hw.of_silent.write ⟨rfl, flag, rfl, hflag.ne_zero⟩).mysqlEnd c
    have hkeep := session_keep h.sessions (hwalk.shrink h fun _ _ ho => ho.elim)
      (hwalk.closes h fun _ _ ho => ho.elim) ho
    refine Or.inl ⟨hkeep.trans hs, flag, hflag, ?_⟩
    rw [heq] at ho ⊢
    unfold loginReply at ho ⊢
    rcases writeServer_sends env confd (.loginFeedback flag) s₁ with hsend | hclosed
    · have hend : Writes (fun _ m => m.teardown = true) (s₁.emit (.write confd (.loginFeedback flag) true))
          ((s₁.emit (.write confd (.loginFeedback flag) true)).mysqlEnd c) := Writes.refl.mysqlEnd c
      rw [hsend]
      exact replies_one hw.silent_writes (fun _ => Msg.not_reply) hend (fun _ => Msg.not_reply) rfl
    · exact absurd ho hclosed
  · rw [heq] at ho ⊢
    rcases openSession_cases env confd user (some s.log.length) (lookedUp env user s.log.length s) with
      ⟨-, hclose⟩ | ⟨addr, -, hread⟩
    · rw [hclose, mysqlEnd_opened] at ho
      exact absurd ho offlineAction_closed
    have hw : Walk env (exchangeCalls confd user.id)
        (greeted env confd user addr (lookedUp env user s.log.length s)) _ := (Walk.query .refl rfl).trans hread
    clear hread
    generalize (lookedUp env user s.log.length s).openSession env confd user (some s.log.length) = s' at ho hw ⊢
    have ht := h.withSession env had (hpos (answer_ok hok) had) hfd (h.registered confd he) he s.log.length addr
    have hgreet : Walk env (sessionCalls confd user.id) (withSession confd user addr (lookedUp env user s.log.length s))
        (greeted env confd user addr (lookedUp env user s.log.length s)) := Walk.write .refl (Or.inl ⟨rfl, rfl⟩)
    obtain ⟨hshrink, hcloses⟩ := session_walk ht
      (hgreet.trans (hw.mono (fun _ _ hw => Or.inr hw) (fun _ hq => hq) fun _ _ ho => ho))
    have hsession : (withSession confd user addr (lookedUp env user s.log.length s)).session confd = some user.id :=
      (session_some ht.sessions).2 ⟨_, List.mem_cons_self, rfl, rfl⟩
    refine Or.inr ⟨(session_keep ht.sessions hshrink hcloses ho).trans hsession, ?_⟩
    -- the node is added without a write, then comes the flag, then only nodes and teardowns
    have hnode : Writes (fun _ m => m.teardown = true) s
        (withSession confd user addr (lookedUp env user s.log.length s)) :=
      Writes.quiet [.query (.selectUser user.id) (s.answer env (.selectUser user.id)).1,
        .fetchRow (some s.log.length), .getpeername confd true] (by simp [withSession, lookedUp]) rfl
    rcases writeServer_sends env confd (.loginFeedback 0)
      (withSession confd user addr (lookedUp env user s.log.length s)) with hsend | hclosed
    · have hrest := hw.writes
      unfold greeted at hrest
      rw [hsend] at hrest
      refine replies_one hnode (fun _ => Msg.not_reply) hrest (fun m hm => ?_) rfl
      rcases hm with ⟨n, rfl⟩ | hm
      · rfl
      · exact Msg.not_reply hm
    · have hshrink' := hw.shrink (writeServer_shrink ht).table ?_
      · exact absurd (hshrink'.opened confd ho) hclosed
      · rintro fd id ⟨rfl, rfl⟩
        exact ht.withSession_linked.covers.sublist (writeServer_shrink ht).sublist

/-- A login leaves the sessions on other connections. -/
theorem loginAction_keeps {user : User} (h : Table s) (hs : s.session confd = none)
    (hpos : env.sql s.log (.selectUser user.id) = true → s.Admits user → 0 ≤ user.id) (he : confd ∈ s.epfd)
    (hne : fd ≠ confd) (ho : fd ∈ (s.loginAction env confd user).opened) :
    (s.loginAction env confd user).session fd = s.session fd := by
  have hfd : ∀ n ∈ s.pOnline.nodes, n.sockfd ≠ confd := session_none.1 hs
  rcases loginAction_walk env confd user s with hw | ⟨had, hok, heq⟩
  · exact session_keep h.sessions (hw.shrink h fun _ _ ho => ho.elim) (hw.closes h fun _ _ ho => ho.elim) ho
  rw [heq] at ho ⊢
  rcases openSession_walk env confd user (some s.log.length) (lookedUp env user s.log.length s) with
    hclose | ⟨addr, -, hw⟩
  · rw [hclose] at ho ⊢
    obtain ⟨hshrink, hcloses⟩ := dropped_shrink env h hfd user s.log.length
    exact session_keep h.sessions hshrink hcloses ho
  · have ht := h.withSession env had (hpos (answer_ok hok) had) hfd (h.registered confd he) he s.log.length addr
    obtain ⟨hshrink, hcloses⟩ := session_walk ht hw
    rw [session_keep ht.sessions hshrink hcloses ho]
    refine Option.ext fun x => ?_
    rw [session_some ht.sessions, session_some h.sessions]
    constructor
    · rintro ⟨n, hn, hnfd, hx⟩
      rcases List.mem_cons.1 hn with rfl | hn
      · exact absurd hnfd.symm hne
      · exact ⟨n, hn, hnfd, hx⟩
    · rintro ⟨n, hn, hnfd, hx⟩
      exact ⟨n, List.mem_cons_of_mem _ hn, hnfd, hx⟩

theorem loginAction_writes {user : User} :
    Writes (fun fd m => (fd = confd ∧ ∃ flag, m = .loginFeedback flag) ∨ (∃ n, m = .online n) ∨ m.teardown = true)
      s (s.loginAction env confd user) := by
  rcases loginAction_walk env confd user s with hw | ⟨-, -, heq⟩
  · refine hw.writes.mono fun fd m h => ?_
    rcases h with ⟨rfl, flag, rfl, -⟩ | h
    · exact Or.inl ⟨rfl, flag, rfl⟩
    · exact Or.inr (Or.inr h)
  rw [heq]
  have hlook : Writes (fun fd m => (fd = confd ∧ ∃ flag, m = .loginFeedback flag) ∨ (∃ n, m = .online n) ∨
      m.teardown = true) s (lookedUp env user s.log.length s) :=
    Writes.quiet [.query (.selectUser user.id) (s.answer env (.selectUser user.id)).1, .fetchRow (some s.log.length)]
      (by simp [lookedUp]) rfl
  refine hlook.trans ?_
  rcases openSession_walk env confd user (some s.log.length) (lookedUp env user s.log.length s) with
    hclose | ⟨addr, -, hw⟩
  · rw [hclose]
    have hpeer : Writes (fun _ m => m.teardown = true) (lookedUp env user s.log.length s)
        ((lookedUp env user s.log.length s).emit (.getpeername confd false)) := Writes.quiet [_] rfl rfl
    exact ((hpeer.trans offlineAction_writes).mysqlEnd _).mono fun _ _ h => Or.inr (Or.inr h)
  · have hpeer : Writes (fun _ m => m.teardown = true) (lookedUp env user s.log.length s)
        (withSession confd user addr (lookedUp env user s.log.length s)) :=
      Writes.quiet [.getpeername confd true] rfl rfl
    refine (hpeer.mono fun _ _ h => Or.inr (Or.inr h)).trans (hw.writes.mono fun fd m h => ?_)
    rcases h with (⟨rfl, rfl⟩ | h) | h
    · exact Or.inl ⟨rfl, 0, rfl⟩
    · exact Or.inr (Or.inl h)
    · exact Or.inr (Or.inr h)

/-! ## Who is written to -/

/-- A registration or a login. -/
def Frame.opening : Frame → Bool
  | .register _ => true
  | .login _ => true
  | _ => false

/-- Where an answer and a friend request may go: to the connection whose registration or login
is handled, and to the session of the user the request names. -/
def Server.Addressed (s : Server) (a : Server.Act) (fd : Int) (m : Msg) : Prop :=
  (m.isReply = true → ∃ f, a = .frame fd f ∧ f.opening = true) ∧
    ∀ src dst, m = .addFriend src dst → s.session fd = some dst ∧ ∃ fd', a = .frame fd' (.addFriend src dst)

theorem addressed_other {a : Server.Act} (hr : m.isReply = false) (hm : ∀ src dst, m ≠ .addFriend src dst) :
    s.Addressed a fd m := by
  refine ⟨fun h => ?_, fun src dst h => absurd h (hm src dst)⟩
  rw [hr] at h
  exact absurd h Bool.false_ne_true

theorem addressed_teardown {a : Server.Act} (h : m.teardown = true) : s.Addressed a fd m :=
  addressed_other (Msg.not_reply h) fun src dst hm => by simp [hm, Msg.teardown] at h

/-- **Every message of an action is addressed.** -/
theorem act_addressed (h : Table s) (a : Server.Act) : Writes (s.Addressed a) s (s.act env a) := by
  have hoff : ∀ {a : Server.Act} {confd id : Int}, Writes (s.Addressed a) s (s.offlineAction env confd id) :=
    offlineAction_writes.mono fun _ _ h => addressed_teardown h
  cases a with
  | accept fd => exact Writes.quiet [.accept fd] rfl rfl
  | hangup fd => exact hoff
  | frame confd f =>
    cases f with
    | register user =>
      refine registerAction_walk.writes.mono fun fd m h => ?_
      rcases h with ⟨rfl, id, rfl⟩ | h
      · exact ⟨fun _ => ⟨_, rfl, rfl⟩, fun _ _ h => Msg.noConfusion h⟩
      · exact addressed_teardown h
    | login user =>
      refine loginAction_writes.mono fun fd m h => ?_
      rcases h with ⟨rfl, flag, rfl⟩ | ⟨n, rfl⟩ | h
      · exact ⟨fun _ => ⟨_, rfl, rfl⟩, fun _ _ h => Msg.noConfusion h⟩
      · exact addressed_other rfl fun _ _ h => Msg.noConfusion h
      · exact addressed_teardown h
    | heartbeat id => exact Writes.refl
    | offline id => exact hoff
    | addFriend src dst =>
      refine addFriendAction_walk.writes.mono fun fd m hm => ?_
      rcases hm with (⟨-, v, rfl⟩ | ⟨rfl, p, hp, hid, rfl⟩) | hm
      · exact addressed_other rfl fun _ _ h => Msg.noConfusion h
      · refine ⟨fun h => absurd h Bool.false_ne_true, fun src' dst' heq => ?_⟩
        cases heq
        exact ⟨(session_some h.sessions).2 ⟨p, hp, rfl, hid⟩, confd, rfl⟩
      · exact addressed_teardown hm
    | allowAddf src dst v =>
      refine allowAddfAction_walk.writes.mono fun fd m h => ?_
      rcases h with (⟨v, rfl⟩ | ⟨n, rfl⟩) | h
      · exact addressed_other rfl fun _ _ h => Msg.noConfusion h
      · exact addressed_other rfl fun _ _ h => Msg.noConfusion h
      · exact addressed_teardown h
    | other op => exact Writes.refl

end UnixNote
