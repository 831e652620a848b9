import UnixNote.Proof.Agreement
import UnixNote.Proof.Streams

/-!
# What users see

`presence_seen`: when no call fails, a process that stands in the main loop and has read all its bytes is online, and
has the list of its user's friends online. The server closes the connection of a user behind an `OP_ALLOW_DISCONNECT`
only (`act_closes`), and a client that is told so, or that never got the answer 0 to a login, does not come to the
main loop (`System.Told`).
-/

namespace UnixNote

open Server Views

variable {env : Env} {s : Server} {fd confd id : Int} {c : Client} {m : Msg} {ms inn : List Msg}

/-! ## What closes a connection -/

/-- **A teardown closes one connection**, behind a farewell when it is that of a user. -/
theorem offline_bye (henv : env.Flawless) : (s.offlineAction env confd id).opened = s.opened.filter (· ≠ confd) ∧
    (0 ≤ id → .allowDisconnect ∈ sent confd (s.news (s.offlineAction env confd id))) := by
  have h : Cascade env (.offline confd id) s (s.offlineAction env confd id) := cascade_offlineAction
  generalize s.offlineAction env confd id = s' at h ⊢
  have hcut : s.log <+: (cut env confd id s).log := by
    simp only [cut, query_log, delList_log, epollDel_log, List.append_assoc, List.prefix_append]
  -- behind the farewell the query is ended and the descriptor closed
  have hbye : ∀ (s₁ : Server) (conn : Option Nat), s.log <+: s₁.log → .allowDisconnect ∈
      sent confd (s.news (((s₁.emit (.write confd .allowDisconnect true)).mysqlEnd conn).close confd)) := by
    rintro s₁ conn ⟨evs, hevs⟩
    have hlog : (((s₁.emit (.write confd .allowDisconnect true)).mysqlEnd conn).close confd).log =
        s.log ++ (evs ++ [.write confd .allowDisconnect true, .freeResult conn, .mysqlClose conn, .close confd]) := by
      simp [← hevs]
    rw [news_of_log hlog, mem_sent]
    exact List.mem_append_right _ List.mem_cons_self
  cases h with
  | offlineNeg hneg => exact ⟨rfl, fun hid => absurd hneg (by omega)⟩
  | offlineRows _ _ hn hw =>
    obtain ⟨-, ho, -⟩ := notify_tells henv hn
    cases hw with
    | writeFail hfail =>
      rw [henv.write] at hfail
      cases hfail
    | writeOk _ => exact ⟨congrArg (List.filter _) ho, fun _ => hbye _ _ (hcut.trans hn.log_extends)⟩
  | offlineNoDb _ _ hw =>
    cases hw with
    | writeFail hfail =>
      rw [henv.write] at hfail
      cases hfail
    | writeOk _ => exact ⟨rfl, fun _ => hbye _ _ hcut⟩

/-- A login closes nothing. -/
theorem login_opened (henv : env.Flawless) {user : User} (hans : (s.loginAction env confd user).Answered) :
    (s.loginAction env confd user).opened = s.opened := by
  rcases loginAction_walk env confd user s with hw | ⟨-, -, heq⟩
  · exact (hw.flawless henv fun _ _ ho => ho.elim).2.1
  · rw [heq] at hans ⊢
    obtain ⟨addr, haddr, hok, -⟩ := openSession_answered henv hans
    exact (open_tells henv haddr hok).2.1

/-- **What closes a connection** says farewell to its user, or there is no user and no frame of the connection. -/
theorem act_closes {a : Server.Act} (henv : env.Flawless) (h : Table s) (hans : (s.act env a).Answered)
    (hoff : ∀ confd id, a = .frame confd (.offline id) → s.session confd = some id) (ho : fd ∈ s.opened)
    (hc : fd ∉ (s.act env a).opened) :
    (s.session fd = none ∧ ∀ f, a ≠ .frame fd f) ∨ .allowDisconnect ∈ sent fd (s.news (s.act env a)) := by
  -- a teardown closes the connection that it names
  have hclosed : ∀ confd id, fd ∉ (s.offlineAction env confd id).opened → fd = confd := by
    intro confd id hno
    by_contra hne
    refine hno ?_
    rw [(offline_bye henv).1, List.mem_filter]
    exact ⟨ho, by simpa using hne⟩
  cases a with
  | accept fd' => exact absurd (List.mem_cons_of_mem fd' ho) hc
  | hangup fd' =>
    obtain rfl := hclosed fd' _ hc
    by_cases hpos : 0 ≤ s.sessionId fd
    · exact Or.inr ((offline_bye henv).2 hpos)
    · refine Or.inl ⟨session_none.2 fun n hn hfd => ?_, fun f => Server.Act.noConfusion⟩
      have hid := (h.sessions.linked_sessionId n hn).1 hfd
      have := h.sessions.nonneg n hn
      omega
  | frame fd' f =>
    have hsame : (s.act env (.frame fd' f)).opened = s.opened → False := fun heq => hc (heq ▸ ho)
    cases f with
    | register user => exact (hsame (registerAction_walk.flawless henv fun _ _ ho => ho.elim).2.1).elim
    | login user => exact (hsame (login_opened henv hans)).elim
    | heartbeat id => exact absurd ho hc
    | addFriend src dst => exact (hsame (addFriendAction_walk.flawless henv fun _ _ ho => ho.elim).2.1).elim
    | allowAddf src dst v => exact (hsame (allowAddfAction_walk.flawless henv fun _ _ ho => ho.elim).2.1).elim
    | other op => exact absurd ho hc
    | offline id =>
      obtain rfl := hclosed fd' _ hc
      obtain ⟨n, hn, -, rfl⟩ := (session_some h.sessions).1 (hoff fd id rfl)
      exact Or.inr ((offline_bye henv).2 (h.sessions.nonneg n hn))

/-! ## What a client makes of the messages on their way -/

namespace Client

/-- A client that does not read does not change. -/
theorem foldl_idle (h : c.reads = false) (ms : List Msg) : ms.foldl Client.recv c = c := by
  induction ms with
  | nil => rfl
  | cons m ms ih =>
    have hrecv : c.recv m = c := by
      obtain ⟨p, l, asked⟩ := c
      cases p <;> first | rfl | cases h
    rw [List.foldl_cons, hrecv, ih]

/-- **After the farewell a client reads nothing.** -/
theorem foldl_bye (h : .allowDisconnect ∈ ms) : (ms.foldl Client.recv c).reads = false := by
  obtain ⟨before, after, rfl⟩ := List.append_of_mem h
  rw [List.foldl_append, List.foldl_cons]
  generalize before.foldl Client.recv c = c'
  have hstop : (c'.recv .allowDisconnect).reads = false := by
    obtain ⟨p, l, asked⟩ := c'
    cases p <;> rfl
  rw [foldl_idle hstop]
  exact hstop

/-- Without an answer a client does not come to the main loop. -/
theorem foldl_outside (h : ∀ id, c.phase ≠ .operaIface id) (hms : replies ms = []) (id : Int) :
    (ms.foldl Client.recv c).phase ≠ .operaIface id := by
  induction ms generalizing c with
  | nil => exact h id
  | cons m ms ih =>
    have hm : m.isReply = false := by
      by_contra hm
      unfold replies at hms
      rw [List.filter_cons_of_pos (by simpa using hm)] at hms
      cases hms
    have hrest : replies ms = [] := by
      unfold replies at hms ⊢
      rwa [List.filter_cons_of_neg (by simp [hm])] at hms
    refine ih (fun id => ?_) hrest
    obtain ⟨p, l, asked⟩ := c
    cases p with
    | operaIface id => exact absurd rfl (h id)
    | registerSent => cases m <;> first | exact Phase.noConfusion | cases hm
    | loginSent x => cases m <;> first | exact Phase.noConfusion | cases hm
    | _ => exact Phase.noConfusion

end Client

/-- Where a client stands when it has read the messages on their way. -/
theorem Stage.read_all {inn : List Frame} {o : Option Int} (h : Stage c.phase inn (replies ms) o) :
    Stage (ms.foldl Client.recv c).phase inn [] o := by
  induction ms generalizing c with
  | nil => exact h
  | cons m ms ih => exact ih h.recv

/-! ## Closed connections -/

namespace System

variable {σ : System} {a : Act} {tr : List (System × Act)}

/-- On a closed connection no client will stand in the main loop. -/
def Told (σ : System) : Prop :=
  ∀ fd ∉ σ.server.opened, ∀ id, ((σ.toClient fd).foldl Client.recv (σ.client fd)).phase ≠ .operaIface id

namespace Told

theorem boot (db : Database) : Told (.boot db) := fun _ _ _ => Phase.noConfusion

theorem connect (h : σ.Told) : (σ.act env (.connect fd)).Told := by
  intro fd' hfd' id
  obtain ⟨hne, hclosed⟩ : fd' ≠ fd ∧ fd' ∉ σ.server.opened := by
    rw [← not_or, ← List.mem_cons]
    exact hfd'
  show ((Function.update σ.toClient fd [] fd').foldl Client.recv (Function.update σ.client fd .fresh fd')).phase ≠ _
  rw [Function.update_of_ne hne, Function.update_of_ne hne]
  exact h fd' hclosed id

theorem send {f : Frame} (h : σ.Told) (hen : σ.Enabled (.send fd f)) : (σ.act env (.send fd f)).Told := by
  intro fd' hfd' id
  have hne : fd' ≠ fd := by
    rintro rfl
    exact hfd' hen.1
  show ((σ.toClient fd').foldl Client.recv (Function.update σ.client fd _ fd')).phase ≠ _
  rw [Function.update_of_ne hne]
  exact h fd' hfd' id

theorem recv (h : σ.Told) (hen : σ.Enabled (.recv fd)) : (σ.act env (.recv fd)).Told := by
  obtain ⟨m, ms, hms⟩ := enabled_recv hen
  rw [act_recv env hms]
  intro fd' hfd' id
  show ((Function.update σ.toClient fd ms fd').foldl Client.recv (Function.update σ.client fd _ fd')).phase ≠ _
  by_cases hne : fd' = fd
  · subst hne
    have hread := h fd' hfd' id
    rw [hms, List.foldl_cons] at hread
    rwa [Function.update_self, Function.update_self]
  · rw [Function.update_of_ne hne, Function.update_of_ne hne]
    exact h fd' hfd' id

/-- **The server goes on**: a connection that it closes is told, and a closed one gets no answer. -/
theorem deliver {a : Server.Act} {A : Int → Int → Prop} (h : σ.Told) (hcoh : Coherent A σ) (henv : env.Flawless)
    (hen : σ.server.Enabled a) (hans : (σ.server.act env a).Answered)
    (hoff : ∀ confd id, a = .frame confd (.offline id) → σ.server.session confd = some id) :
    (σ.deliver (σ.server.act env a)).Told := by
  intro fd hfd id
  have hquiet : (∀ f, a ≠ .frame fd f) → replies (sent fd (σ.server.news (σ.server.act env a))) = [] := by
    intro hno
    refine (act_addressed hcoh.table a).replies_nil fun m hm => ?_
    by_contra hreply
    obtain ⟨f, hact, -⟩ := hm.1 (by simpa using hreply)
    exact hno f hact
  show ((σ.toClient fd ++ sent fd (σ.server.news (σ.server.act env a))).foldl Client.recv (σ.client fd)).phase ≠ _
  rw [List.foldl_append]
  by_cases hopen : fd ∈ σ.server.opened
  · rcases act_closes henv hcoh.table hans hoff hopen hfd with ⟨hnone, hno⟩ | hbye
    · refine Client.foldl_outside (fun id heq => ?_) (hquiet hno) id
      have hstage := (hcoh.links fd hopen).stage.read_all
      rw [heq, hnone] at hstage
      cases hstage
    · intro heq
      have hstop := Client.foldl_bye (c := (σ.toClient fd).foldl Client.recv (σ.client fd)) hbye
      unfold Client.reads at hstop
      rw [heq] at hstop
      cases hstop
  · refine Client.foldl_outside (h fd hopen) (hquiet ?_) id
    rintro f rfl
    exact hopen (hcoh.table.registered fd hen.2)

end Told

/-- **Every action keeps it.** -/
theorem Told.act (h : σ.Told) (hcoh : Coherent (fun _ _ => True) σ) (henv : env.Flawless) (hen : σ.Enabled a)
    (hans : σ.Answered env a) : (σ.act env a).Told := by
  cases a with
  | connect fd => exact h.connect
  | send fd f => exact h.send hen
  | recv fd => exact h.recv hen
  | hangup fd => exact h.deliver hcoh henv hen hans fun _ _ heq => Server.Act.noConfusion heq
  | serve fd =>
    obtain ⟨f, fs, hto, hen⟩ := enabled_serve hen
    unfold Answered at hans
    rw [act_serve env hto] at hans ⊢
    refine h.deliver (a := .frame fd f) hcoh henv hen hans ?_
    intro confd id heq
    cases heq
    have hlink := hcoh.links fd (hcoh.table.registered fd hen.2)
    exact hlink.frames (.offline id) (hto ▸ List.mem_cons_self)

/-- It holds along every run without failures. -/
theorem run_told (henv : env.Flawless)
    (hr : ((lts env).startingIn fun σ => σ.server.db.Friendly).Run (Answered env) tr σ) : Agreed σ ∧ σ.Told := by
  refine hr.invariant (I := fun σ => Agreed σ ∧ σ.Told) ?_ ?_
  · rintro σ ⟨⟨db, rfl⟩, hdb⟩
    exact ⟨⟨Coherent.boot db, hdb, Shown.boot db⟩, .boot db⟩
  · rintro σ a σ' ⟨hagreed, htold⟩ hans ⟨hen, rfl⟩
    exact ⟨hagreed.act henv hen hans, htold.act hagreed.coherent henv hen hans⟩

/-- The client of an open connection is logged in where it stands in the main loop. -/
theorem Agreed.online (h : Agreed σ) (htold : σ.Told) (hphase : (σ.client fd).phase = .operaIface id)
    (hread : σ.toClient fd = []) : ∃ n ∈ σ.server.pOnline.nodes, n.sockfd = fd ∧ n.id = id := by
  by_cases hopen : fd ∈ σ.server.opened
  · have hstage := (h.coherent.links fd hopen).stage
    rw [hphase] at hstage
    refine (session_some h.coherent.table.sessions).1 ?_
    generalize σ.server.session fd = o at hstage ⊢
    generalize replies (σ.toClient fd) = rs at hstage
    cases hstage with
    | online _ => rfl
  · have hleft := htold fd hopen id
    rw [hread, List.foldl_nil, hphase] at hleft
    exact absurd rfl hleft

end System

/-! ## What a process sees -/

namespace Wire

variable {rest : List Event → Rest} {w : Wire} {tr : List (Wire × Act)}

/-- The process on `fd` is the one of the node `n`: it has the id of the user, each id once in its list, and there
exactly the nodes of the user's friends that are online. -/
structure Sees (w : Wire) (fd : Int) (n : Node) : Prop where
  node : n ∈ w.server.pOnline.nodes
  sockfd : n.sockfd = fd
  mineId : n.id = (w.process fd).mineId
  distinct : ((w.process fd).pOnline.contents.map OnlineNode.id).Nodup
  friends : ∀ x, x ∈ (w.process fd).pOnline.contents ↔ x.id ∈ w.server.db.friends n.id ∧ x ∈ w.server.pOnline.contents

/-- A process in the main loop, behind the last byte, in a state of which the system knows. -/
theorem Abstracts.sees {σ : System} (habs : Abstracts w σ) (hagreed : System.Agreed σ) (htold : σ.Told)
    (hmain : Process.inMain (w.process fd).place = true) (hread : w.down fd = []) : ∃ n, w.Sees fd n := by
  obtain ⟨hserver, -, hruns, -, hdown⟩ := habs
  have hphase := (hruns fd).stands.main hmain
  -- the stream is empty, so its channel is, and the view is the list of the process
  have hempty : σ.toClient fd = [] := by
    have hnil := hdown fd
    rw [hread] at hnil
    exact hnil.eq_nil
  have hview : σ.view fd = (w.process fd).pOnline := by
    rw [System.view, hempty, List.foldl_nil, (hruns fd).pOnline]
  obtain ⟨n, hn, rfl, hid⟩ := hagreed.online htold hphase hempty
  have hshown := hagreed.shown n.sockfd (hagreed.coherent.table.opened n hn) (by rw [hphase]; exact Phase.noConfusion)
  rw [hview] at hshown
  refine ⟨n, hserver ▸ hn, rfl, hid, hshown.distinct, fun x => ?_⟩
  rw [hshown.mem, visible_session hagreed.coherent.table.sessions hn, hserver]

/-- **What a user sees.** When no call fails and every statement is answered, from tables in which friendship is
mutual and irreflexive: a process that stands in the main loop and has read all the bytes of its connection belongs
to a user that is online on this connection, and its list is that of the user's friends online. -/
theorem presence_seen (hcalls : env.Flawless) (henv : env.Fits)
    (hr : ((lts env rest).startingIn fun w => w.server.db.Fits ∧ w.server.db.Friendly).Run
      (fun w a => Regular w a ∧ Answered env rest w a) tr w)
    (hmain : Process.inMain (w.process fd).place = true) (hread : w.down fd = []) : ∃ n, w.Sees fd n := by
  obtain ⟨tr', σ, hrun, habs, -⟩ := simulated (K := Server.Answered) henv hr
  obtain ⟨hagreed, htold⟩ := System.run_told hcalls hrun
  exact habs.sees hagreed htold hmain hread

/-- A run of typed keys without failures. -/
theorem typedFriends_run : ((lts calm cleared).startingIn fun w => w.server.db.Fits ∧ w.server.db.Friendly).Run
    (fun w a => Regular w a ∧ Answered calm cleared w a) (Lts.steps (next calm cleared) (boot pairDb) typedFriends)
    (typedFriends.foldl (next calm cleared) (boot pairDb)) := by
  have hdb : pairDb.Friendly := ⟨pairDb_symmetric, fun x => by rw [pairDb_friends]; exact List.not_mem_nil⟩
  exact script_run calm cleared ⟨pairDb_fits, hdb⟩ typedFriends (by decide +kernel)

/-- User 1 sees user 2. -/
theorem presence_seen_friends : ∃ n, (typedFriends.foldl (next calm cleared) (boot pairDb)).Sees 5 n := by
  have hr := typedFriends_run
  have hmain : Process.inMain ((typedFriends.foldl (next calm cleared) (boot pairDb)).process 5).place = true := by
    decide +kernel
  have hread : (typedFriends.foldl (next calm cleared) (boot pairDb)).down 5 = [] := by decide +kernel
  generalize typedFriends.foldl (next calm cleared) (boot pairDb) = w at hr hmain hread ⊢
  exact presence_seen calm_flawless calm_fits hr hmain hread

end Wire

end UnixNote
