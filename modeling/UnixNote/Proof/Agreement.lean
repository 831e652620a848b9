import UnixNote.Proof.Links
import UnixNote.Proof.Visible

/-!
# Every client knows which of its friends are online

`presence_agreement`: in every run of the server and its clients in which no call fails, the
list of a client that is logged in, once it has read the messages on their way to it,
holds exactly the friends of its user that are online, each once. The invariant is
`Shown`, the same for every client that has not left, with what it ought to see
(`Server.Visible`) in place of the friends.
-/

namespace UnixNote

open Server Views

variable {env : Env} {s s' : Server} {fd confd id : Int} {f : Frame} {user : User}

/-! ## One action of the server -/

/-- A failed read takes the user of the connection out of the lists of its friends. -/
theorem hangup_tracks (henv : env.Flawless) (h : Table s) (hdb : s.db.Friendly)
    (hans : (s.readServerFail env confd).Answered) (hfd : fd ∈ (s.readServerFail env confd).opened) :
    s.TracksTo (s.readServerFail env confd) fd := by
  unfold readServerFail at hans hfd ⊢
  have hl : Linked s.pOnline confd (s.sessionId confd) := h.sessions.linked_sessionId
  by_cases hid : 0 ≤ s.sessionId confd
  · exact offline_tracks henv h hdb hid hl hans hfd
  · rw [offlineAction_neg (by omega)]
    exact tracks_idle rfl rfl (Tells.quiet [.epollDel confd, .close confd] (by simp) rfl)

/-- Calls that send no `OP_ONLINE` and no `OP_OFFLINE` and touch no friend table. -/
theorem walk_tracks {A : Allowed} (henv : env.Flawless) (hw : Walk env A s s') (hoff : ∀ fd id, ¬ A.offline fd id)
    (hwrite : ∀ fd m, A.write fd m → m.change = none) (hquery : ∀ q, A.query q → q.inserts = false) (fd : Int) :
    s.TracksTo s' fd := by
  obtain ⟨hp, -, -⟩ := hw.flawless henv hoff
  exact tracks_idle hp (hw.friends hquery) (hw.tells_nothing henv hoff hwrite)

/-- A refusal tells nobody about anybody. -/
theorem refuse_tracks {src dst v : Int} (henv : env.Flawless) (hv : v ≠ 1) (fd : Int) :
    s.TracksTo (s.allowAddfAction env src dst v) fd := by
  have hdb : (s.allowAddfAction env src dst v).db.friends = s.db.friends := congrArg Database.friends (refuse_db hv)
  obtain ⟨hp, ht⟩ : (s.allowAddfAction env src dst v).pOnline = s.pOnline ∧
      Tells (fun _ => []) s (s.allowAddfAction env src dst v) := by
    unfold allowAddfAction
    dsimp only
    rw [if_neg hv]
    split
    · exact answerRequest_tells henv _ src dst v s
    · exact ⟨rfl, Tells.refl⟩
  exact tracks_idle hp hdb ht

/-- **Handling a frame tells every connection what it has to know**, when the frame is one that a
client may send. -/
theorem frame_tracks {A : Int → Int → Prop} (henv : env.Flawless) (h : Table s) (hdb : s.db.Friendly)
    (he : confd ∈ s.epfd) (hback : Backed A (s.session confd) f)
    (hlogin : ∀ user, f = .login user → s.session confd = none)
    (hans : (s.analysisReceive env confd f).Answered) (hfd : fd ∈ (s.analysisReceive env confd f).opened) :
    s.TracksTo (s.analysisReceive env confd f) fd := by
  cases f with
  | register user =>
    refine walk_tracks (A := registerCalls confd) henv registerAction_walk (fun _ _ ho => ho) ?_ ?_ fd
    · rintro fd m ⟨-, id, rfl⟩
      rfl
    · rintro q (⟨u, p, rfl⟩ | rfl | ⟨id, rfl⟩) <;> rfl
  | login user => exact login_tracks henv h hdb (hlogin user rfl) he hans fd
  | heartbeat id => exact tracks_idle rfl rfl Tells.refl
  | offline id =>
    have hl : Linked s.pOnline confd id := session_linked h.sessions hback
    obtain ⟨n, hn, -, rfl⟩ := (session_some h.sessions).1 hback
    exact offline_tracks henv h hdb (h.sessions.nonneg n hn) hl hans hfd
  | addFriend src dst =>
    refine walk_tracks (A := addFriendCalls s confd src dst) henv addFriendAction_walk (fun _ _ ho => ho) ?_ ?_ fd
    · rintro fd m (⟨-, v, rfl⟩ | ⟨rfl, -⟩) <;> rfl
    · rintro q rfl
      rfl
  | allowAddf src dst v =>
    by_cases hv : v = 1
    · subst hv
      exact approve_tracks henv h hdb hback.2.2 hans fd
    · exact refuse_tracks henv hv fd
  | other op => exact tracks_idle rfl rfl Tells.refl

/-- Handling a frame keeps friendship mutual and irreflexive. -/
theorem frame_friendly {A : Int → Int → Prop} (hdb : s.db.Friendly) (hback : Backed A (s.session confd) f)
    (hans : (s.analysisReceive env confd f).Answered) : (s.analysisReceive env confd f).db.Friendly := by
  cases f with
  | register user =>
    refine hdb.congr (Walk.friends registerAction_walk ?_)
    rintro q (⟨u, p, rfl⟩ | rfl | ⟨id, rfl⟩) <;> rfl
  | login user => exact hdb.congr loginAction_friends
  | heartbeat id => exact hdb
  | offline id => exact hdb.congr (congrArg Database.friends cascade_offlineAction.db_eq)
  | addFriend src dst =>
    refine hdb.congr (Walk.friends addFriendAction_walk ?_)
    rintro q rfl
    rfl
  | allowAddf src dst v =>
    by_cases hv : v = 1
    · subst hv
      exact approve_friendly hback.2.2 hdb hans
    · exact hdb.congr (congrArg Database.friends (refuse_db hv))
  | other op => exact hdb

/-! ## The client -/

namespace Client

variable {c : Client} {m : Msg}

/-- A client that goes on reading has made the change of the message. -/
theorem recv_pOnline (hr : c.reads = true) (hp : (c.recv m).phase ≠ .exited) :
    (c.recv m).pOnline = c.pOnline.apply m := by
  obtain ⟨p, l, asked⟩ := c
  cases p with
  | registerSent =>
    cases m with
    | registerSuccess id => rfl
    | _ => exact absurd rfl hp
  | loginSent id =>
    cases m with
    | loginFeedback flag => rfl
    | _ => exact absurd rfl hp
  | operaIface id => cases m <;> rfl
  | _ => cases hr

/-- Who reads or writes has not left. -/
theorem reads_phase (hr : c.reads = true) : c.phase ≠ .exited := by
  intro hp
  unfold reads at hr
  rw [hp] at hr
  cases hr

theorem sends_phase (hs : c.Sends f) : c.phase ≠ .exited := by
  intro hp
  unfold Sends at hs
  rw [hp] at hs
  exact hs

theorem send_pOnline : (c.send f).pOnline = c.pOnline := by
  cases f <;> rfl

end Client

/-! ## The system -/

namespace System

variable {σ : System} {a : Act} {tr : List (System × Act)} {A : Int → Int → Prop}

/-- Every statement so far is answered, those of the action included. -/
def Answered (env : Env) (σ : System) (a : Act) : Prop := (σ.act env a).server.Answered

instance (σ : System) (a : Act) : Decidable (Answered env σ a) := by unfold Answered; infer_instance

/-- Once the messages on their way are read, every client that has not left sees what it ought
to see. -/
def Shown (σ : System) : Prop :=
  ∀ fd ∈ σ.server.opened, (σ.client fd).phase ≠ .exited →
    Mirrors OnlineNode.id (σ.view fd).contents (σ.server.Visible fd)

namespace Shown

theorem boot (db : Database) : Shown (.boot db) := fun _ hfd => absurd hfd List.not_mem_nil

theorem connect (h : σ.Shown) (ht : Table σ.server) (hen : σ.Enabled (.connect fd)) :
    (σ.act env (.connect fd)).Shown := by
  intro fd' hfd'
  have hvis : ∀ x, (σ.server.accept fd).Visible fd' x ↔ σ.server.Visible fd' x := fun _ => Iff.rfl
  show (Function.update σ.client fd .fresh fd').phase ≠ .exited →
    Mirrors OnlineNode.id ((Function.update σ.toClient fd [] fd').foldl OnlineList.apply
      (Function.update σ.client fd .fresh fd').pOnline).contents ((σ.server.accept fd).Visible fd')
  by_cases hne : fd' = fd
  · subst hne
    rw [Function.update_self, Function.update_self]
    intro _
    refine Mirrors.nil fun x => ?_
    rw [hvis]
    -- no session is on a descriptor that was not open
    exact not_visible fun n hn heq => hen.2.2 (heq ▸ ht.opened n hn)
  · rw [Function.update_of_ne hne, Function.update_of_ne hne]
    intro hp
    exact (h fd' ((List.mem_cons.1 hfd').resolve_left hne) hp).congr hvis

theorem send (h : σ.Shown) (hen : σ.Enabled (.send fd f)) : (σ.act env (.send fd f)).Shown := by
  intro fd' hfd'
  show (Function.update σ.client fd _ fd').phase ≠ .exited → Mirrors OnlineNode.id
    ((σ.toClient fd').foldl OnlineList.apply (Function.update σ.client fd _ fd').pOnline).contents _
  by_cases hne : fd' = fd
  · subst hne
    rw [Function.update_self, Client.send_pOnline]
    exact fun _ => h fd' hfd' (Client.sends_phase hen.2)
  · rw [Function.update_of_ne hne]
    exact h fd' hfd'

theorem recv (h : σ.Shown) (hen : σ.Enabled (.recv fd)) : (σ.act env (.recv fd)).Shown := by
  obtain ⟨m, ms, hms⟩ := enabled_recv hen
  rw [act_recv env hms]
  intro fd' hfd'
  show (Function.update σ.client fd _ fd').phase ≠ .exited → Mirrors OnlineNode.id
    ((Function.update σ.toClient fd _ fd').foldl OnlineList.apply
      (Function.update σ.client fd _ fd').pOnline).contents _
  by_cases hne : fd' = fd
  · subst hne
    rw [Function.update_self, Function.update_self]
    intro hp
    -- the message moves from the channel into the list, and the view stays
    have hview := h fd' hfd' (Client.reads_phase hen.1)
    unfold view at hview
    rw [hms, List.foldl_cons] at hview
    rw [Client.recv_pOnline hen.1 hp]
    exact hview
  · rw [Function.update_of_ne hne, Function.update_of_ne hne]
    exact h fd' hfd'

/-- The server goes on, and tells every connection that stays open what it has to know. -/
theorem deliver (h : σ.Shown) (ho : ∀ fd ∈ s.opened, fd ∈ σ.server.opened)
    (ht : ∀ fd ∈ s.opened, σ.server.TracksTo s fd) : (σ.deliver s).Shown := by
  intro fd hfd hp
  have hview : ((σ.deliver s).view fd).contents =
      ((sent fd (σ.server.news s)).filterMap Msg.change).foldl updateOnline (σ.view fd).contents := by
    show ((σ.toClient fd ++ sent fd (σ.server.news s)).foldl OnlineList.apply (σ.client fd).pOnline).contents = _
    rw [List.foldl_append, contents_foldl]
    rfl
  rw [hview]
  exact ht fd hfd _ (h fd (ho fd hfd) hp)

end Shown

/-- What holds along a run without failures. -/
structure Agreed (σ : System) : Prop where
  coherent : Coherent (fun _ _ => True) σ
  friendly : σ.server.db.Friendly
  shown : σ.Shown

/-- A login that is admitted reads a friend table, so its id is not negative. -/
theorem answered_validIds (henv : env.Flawless) (hans : σ.Answered env a) : σ.ValidIds env a := by
  rintro fd user fs rfl hto hsql had
  have hlogin : (σ.server.loginAction env fd user).Answered := by
    unfold Answered at hans
    rw [act_serve env hto] at hans
    exact hans
  rw [loginAction_admitted hsql had] at hlogin
  obtain ⟨-, -, -, hpos⟩ := openSession_answered henv hlogin
  exact hpos

/-- **Every action keeps the agreement.** -/
theorem Agreed.act (h : Agreed σ) (henv : env.Flawless) (hen : σ.Enabled a) (hans : σ.Answered env a) :
    Agreed (σ.act env a) := by
  have hcoh : Coherent (fun _ _ => True) (σ.act env a) :=
    (h.coherent.act hen (answered_validIds henv hans)).mono fun _ _ _ => trivial
  cases a with
  | connect fd => exact ⟨hcoh, h.friendly, h.shown.connect h.coherent.table hen⟩
  | send fd f => exact ⟨hcoh, h.friendly, h.shown.send hen⟩
  | recv fd =>
    refine ⟨hcoh, ?_, h.shown.recv hen⟩
    obtain ⟨m, ms, hms⟩ := enabled_recv hen
    rw [act_recv env hms]
    exact h.friendly
  | hangup fd =>
    refine ⟨hcoh, h.friendly.congr (congrArg Database.friends cascade_offlineAction.db_eq), ?_⟩
    have hopened := (hangup_shrink env fd h.coherent.table).1.opened
    exact h.shown.deliver hopened fun fd' hfd' => hangup_tracks henv h.coherent.table h.friendly hans hfd'
  | serve fd =>
    have hids := answered_validIds henv hans
    obtain ⟨f, fs, hto, hen⟩ := enabled_serve hen
    unfold Answered at hans
    rw [act_serve env hto] at hans hcoh ⊢
    have he : fd ∈ σ.server.epfd := hen.2
    have hlink := h.coherent.links fd (h.coherent.table.registered fd he)
    rw [hto] at hlink
    -- what the client wrote agrees with the session that the server has for it
    have hback : Backed (fun _ _ => True) (σ.server.session fd) f := hlink.frames f List.mem_cons_self
    have hlogin : ∀ user, f = .login user → σ.server.session fd = none := by
      rintro user rfl
      exact (hlink.stage.alone rfl).2
    refine ⟨hcoh, frame_friendly h.friendly hback hans, ?_⟩
    have hopened : ∀ fd' ∈ (σ.server.act env (.frame fd f)).opened, fd' ∈ σ.server.opened := by
      by_cases hl : ∀ user, f ≠ .login user
      · refine (frame_shrink env fd h.coherent.table hl ?_).1.opened
        rintro id rfl
        exact hback
      · push Not at hl
        obtain ⟨user, rfl⟩ := hl
        exact loginAction_opened h.coherent.table (hlogin user rfl) (hids fd user fs rfl hto) he
    exact h.shown.deliver hopened fun fd' hfd' =>
      frame_tracks henv h.coherent.table h.friendly he hback hlogin hans hfd'

/-- The agreement holds along every run without failures. -/
theorem run_agreed (henv : env.Flawless)
    (hr : ((lts env).startingIn fun σ => σ.server.db.Friendly).Run (Answered env) tr σ) : Agreed σ := by
  refine hr.invariant (I := Agreed) ?_ ?_
  · rintro σ ⟨⟨db, rfl⟩, hdb⟩
    exact ⟨Coherent.boot db, hdb, Shown.boot db⟩
  · rintro σ a σ' h hans ⟨hen, rfl⟩
    exact h.act henv hen hans

/-- **Presence agreement.** In every run in which every write and `getpeername` succeeds and every
statement is answered, from tables in which friendship is mutual and irreflexive: once a client that
is logged in and online has read the messages on their way to it, its list has each id once, and it
has exactly the nodes of the friends of its user that are online. -/
theorem presence_agreement (henv : env.Flawless)
    (hr : ((lts env).startingIn fun σ => σ.server.db.Friendly).Run (Answered env) tr σ) {n : Node} {id : Int}
    (hn : n ∈ σ.server.pOnline.nodes) (hphase : (σ.client n.sockfd).phase = .operaIface id) :
    id = n.id ∧ ((σ.view n.sockfd).contents.map OnlineNode.id).Nodup ∧
      ∀ x, x ∈ (σ.view n.sockfd).contents ↔ x.id ∈ σ.server.db.friends n.id ∧ x ∈ σ.server.pOnline.contents := by
  have h := run_agreed henv hr
  have hopen : n.sockfd ∈ σ.server.opened := h.coherent.table.opened n hn
  have hshown : Mirrors OnlineNode.id (σ.view n.sockfd).contents (σ.server.Visible n.sockfd) := by
    refine h.shown n.sockfd hopen ?_
    rw [hphase]
    exact Phase.noConfusion
  refine ⟨?_, hshown.distinct, fun x => ?_⟩
  · have hstage := (h.coherent.links n.sockfd hopen).stage
    have hsession : σ.server.session n.sockfd = some n.id :=
      (session_some h.coherent.table.sessions).2 ⟨n, hn, rfl, rfl⟩
    rw [hphase, hsession] at hstage
    generalize replies (σ.toClient n.sockfd) = rs at hstage
    -- a client in the main loop has the id of its session
    cases hstage with
    | online _ => rfl
  · rw [hshown.mem]
    exact visible_session h.coherent.table.sessions hn

/-- User 1 learns of user 2, with the message still on its way. -/
theorem presence_agreement_pair :
    (⟨2, 6, ⟨0, 0⟩⟩ : OnlineNode) ∈
      (((agreement ++ [Act.serve 6]).foldl (act calm) (boot pairDb)).view 5).contents := by
  have hdb : pairDb.Friendly := ⟨pairDb_symmetric, fun x => by rw [pairDb_friends]; exact List.not_mem_nil⟩
  have hr : ((lts calm).startingIn fun σ => σ.server.db.Friendly).Run (Answered calm) _ _ :=
    script_run calm hdb (agreement ++ [Act.serve 6]) (by decide +kernel)
  have hn : (⟨⟨1, 5, ⟨0, 0⟩⟩, 0⟩ : Node) ∈
      ((agreement ++ [Act.serve 6]).foldl (act calm) (boot pairDb)).server.pOnline.nodes := by
    decide +kernel
  have hphase : (((agreement ++ [Act.serve 6]).foldl (act calm) (boot pairDb)).client 5).phase = .operaIface 1 := by
    decide +kernel
  have h := presence_agreement calm_flawless hr hn hphase
  exact (h.2.2 ⟨2, 6, ⟨0, 0⟩⟩).2 ⟨by decide +kernel, by decide +kernel⟩

end System

end UnixNote
