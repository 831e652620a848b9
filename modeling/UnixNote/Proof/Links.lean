import UnixNote.Proof.Replies

/-!
# Client and server agree on each connection

`Stage` lists the ways a connection can stand: where the client is in its code, what it
has written and the server has not handled, which answers are on their way back, and
who is logged in on the connection. `Link` adds that every frame on its way names the
user of its connection, and that every friend request the client has or will receive
was asked for. `Coherent.act`: every action of the system keeps this on every open
connection.
-/

namespace UnixNote

open Server

variable {env : Env} {A B : Int → Int → Prop} {p : Phase} {c : Client} {inn fs : List Frame} {out rs ms : List Msg}
  {o : Option Int} {f : Frame} {m : Msg} {user : User} {s s' : Server} {fd confd src dst : Int}

/-! ## Stages of a connection -/

/-- The client's phase, its frames that are not handled, the answers it has not read, and the
user the server has logged in. -/
inductive Stage : Phase → List Frame → List Msg → Option Int → Prop
  | welcome : Stage .welIface [] [] none
  | again : Stage .loginIface [] [] none
  | registering (user : User) : Stage .registerSent [.register user] [] none
  | unanswered : Stage .registerSent [] [] none
  | registered (id : Int) : Stage .registerSent [] [.registerSuccess id] none
  | loggingIn (user : User) : Stage (.loginSent user.id) [.login user] [] none
  | refused {id flag : Int} : Refusal flag → Stage (.loginSent id) [] [.loginFeedback flag] none
  | admitted (id : Int) : Stage (.loginSent id) [] [.loginFeedback 0] (some id)
  | online {id : Int} {fs : List Frame} : (∀ f ∈ fs, f.opening = false) → Stage (.operaIface id) fs [] (some id)
  | exited {fs : List Frame} {rs : List Msg} {o : Option Int} :
      (∀ f ∈ fs, f.opening = true → fs = [f] ∧ o = none) → Stage .exited fs rs o

namespace Stage

/-- A registration or a login is on its way alone, and nobody is logged in yet. -/
theorem alone (h : Stage p (f :: fs) rs o) (hf : f.opening = true) : fs = [] ∧ o = none := by
  cases h with
  | registering _ => exact ⟨rfl, rfl⟩
  | loggingIn _ => exact ⟨rfl, rfl⟩
  | online hfs =>
    have := hfs f List.mem_cons_self
    rw [hf] at this
    exact absurd this.symm Bool.false_ne_true
  | exited hfs =>
    obtain ⟨heq, ho⟩ := hfs f List.mem_cons_self hf
    exact ⟨(List.cons.inj heq).2, ho⟩

/-- The client writes. -/
theorem send (h : Stage c.phase inn rs o) (hs : c.Sends f) : Stage (c.send f).phase (inn ++ [f]) rs o := by
  obtain ⟨p, l, asked⟩ := c
  cases h with
  | welcome =>
    cases f with
    | register user => exact .registering user
    | login user => exact .loggingIn user
    | _ => exact hs.elim
  | again =>
    cases f with
    | login user => exact .loggingIn user
    | _ => exact hs.elim
  | @online id _ hfs =>
    have honline : f.opening = false → Stage (.operaIface id) (inn ++ [f]) [] (some id) := by
      intro hf
      refine .online fun g hg => ?_
      rcases List.mem_append.1 hg with hg | hg
      · exact hfs g hg
      · rw [List.mem_singleton.1 hg]
        exact hf
    cases f with
    | offline x => exact honline rfl
    | addFriend a b => exact honline rfl
    | allowAddf a b v => exact honline rfl
    | _ => exact hs.elim
  | _ => exact hs.elim

/-- A client that leaves while it waits for an answer. -/
theorem exit (h : Stage p inn rs o) : Stage .exited inn ms o := by
  refine .exited fun f hf hopen => ?_
  cases h with
  | registering user =>
    rw [List.mem_singleton.1 hf]
    exact ⟨rfl, rfl⟩
  | loggingIn user =>
    rw [List.mem_singleton.1 hf]
    exact ⟨rfl, rfl⟩
  | online hfs =>
    rw [hfs f hf] at hopen
    exact absurd hopen Bool.false_ne_true
  | exited hfs => exact hfs f hf hopen
  | _ => exact absurd hf List.not_mem_nil

/-- The client reads. A message it does not wait for ends it. -/
theorem recv (h : Stage c.phase inn (replies (m :: ms)) o) : Stage (c.recv m).phase inn (replies ms) o := by
  have hexit : Stage .exited inn (replies ms) o := h.exit
  obtain ⟨p, l, asked⟩ := c
  have hcons : replies (m :: ms) = if m.isReply then m :: replies ms else replies ms := by
    unfold replies
    rw [List.filter_cons]
  rw [hcons] at h
  cases p with
  | registerSent =>
    cases m with
    | registerSuccess id =>
      show Stage (if id = -1 then .exited else .welIface) _ _ _
      split
      · exact hexit
      · simp only [Msg.isReply, if_true] at h
        generalize replies ms = rs at h ⊢
        cases h with
        | registered _ => exact .welcome
    | _ => exact hexit
  | loginSent id =>
    cases m with
    | loginFeedback flag =>
      simp only [Msg.isReply, if_true] at h
      show Stage (Client.loginIfaceMgmt id (.loginFeedback flag)) _ _ _
      generalize replies ms = rs at h hexit ⊢
      cases h with
      | admitted _ => exact .online fun f hf => absurd hf List.not_mem_nil
      | refused hflag =>
        rcases hflag with rfl | rfl | rfl
        · exact .again
        · exact hexit
        · exact .again
    | _ => exact hexit
  | operaIface id =>
    cases m with
    | allowDisconnect => exact hexit
    | registerSuccess x => cases h
    | loginFeedback flag => cases h
    | _ => exact h
  | exited => exact hexit
  | welIface =>
    -- not reading, and no answer is on its way
    cases m with
    | registerSuccess x => cases h
    | loginFeedback flag => cases h
    | _ => exact h
  | loginIface =>
    cases m with
    | registerSuccess x => cases h
    | loginFeedback flag => cases h
    | _ => exact h

/-- The server handles a frame that is neither a registration nor a login. -/
theorem serve (h : Stage p (f :: fs) rs o) (hf : f.opening = false) : Stage p fs rs o := by
  cases h with
  | registering _ => cases hf
  | loggingIn _ => cases hf
  | online hfs => exact .online fun g hg => hfs g (List.mem_cons_of_mem _ hg)
  | exited hfs =>
    refine .exited fun g hg hopen => ?_
    have hnil := (List.cons.inj (hfs g (List.mem_cons_of_mem _ hg) hopen).1).2
    rw [hnil] at hg
    exact absurd hg List.not_mem_nil

/-- The server handles a registration. -/
theorem serveRegister (h : Stage p [.register user] rs o) (hms : ms = [] ∨ ∃ id, ms = [.registerSuccess id]) :
    Stage p [] (rs ++ ms) o := by
  cases h with
  | registering _ =>
    rcases hms with rfl | ⟨id, rfl⟩
    · exact .unanswered
    · exact .registered id
  | online hfs => exact absurd (hfs _ List.mem_cons_self) Bool.noConfusion
  | exited _ => exact .exited fun g hg => absurd hg List.not_mem_nil

/-- The server refuses a login. -/
theorem serveRefused {flag : Int} (h : Stage p [.login user] rs o) (hflag : Refusal flag) :
    Stage p [] (rs ++ [.loginFeedback flag]) none := by
  cases h with
  | loggingIn _ => exact .refused hflag
  | online hfs => exact absurd (hfs _ List.mem_cons_self) Bool.noConfusion
  | exited _ => exact .exited fun g hg => absurd hg List.not_mem_nil

/-- The server opens a session. -/
theorem serveAdmitted (h : Stage p [.login user] rs o) : Stage p [] (rs ++ [.loginFeedback 0]) (some user.id) := by
  cases h with
  | loggingIn _ => exact .admitted user.id
  | online hfs => exact absurd (hfs _ List.mem_cons_self) Bool.noConfusion
  | exited _ => exact .exited fun g hg => absurd hg List.not_mem_nil

end Stage

/-! ## Links -/

/-- A friend request at the client of user `o`: it is for `o`, and it was asked for. -/
def Requested (A : Int → Int → Prop) (o : Option Int) (src dst : Int) : Prop := o = some dst ∧ A src dst ∧ src ≠ dst

/-- A frame on a connection of user `o` names `o`, and an approval answers a request. -/
def Backed (A : Int → Int → Prop) (o : Option Int) : Frame → Prop
  | .offline x => o = some x
  | .addFriend src dst => o = some src ∧ src ≠ dst
  | .allowAddf src dst _ => Requested A o src dst
  | _ => True

/-- Client and server agree on a connection. -/
structure Link (A : Int → Int → Prop) (c : Client) (inn : List Frame) (out : List Msg) (o : Option Int) : Prop where
  stage : Stage c.phase inn (replies out) o
  frames : ∀ f ∈ inn, Backed A o f
  asked : ∀ src dst, (src, dst) ∈ c.asked → Requested A o src dst
  requests : ∀ src dst, .addFriend src dst ∈ out → Requested A o src dst

theorem Requested.mono (hAB : ∀ src dst, A src dst → B src dst) (h : Requested A o src dst) : Requested B o src dst :=
  ⟨h.1, hAB _ _ h.2.1, h.2.2⟩

namespace Link

theorem fresh : Link A .fresh [] [] none where
  stage := .welcome
  frames := fun _ hf => absurd hf List.not_mem_nil
  asked := fun _ _ h => absurd h List.not_mem_nil
  requests := fun _ _ h => absurd h List.not_mem_nil

theorem mono (hAB : ∀ src dst, A src dst → B src dst) (h : Link A c inn out o) : Link B c inn out o where
  stage := h.stage
  frames := by
    intro f hf
    have := h.frames f hf
    cases f with
    | allowAddf src dst v => exact Requested.mono hAB this
    | _ => exact this
  asked := fun src dst hm => (h.asked src dst hm).mono hAB
  requests := fun src dst hm => (h.requests src dst hm).mono hAB

/-- The client writes what it may. -/
theorem send (h : Link A c inn out o) (hs : c.Sends f) : Link A (c.send f) (inn ++ [f]) out o where
  stage := h.stage.send hs
  frames := by
    intro g hg
    rcases List.mem_append.1 hg with hg | hg
    · exact h.frames g hg
    rw [List.mem_singleton.1 hg]
    have hstage := h.stage
    obtain ⟨p, l, asked⟩ := c
    cases p with
    | operaIface id =>
      have ho : o = some id := by
        generalize replies out = rs at hstage
        cases hstage with
        | online _ => rfl
      cases f with
      | offline x => exact (show x = id from hs) ▸ ho
      | addFriend a b => exact ⟨hs.1 ▸ ho, hs.2⟩
      | allowAddf a b v => exact h.asked a b hs.1
      | _ => exact trivial
    | _ => cases f <;> first | exact trivial | exact hs.elim
  asked := by
    intro src dst hm
    refine h.asked src dst ?_
    cases f <;> exact hm
  requests := h.requests

/-- Reading a message other than a friend request leaves the requests the client has. -/
theorem recv_asked (hm : ∀ a b, m ≠ .addFriend a b) : (c.recv m).asked = c.asked := by
  obtain ⟨p, l, asked⟩ := c
  cases p with
  | operaIface id =>
    cases m with
    | addFriend a b => exact absurd rfl (hm a b)
    | _ => rfl
  | _ => rfl

/-- The client reads. -/
theorem recv (h : Link A c inn (m :: ms) o) : Link A (c.recv m) inn ms o where
  stage := h.stage.recv
  frames := h.frames
  asked := by
    intro src dst hmem
    by_cases hm : ∀ a b, m ≠ .addFriend a b
    · rw [recv_asked hm] at hmem
      exact h.asked src dst hmem
    push Not at hm
    obtain ⟨a, b, rfl⟩ := hm
    obtain ⟨p, l, asked⟩ := c
    cases p with
    | operaIface id =>
      rcases List.mem_cons.1 hmem with heq | hmem
      · cases heq
        exact h.requests _ _ List.mem_cons_self
      · exact h.asked src dst hmem
    | _ => exact h.asked src dst hmem
  requests := fun src dst hm => h.requests src dst (List.mem_cons_of_mem _ hm)

/-- Messages without answers arrive. -/
theorem deliver (h : Link A c inn out o) (hr : replies ms = [])
    (hreq : ∀ src dst, .addFriend src dst ∈ ms → Requested A o src dst) : Link A c inn (out ++ ms) o where
  stage := by
    rw [replies_append, hr, List.append_nil]
    exact h.stage
  frames := h.frames
  asked := h.asked
  requests := by
    intro src dst hm
    rcases List.mem_append.1 hm with hm | hm
    · exact h.requests src dst hm
    · exact hreq src dst hm

/-- The server has handled a frame that is neither a registration nor a login. -/
theorem serve (h : Link A c (f :: fs) out o) (hf : f.opening = false) : Link A c fs out o where
  stage := h.stage.serve hf
  frames := fun g hg => h.frames g (List.mem_cons_of_mem _ hg)
  asked := h.asked
  requests := h.requests

/-- The server has handled the only frame on its way, with nobody logged in before. -/
theorem serveOpening {o' : Option Int} (h : Link A c [f] out none) (hstage : Stage c.phase [] (replies (out ++ ms)) o')
    (hreq : ∀ src dst, .addFriend src dst ∉ ms) : Link A c [] (out ++ ms) o' where
  stage := hstage
  frames := fun _ hg => absurd hg List.not_mem_nil
  asked := by
    intro src dst hm
    exact absurd (h.asked src dst hm).1 (Option.some_ne_none dst).symm
  requests := by
    intro src dst hm
    rcases List.mem_append.1 hm with hm | hm
    · exact absurd (h.requests src dst hm).1 (Option.some_ne_none dst).symm
    · exact absurd hm (hreq src dst)

end Link

/-! ## Frames that open no session -/

/-- A frame other than a login, with `OP_OFFLINE` naming the user of its connection, only removes
sessions and closes their connections. -/
theorem frame_shrink (env : Env) (confd : Int) (h : Table s) (hlogin : ∀ user, f ≠ .login user)
    (hoff : ∀ id, f = .offline id → s.session confd = some id) :
    Shrink s (s.analysisReceive env confd f) ∧ Closes s (s.analysisReceive env confd f) := by
  cases f with
  | register user =>
    have hw : Walk env (registerCalls confd) s (s.registerAction env confd user) := registerAction_walk
    exact ⟨hw.shrink h fun _ _ ho => ho.elim, hw.closes h fun _ _ ho => ho.elim⟩
  | login user => exact absurd rfl (hlogin user)
  | heartbeat id => exact ⟨Shrink.refl h, Closes.same rfl⟩
  | offline id =>
    have hl : Linked s.pOnline confd id := session_linked h.sessions (hoff id rfl)
    exact ⟨offlineAction_shrink env h hl.covers, cascade_offlineAction.closes h.sessions hl⟩
  | addFriend src dst =>
    have hw : Walk env (addFriendCalls s confd src dst) s (s.addFriendAction env confd src dst) := addFriendAction_walk
    exact ⟨hw.shrink h fun _ _ ho => ho.elim, hw.closes h fun _ _ ho => ho.elim⟩
  | allowAddf src dst v =>
    have hw : Walk env (allowAddfCalls src dst) s (s.allowAddfAction env src dst v) := allowAddfAction_walk
    exact ⟨hw.shrink h fun _ _ ho => ho.elim, hw.closes h fun _ _ ho => ho.elim⟩
  | other op => exact ⟨Shrink.refl h, Closes.same rfl⟩

theorem hangup_shrink (env : Env) (confd : Int) (h : Table s) :
    Shrink s (s.readServerFail env confd) ∧ Closes s (s.readServerFail env confd) :=
  ⟨readServerFail_shrink h, cascade_offlineAction.closes h.sessions h.sessions.linked_sessionId⟩

/-- A login opens no connection. -/
theorem loginAction_opened (h : Table s) (hs : s.session confd = none)
    (hpos : env.sql s.log (.selectUser user.id) = true → s.Admits user → 0 ≤ user.id) (he : confd ∈ s.epfd) :
    ∀ fd ∈ (s.loginAction env confd user).opened, fd ∈ s.opened := by
  have hown := loginAction_shrink env h (fun hsql had => ⟨hpos hsql had, session_none.1 hs⟩) (h.registered confd he) he
  intro fd hfd
  rcases hown with hshrink | ⟨addr, hshrink⟩
  · exact hshrink.opened fd hfd
  · exact hshrink.opened fd hfd

/-- A frame that is no friend request sends no friend request. -/
theorem no_request (env : Env) (f : Frame) (h : Table s) (hf : ∀ src dst, f ≠ .addFriend src dst) :
    .addFriend src dst ∉ sent fd (s.news (s.analysisReceive env confd f)) := by
  intro hm
  have haddr : Writes (s.Addressed (.frame confd f)) s (s.act env (.frame confd f)) := act_addressed h _
  obtain ⟨-, confd', hact⟩ := (haddr.sent hm).2 src dst rfl
  cases hact
  exact hf src dst rfl

/-- The server has handled a registration. -/
theorem Link.serveRegister (hl : Link A c [.register user] out none) (h : Table s)
    (hs : s.session confd = none) (ho : confd ∈ (s.registerAction env confd user).opened) :
    Link A c [] (out ++ sent confd (s.news (s.registerAction env confd user)))
      ((s.registerAction env confd user).session confd) := by
  obtain ⟨hshrink, hcloses⟩ := frame_shrink env confd (f := .register user) h
    (fun _ => Frame.noConfusion) fun _ => Frame.noConfusion
  have hkeep : (s.registerAction env confd user).session confd = none :=
    (session_keep h.sessions hshrink hcloses ho).trans hs
  rw [hkeep]
  refine hl.serveOpening ?_ fun src dst => no_request env (.register user) h fun _ _ => Frame.noConfusion
  rw [replies_append]
  exact hl.stage.serveRegister (registerAction_answers ho)

/-- The server has handled a login. -/
theorem Link.serveLogin (hl : Link A c [.login user] out none) (h : Table s) (hs : s.session confd = none)
    (hpos : env.sql s.log (.selectUser user.id) = true → s.Admits user → 0 ≤ user.id) (he : confd ∈ s.epfd)
    (ho : confd ∈ (s.loginAction env confd user).opened) :
    Link A c [] (out ++ sent confd (s.news (s.loginAction env confd user)))
      ((s.loginAction env confd user).session confd) := by
  refine hl.serveOpening ?_ fun src dst => no_request env (.login user) h fun _ _ => Frame.noConfusion
  rw [replies_append]
  rcases loginAction_answers h hs hpos he ho with ⟨hnone, flag, hflag, hrep⟩ | ⟨hsome, hrep⟩
  · rw [hnone, hrep]
    exact hl.stage.serveRefused hflag
  · rw [hsome, hrep]
    exact hl.stage.serveAdmitted

/-! ## The system -/

namespace System

variable {σ σ' : System} {a : Act}

/-- The session table is in order, and client and server agree on every open connection. -/
structure Coherent (A : Int → Int → Prop) (σ : System) : Prop where
  table : Table σ.server
  links : ∀ fd ∈ σ.server.opened, Link A (σ.client fd) (σ.toServer fd) (σ.toClient fd) (σ.server.session fd)

/-- A login that the server is about to admit has an id that is not negative. -/
def ValidIds (env : Env) (σ : System) (a : Act) : Prop :=
  ∀ fd user fs, a = .serve fd → σ.toServer fd = .login user :: fs →
    env.sql σ.server.log (.selectUser user.id) = true → σ.server.Admits user → 0 ≤ user.id

/-- The friend request that an action handles. -/
def Requests (σ : System) (a : Act) (src dst : Int) : Prop :=
  ∃ fd fs, a = .serve fd ∧ σ.toServer fd = .addFriend src dst :: fs ∧ σ.server.session fd = some src

namespace Coherent

theorem mono (hAB : ∀ src dst, A src dst → B src dst) (h : Coherent A σ) : Coherent B σ :=
  ⟨h.table, fun fd hfd => (h.links fd hfd).mono hAB⟩

theorem boot (db : Database) : Coherent A (.boot db) where
  table := Table.boot db
  links := fun _ hfd => absurd hfd List.not_mem_nil

theorem connect (h : Coherent A σ) (hen : σ.Enabled (.connect fd)) : Coherent A (σ.act env (.connect fd)) where
  table := h.table.accept
  links := by
    intro fd' hfd'
    have hsession : (σ.server.accept fd).session fd' = σ.server.session fd' := rfl
    show Link A (Function.update σ.client fd .fresh fd') (Function.update σ.toServer fd [] fd')
      (Function.update σ.toClient fd [] fd') ((σ.server.accept fd).session fd')
    rw [hsession]
    by_cases hne : fd' = fd
    · subst hne
      -- a descriptor that was not open carries no session
      have hnone : σ.server.session fd' = none :=
        session_none.2 fun n hn heq => hen.2.2 (heq ▸ h.table.opened n hn)
      rw [Function.update_self, Function.update_self, Function.update_self, hnone]
      exact Link.fresh
    · rw [Function.update_of_ne hne, Function.update_of_ne hne, Function.update_of_ne hne]
      exact h.links fd' ((List.mem_cons.1 hfd').resolve_left hne)

theorem send (h : Coherent A σ) (hen : σ.Enabled (.send fd f)) : Coherent A (σ.act env (.send fd f)) where
  table := h.table
  links := by
    intro fd' hfd'
    show Link A (Function.update σ.client fd _ fd') (Function.update σ.toServer fd _ fd') _ _
    by_cases hne : fd' = fd
    · subst hne
      rw [Function.update_self, Function.update_self]
      exact (h.links fd' hfd').send hen.2
    · rw [Function.update_of_ne hne, Function.update_of_ne hne]
      exact h.links fd' hfd'

theorem recv (h : Coherent A σ) (hen : σ.Enabled (.recv fd)) : Coherent A (σ.act env (.recv fd)) := by
  obtain ⟨m, ms, hms⟩ := enabled_recv hen
  rw [act_recv env hms]
  refine ⟨h.table, fun fd' hfd' => ?_⟩
  show Link A (Function.update σ.client fd _ fd') _ (Function.update σ.toClient fd _ fd') _
  by_cases hne : fd' = fd
  · subst hne
    have hl := h.links fd' hfd'
    rw [hms] at hl
    rw [Function.update_self, Function.update_self]
    exact hl.recv
  · rw [Function.update_of_ne hne, Function.update_of_ne hne]
    exact h.links fd' hfd'

/-- What an action of the server sends to a connection whose registration or login it does not
handle. -/
theorem quiet_link (env : Env) (a : Server.Act) (h : Coherent A σ) (hfd : fd ∈ σ.server.opened)
    (hAB : ∀ src dst, A src dst → B src dst) (hf : ∀ f, a = .frame fd f → f.opening = false)
    (hreq : ∀ confd src dst, a = .frame confd (.addFriend src dst) → B src dst ∧ src ≠ dst) :
    Link B (σ.client fd) (σ.toServer fd)
      (σ.toClient fd ++ sent fd (σ.server.news (σ.server.act env a))) (σ.server.session fd) := by
  have haddr : Writes (σ.server.Addressed a) σ.server (σ.server.act env a) := act_addressed h.table a
  refine ((h.links fd hfd).mono hAB).deliver (haddr.replies_nil fun m hm => ?_) fun src dst hm => ?_
  · by_contra hno
    obtain ⟨f, hact, hopen⟩ := hm.1 (by simpa using hno)
    rw [hf f hact] at hopen
    exact absurd hopen Bool.false_ne_true
  · obtain ⟨hsession, confd, hact⟩ := (haddr.sent hm).2 src dst rfl
    exact ⟨hsession, hreq confd src dst hact⟩

theorem hangup (h : Coherent A σ) : Coherent A (σ.act env (.hangup fd)) where
  table := (readServerFail_shrink h.table).table
  links := by
    intro fd' hfd'
    obtain ⟨hshrink, hcloses⟩ := hangup_shrink env fd h.table
    have hkeep : (σ.server.act env (.hangup fd)).session fd' = σ.server.session fd' :=
      session_keep h.table.sessions hshrink hcloses hfd'
    have hlink := h.quiet_link env (.hangup fd) (B := A) (hshrink.opened fd' hfd')
      (fun _ _ h => h) (fun f hact => Server.Act.noConfusion hact) fun _ _ _ hact => Server.Act.noConfusion hact
    rw [← hkeep] at hlink
    exact hlink

/-- The frame of one connection is handled: what the server sends elsewhere fits. -/
theorem serve_elsewhere (h : Coherent A σ) (hfd : fd ∈ σ.server.opened) (hto : σ.toServer confd = f :: fs)
    (hc : confd ∈ σ.server.opened) (hAB : ∀ src dst, A src dst → B src dst)
    (hreq : ∀ src dst, σ.Requests (.serve confd) src dst → B src dst) (hf : fd = confd → f.opening = false) :
    Link B (σ.client fd) (σ.toServer fd)
      (σ.toClient fd ++ sent fd (σ.server.news (σ.server.act env (.frame confd f)))) (σ.server.session fd) := by
  refine h.quiet_link env (.frame confd f) hfd hAB ?_ ?_
  · intro g hact
    cases hact
    exact hf rfl
  · intro confd' src dst hact
    cases hact
    obtain ⟨hsession, hne⟩ := (h.links confd hc).frames (.addFriend src dst) (hto ▸ List.mem_cons_self)
    exact ⟨hreq src dst ⟨confd, fs, rfl, hto, hsession⟩, hne⟩

/-- The state behind a handled frame, one connection at a time. -/
theorem of_served (ht : Table s)
    (hself : confd ∈ s.opened → Link B (σ.client confd) fs (σ.toClient confd ++ sent confd (σ.server.news s))
      (s.session confd))
    (hother : ∀ fd ∈ s.opened, fd ≠ confd →
      Link B (σ.client fd) (σ.toServer fd) (σ.toClient fd ++ sent fd (σ.server.news s)) (s.session fd)) :
    Coherent B { σ.deliver s with toServer := Function.update σ.toServer confd fs } where
  table := ht
  links := by
    intro fd hfd
    show Link B (σ.client fd) (Function.update σ.toServer confd fs fd) _ _
    by_cases hne : fd = confd
    · subst hne
      rw [Function.update_self]
      exact hself hfd
    · rw [Function.update_of_ne hne]
      exact hother fd hfd hne

/-- **Handling a frame keeps client and server in agreement.** -/
theorem serve (h : Coherent A σ) (hen : σ.Enabled (.serve confd)) (hids : σ.ValidIds env (.serve confd))
    (hAB : ∀ src dst, A src dst → B src dst) (hreq : ∀ src dst, σ.Requests (.serve confd) src dst → B src dst) :
    Coherent B (σ.act env (.serve confd)) := by
  obtain ⟨f, fs, hto, hen⟩ := enabled_serve hen
  rw [act_serve env hto]
  have he : confd ∈ σ.server.epfd := hen.2
  have hc : confd ∈ σ.server.opened := h.table.registered confd he
  have hlink := h.links confd hc
  rw [hto] at hlink
  have helse : ∀ {fd : Int}, fd ∈ σ.server.opened → (fd = confd → f.opening = false) →
      Link B (σ.client fd) (σ.toServer fd)
        (σ.toClient fd ++ sent fd (σ.server.news (σ.server.act env (.frame confd f)))) (σ.server.session fd) :=
    fun hfd hf => h.serve_elsewhere hfd hto hc hAB hreq hf
  by_cases hlogin : ∀ user, f ≠ .login user
  · have hoff : ∀ id, f = .offline id → σ.server.session confd = some id := by
      rintro id rfl
      exact hlink.frames (.offline id) List.mem_cons_self
    obtain ⟨hshrink, hcloses⟩ := frame_shrink env confd h.table hlogin hoff
    refine of_served hshrink.table (fun ho => ?_) fun fd hfd hne => ?_
    · have hkeep := session_keep h.table.sessions hshrink hcloses ho
      by_cases hopen : f.opening = false
      · have hl := helse hc fun _ => hopen
        rw [hto, ← hkeep] at hl
        exact hl.serve hopen
      · -- a registration, and nothing else is on its way
        obtain ⟨rfl, hnone⟩ := hlink.stage.alone (by simpa using hopen)
        rw [hnone] at hlink
        cases f with
        | register user => exact (hlink.mono hAB).serveRegister h.table hnone ho
        | login user => exact absurd rfl (hlogin user)
        | _ => exact absurd rfl hopen
    · have hkeep := session_keep h.table.sessions hshrink hcloses hfd
      have hl := helse (hshrink.opened fd hfd) fun heq => absurd heq hne
      rw [← hkeep] at hl
      exact hl
  · push Not at hlogin
    obtain ⟨user, rfl⟩ := hlogin
    obtain ⟨rfl, hnone⟩ := hlink.stage.alone rfl
    have hpos := hids confd user [] rfl hto
    have hown : σ.server.OwnSession env (.frame confd (.login user)) :=
      fun hsql had => ⟨hpos hsql had, session_none.1 hnone⟩
    refine of_served (h.table.act hen hown) (fun ho => ?_) fun fd hfd hne => ?_
    · rw [hnone] at hlink
      exact (hlink.mono hAB).serveLogin h.table hnone hpos he ho
    · have hkeep : (σ.server.act env (.frame confd (.login user))).session fd = σ.server.session fd :=
        loginAction_keeps h.table hnone hpos he hne hfd
      have hl := helse (loginAction_opened h.table hnone hpos he fd hfd) fun heq => absurd heq hne
      rw [← hkeep] at hl
      exact hl

/-- **Every action keeps client and server in agreement**, with the friend request it handles
among those that were asked for. -/
theorem act (h : Coherent A σ) (hen : σ.Enabled a) (hids : σ.ValidIds env a) :
    Coherent (fun src dst => A src dst ∨ σ.Requests a src dst) (σ.act env a) := by
  cases a with
  | connect fd => exact (h.connect hen).mono fun _ _ => Or.inl
  | send fd f => exact (h.send hen).mono fun _ _ => Or.inl
  | recv fd => exact (h.recv hen).mono fun _ _ => Or.inl
  | hangup fd => exact h.hangup.mono fun _ _ => Or.inl
  | serve fd => exact h.serve hen hids (fun _ _ => Or.inl) fun _ _ => Or.inr

end Coherent

end System

end UnixNote
