import UnixNote.Proof.Announcing

/-!
# Logins that are torn down midway

Any failed write on the connection of a login tears the new session down, also one inside the teardown of a
friend, and `login_action` looks at the result of one of them only: it goes on to announce a user who is gone
(`no_ghost_breaks`). **`no_ghost`**: a login leaves no ghost exactly if each friend who is online afterwards
was met by the loop while the session was up, or not at all (`Met`); and it leaves none whatever fails exactly
if no friend is online when it begins.
-/

namespace UnixNote

open Server

variable {env : Env} {s s' s₁ s₂ : Server} {c : Call} {confd fd id x : Int} {u n p : Node} {m : Msg}
  {evs evs' : List Event} {user : User} {rows : List Int} {temp : OnlineNode} {conn : Option Nat}

/-! ## What is left -/

/-- The login of `id` on `confd` left no ghost: the user is online, and it and the friends online were told of
each other; or it is not, and what the friends online were told last, if anything, is that it left. -/
def NoGhost (confd id : Int) (s s' : Server) : Prop :=
  (∃ u ∈ s'.pOnline.nodes, u.id = id ∧ ∀ n ∈ s'.pOnline.nodes, n.id ∈ s.db.friends id →
      .online u.toOnlineNode ∈ sent n.sockfd (s.news s') ∧ .online n.toOnlineNode ∈ sent confd (s.news s')) ∨
    ((∀ n ∈ s'.pOnline.nodes, n.id ≠ id) ∧ ∀ n ∈ s'.pOnline.nodes, n.id ∈ s.db.friends id →
      ∀ m, lastAbout id (sent n.sockfd (s.news s')) = some m → m = .offline id)

/-- Nobody was told that the user is online. -/
theorem NoGhost.silent (hgone : ∀ n ∈ s'.pOnline.nodes, n.id ≠ id)
    (hw : Writes (fun _ m => m.about id = true → m = .offline id) s s') : NoGhost confd id s s' := by
  refine Or.inr ⟨hgone, fun n _ _ m hm => ?_⟩
  have hmem := List.mem_filter.1 (List.mem_of_getLast? hm)
  exact hw.sent hmem.1 hmem.2

/-- The connections of `mysql_go` are closed at the end. -/
theorem NoGhost.mysqlEnd_iff (hl : s.log <+: s'.log) (k : Option Nat) :
    NoGhost confd id s (s'.mysqlEnd k) ↔ NoGhost confd id s s' := by
  have hsent : ∀ fd, sent fd (s.news (s'.mysqlEnd k)) = sent fd (s.news s') := by
    intro fd
    have hend : s'.log <+: (s'.mysqlEnd k).log := ⟨_, (mysqlEnd_log s' k).symm⟩
    have hquiet : sent fd [.freeResult k, .mysqlClose k] = [] := sent_quiet rfl
    rw [news_trans hl hend, news_of_log (mysqlEnd_log s' k), sent_append, hquiet, List.append_nil]
  unfold NoGhost
  simp only [mysqlEnd_pOnline, hsent]

/-- Calls before that are no writes. -/
theorem NoGhost.head_iff (hl : s₁.log = s.log ++ evs) (hq : evs.all Event.quiet = true) (hdb : s₁.db = s.db)
    (hl' : s₁.log <+: s'.log) : NoGhost confd id s s' ↔ NoGhost confd id s₁ s' := by
  have hsent : ∀ fd, sent fd (s.news s') = sent fd (s₁.news s') := by
    intro fd
    have hquiet : sent fd evs = [] := sent_quiet hq
    rw [news_trans ⟨_, hl.symm⟩ hl', news_of_log hl, sent_append, hquiet, List.nil_append]
  unfold NoGhost
  simp only [hsent, hdb]

/-- **The friends decide**: there is a ghost if one of them was not met. -/
theorem noGhost_iff {met : Int → Prop} (hu : ∀ n ∈ s'.pOnline.nodes, n.id = u.id → n = u)
    (h : ∀ n ∈ s'.pOnline.nodes, n.id ∈ s.db.friends u.id → Fate u n True (met n.id) s s') :
    NoGhost u.sockfd u.id s s' ↔ ∀ n ∈ s'.pOnline.nodes, n.id ∈ s.db.friends u.id → met n.id := by
  constructor
  · intro hno n hn hf
    by_contra hmet
    obtain ⟨hgone, hlast⟩ := (h n hn hf).ghost hmet
    rcases hno with ⟨k, hk, hid, -⟩ | ⟨-, htold⟩
    · exact hgone (hu k hk hid ▸ hk)
    · exact Msg.noConfusion (htold n hn hf _ hlast)
  · intro hmet
    by_cases hup : u ∈ s'.pOnline.nodes
    · refine Or.inl ⟨u, hup, rfl, fun n hn hf => ?_⟩
      rcases (h n hn hf).known (hmet n hn hf) with ⟨-, htold⟩ | ⟨hgone, -⟩
      · exact htold trivial
      · exact absurd hup hgone
    · refine Or.inr ⟨fun n hn hid => hup (hu n hn hid ▸ hn), fun n hn hf m hm => ?_⟩
      rcases (h n hn hf).known (hmet n hn hf) with ⟨hmem, -⟩ | ⟨-, hlast⟩
      · exact absurd hmem hup
      · rw [hlast] at hm
        exact (Option.some.inj hm).symm

/-! ## `login_action` -/

/-- The loop of a login that passed its checks gets to the friend `x` while the session is up, or not at all. -/
def Met (env : Env) (confd : Int) (user : User) (s : Server) (x : Int) : Prop :=
  ∀ addr, env.getpeername s.log confd = some addr →
    ((greeted env confd user addr s).answer env (.selectFriends user.id)).1 = .ok →
      Meets env confd ⟨user.id, confd, addr⟩ (some (greeted env confd user addr s).log.length) x
        (s.db.friends user.id) ((greeted env confd user addr s).query env (.selectFriends user.id))

/-- The teardown of a session that was announced to nobody. -/
theorem NoGhost.unread (hids : OneSession s₁) (huser : 0 ≤ id)
    (hl : Writes (fun _ m => m.about id = true → m = .offline id) s s₁) :
    NoGhost confd id s (s₁.offlineAction env confd id) :=
  .silent (OnlineList.searchId_none.1 (offline_gone hids huser))
    (hl.trans (offlineAction_writes.mono fun _ _ => Msg.about_teardown))

/-- Until the friend table is read nobody is told anything about the user. -/
theorem greeted_writes {addr : SockAddr} : Writes (fun _ m => m.about id = true → m = .offline id) s
    ((greeted env confd user addr s).query env (.selectFriends user.id)) := by
  have hadded : Writes (fun _ m => m.about id = true → m = .offline id) s (withSession confd user addr s) :=
    Writes.quiet [.getpeername confd true] rfl rfl
  refine (hadded.trans (writeServer_writes.mono ?_)).trans (Writes.quiet [_] rfl rfl)
  rintro fd m (⟨-, rfl⟩ | ht) hab
  · cases hab
  · exact Msg.about_teardown ht hab

/-- The new session, in front of the others. -/
theorem withSession_leads (confd : Int) (addr : SockAddr) (hids : OneSession s)
    (hfds : Keyed.Distinct (fun n : Node => n.sockfd) s.pOnline.nodes) (hpos : ∀ n ∈ s.pOnline.nodes, 0 ≤ n.id)
    (huser : 0 ≤ user.id) (hnew : ∀ n ∈ s.pOnline.nodes, n.id ≠ user.id) :
    Leads ⟨⟨user.id, confd, addr⟩, s.pOnline.brk⟩ (withSession confd user addr s) := by
  refine ⟨Keyed.Distinct.cons hids hnew, fun n hn => ?_, s.pOnline.nodes, rfl, hfds⟩
  rcases List.mem_cons.1 hn with rfl | hn
  · exact huser
  · exact hpos n hn

/-- **What becomes of a session for a friend**: something is written to it, and then the loop runs. -/
theorem Leads.fate (h : Leads u s) (hc : Cascade env c s s₁) (hm : ∀ fd m, c.sends fd m → m.about u.id = false)
    (hread : s₂ = s₁.query env (.selectFriends u.id))
    (hend : s' = s₂.exchangeOnline env u.sockfd u.toOnlineNode conn (s.db.friends u.id))
    (hsel : env.Selects u.id) (hn : n ∈ s'.pOnline.nodes) (hf : n.id ∈ s.db.friends u.id) :
    Fate u n True (Meets env u.sockfd u.toOnlineNode conn n.id (s.db.friends u.id) s₂) s s' := by
  have hlog₁ : s₁.log <+: s₂.log := by
    rw [hread]
    exact query_log_extends
  have hp : s₂.pOnline = s₁.pOnline := by
    rw [hread]
    rfl
  have hdb : s₂.db = s.db := by
    rw [hread, query_selectFriends_db, hc.db_eq]
  have hlog : s.log <+: s₂.log := hc.log_extends.trans hlog₁
  obtain ⟨hlog', hsub⟩ := exchange_shrinks env u.sockfd u.toOnlineNode conn (s.db.friends u.id) s₂
  have hnd := s.db.friends_nodup u.id
  rw [hend] at hn ⊢
  by_cases hu : u ∈ s₁.pOnline.nodes
  · have hleads : Leads u s₂ := (h.sublist hc.sublist hu).same hp
    have hfriend : n.id ∈ s₂.db.friends u.id := hdb ▸ hf
    exact (exchange_up hleads hnd hsel hn hfriend).behind hlog hlog' fun _ => Or.inl hf
  · -- it was torn down before anybody heard of it
    obtain ⟨hs, hgone⟩ := h.without hc.sublist hu
    have hkept : n ∈ s₁.pOnline.nodes := by
      rw [← hp]
      exact hsub.subset hn
    have hlast := h.downs hc hm hsel hkept hf hu
    rw [← hp] at hs hgone
    refine Fate.of_gone hs (h.nonneg u h.mem) hgone hnd hn hlog ?_
    have hquiet : Hush u.id n.sockfd s₁ s₂ := by
      rw [hread]
      exact Writes.quiet [_] rfl rfl
    rw [hquiet.last hc.log_extends]
    exact hlast

/-- **A login that passed its checks.** -/
theorem openSession_no_ghost (hids : OneSession s) (hfds : Keyed.Distinct (fun n : Node => n.sockfd) s.pOnline.nodes)
    (hpos : ∀ n ∈ s.pOnline.nodes, 0 ≤ n.id) (huser : 0 ≤ user.id) (hnew : s.pOnline.searchList user.id .byId = none)
    (hsel : env.Selects user.id) :
    NoGhost confd user.id s (s.openSession env confd user conn) ↔
      ∀ n ∈ (s.openSession env confd user conn).pOnline.nodes, n.id ∈ s.db.friends user.id →
        Met env confd user s n.id := by
  have hnone : ∀ n ∈ s.pOnline.nodes, n.id ≠ user.id := OnlineList.searchId_none.1 hnew
  cases haddr : env.getpeername s.log confd with
  | none =>
    -- the connection is closed, nobody is told anything
    have hquiet : Writes (fun _ m => m.about user.id = true → m = .offline user.id) s
        (s.emit (.getpeername confd false)) := Writes.quiet [_] rfl rfl
    have hclose : Cascade env (.offline confd (-1)) (s.emit (.getpeername confd false)) _ := cascade_offlineAction
    have hend : NoGhost confd user.id s ((s.emit (.getpeername confd false)).offlineAction env confd (-1)) :=
      .silent (fun n hn => hnone n (hclose.sublist.subset hn))
        (hquiet.trans (offlineAction_writes.mono fun _ _ => Msg.about_teardown))
    rw [openSession_unnamed user conn haddr]
    refine iff_of_true ?_ fun _ _ _ addr haddr' => absurd (haddr.symm.trans haddr') (Option.some_ne_none addr).symm
    exact (NoGhost.mysqlEnd_iff (List.IsPrefix.trans ⟨_, rfl⟩ hclose.log_extends) conn).2 hend
  | some addr =>
    have hadd : (withSession confd user addr s).log = s.log ++ [.getpeername confd true] := rfl
    have hleads := withSession_leads confd addr hids hfds hpos huser hnone
    have hgreet : Cascade env (.write confd (.loginFeedback 0)) (withSession confd user addr s)
        (greeted env confd user addr s) := cascade_writeServer
    have hlog : s.log <+: ((greeted env confd user addr s).query env (.selectFriends user.id)).log :=
      (List.IsPrefix.trans ⟨_, hadd.symm⟩ hgreet.log_extends).trans query_log_extends
    have hdb : ((greeted env confd user addr s).query env (.selectFriends user.id)).db = s.db :=
      query_selectFriends_db.trans hgreet.db_eq
    by_cases hok : ((greeted env confd user addr s).answer env (.selectFriends user.id)).1 = .ok
    · rw [openSession_friends conn haddr hok, hdb]
      obtain ⟨hloop, hsub⟩ := exchange_shrinks env confd ⟨user.id, confd, addr⟩
        (some (greeted env confd user addr s).log.length) (s.db.friends user.id)
        ((greeted env confd user addr s).query env (.selectFriends user.id))
      have hend := hlog.trans hloop
      have hlog' := (hgreet.log_extends.trans query_log_extends).trans hloop
      rw [NoGhost.mysqlEnd_iff hend, mysqlEnd_pOnline, NoGhost.head_iff hadd rfl rfl hlog']
      have hmet : ∀ x, Met env confd user s x ↔ Meets env confd ⟨user.id, confd, addr⟩
          (some (greeted env confd user addr s).log.length) x (s.db.friends user.id)
          ((greeted env confd user addr s).query env (.selectFriends user.id)) := by
        refine fun x => ⟨fun h => h addr haddr hok, fun h addr' haddr' _ => ?_⟩
        obtain rfl := Option.some.inj (haddr.symm.trans haddr')
        exact h
      refine noGhost_iff (u := ⟨⟨user.id, confd, addr⟩, s.pOnline.brk⟩) (fun n hn hid => ?_) fun n hn hf => ?_
      · have hmem := hgreet.sublist.subset (hsub.subset hn)
        exact Keyed.Distinct.eq hleads.ids hmem hleads.mem hid
      · rw [propext (hmet n.id)]
        refine hleads.fate hgreet ?_ rfl rfl hsel hn hf
        rintro _ _ ⟨-, rfl⟩
        rfl
    · -- the session is torn down, and nobody has heard of it
      have hids₁ : OneSession ((greeted env confd user addr s).query env (.selectFriends user.id)) :=
        Keyed.Distinct.sublist hleads.ids hgreet.sublist
      have hdown : Cascade env (.offline confd user.id)
          ((greeted env confd user addr s).query env (.selectFriends user.id)) _ := cascade_offlineAction
      rw [openSession_friendless conn haddr hok]
      refine iff_of_true ?_ fun _ _ _ addr' haddr' hok' => ?_
      · exact (NoGhost.mysqlEnd_iff (hlog.trans hdown.log_extends) conn).2 (NoGhost.unread hids₁ huser greeted_writes)
      · obtain rfl := Option.some.inj (haddr.symm.trans haddr')
        exact absurd hok' hok

theorem openSession_extends (env : Env) (confd : Int) (user : User) (conn : Option Nat) (s : Server) :
    s.log <+: (s.openSession env confd user conn).log := by
  have hadded : ∀ addr, s.log <+: (withSession confd user addr s).log := fun addr => ⟨_, rfl⟩
  have hpeer : s.log <+: (s.emit (.getpeername confd false)).log := ⟨_, rfl⟩
  rcases openSession_walk env confd user conn s with hclose | ⟨addr, -, hw⟩
  · have hdown : Cascade env (.offline confd (-1)) (s.emit (.getpeername confd false)) _ := cascade_offlineAction
    rw [hclose]
    exact (hpeer.trans hdown.log_extends).trans ⟨_, (mysqlEnd_log _ conn).symm⟩
  · exact (hadded addr).trans hw.passes.log_extends

/-- **One login.** -/
theorem loginAction_no_ghost (hids : OneSession s) (hfds : Keyed.Distinct (fun n : Node => n.sockfd) s.pOnline.nodes)
    (hpos : ∀ n ∈ s.pOnline.nodes, 0 ≤ n.id) (huser : 0 ≤ user.id) (had : s.Admits user)
    (hsql : env.sql s.log (.selectUser user.id) = true) (hsel : env.Selects user.id) :
    NoGhost confd user.id s (s.loginAction env confd user) ↔
      ∀ n ∈ (s.loginAction env confd user).pOnline.nodes, n.id ∈ s.db.friends user.id →
        Met env confd user (lookedUp env user s.log.length s) n.id := by
  have hlook : (lookedUp env user s.log.length s).log = s.log ++
      [.query (.selectUser user.id) (s.answer env (.selectUser user.id)).1, .fetchRow (some s.log.length)] := by
    show (s.log ++ [_]) ++ [_] = _
    rw [List.append_assoc]
    rfl
  have hdb : (lookedUp env user s.log.length s).db = s.db := query_selectUser_db
  have hopen := openSession_extends env confd user (some s.log.length) (lookedUp env user s.log.length s)
  rw [loginAction_admitted hsql had, NoGhost.head_iff hlook rfl hdb hopen, ← hdb]
  exact openSession_no_ghost (s := lookedUp env user s.log.length s) hids hfds hpos huser had.2 hsel

/-- A session that is up at the end has met everybody. -/
theorem met_of_mem (h : ∃ n ∈ (s.openSession env confd user conn).pOnline.nodes, n.id = user.id) :
    Met env confd user s x := by
  intro addr haddr hok
  have hdb : ((greeted env confd user addr s).query env (.selectFriends user.id)).db = s.db :=
    query_selectFriends_db.trans cascade_writeServer.db_eq
  rw [openSession_friends conn haddr hok, hdb] at h
  exact meets_of_mem h

/-! ## Whatever fails -/

/-- A loop of `offline_action` whose messages go out. -/
theorem notify_sent {k : Nat} (hsent : ∀ log fd m, m.teardown = true → env.write log fd m = true)
    (h : Cascade env (.notify id k rows) s s') : s'.pOnline = s.pOnline := by
  induction rows generalizing s with
  | nil =>
    cases h with
    | notifyEnd => rfl
  | cons f rows ih =>
    cases h with
    | notifySkip _ hrest =>
      rw [ih hrest]
      rfl
    | notifySend _ hw hrest =>
      cases hw with
      | writeOk _ =>
        rw [ih hrest]
        rfl
      | writeFail hfail _ =>
        rw [hsent _ _ _ rfl] at hfail
        cases hfail

/-- A teardown whose messages go out removes one node. -/
theorem offline_sent (hsent : ∀ log fd m, m.teardown = true → env.write log fd m = true) (hid : 0 ≤ id)
    (h : Cascade env (.offline fd id) s s') : s'.pOnline = s.pOnline.delList id .byId := by
  cases h with
  | offlineNeg hneg => exact absurd hid (by omega)
  | offlineRows _ _ hn hw =>
    cases hw with
    | writeOk _ => exact notify_sent hsent hn
    | writeFail hfail _ =>
      rw [hsent _ _ _ rfl] at hfail
      cases hfail
  | offlineNoDb _ _ hw =>
    cases hw with
    | writeOk _ => rfl
    | writeFail hfail _ =>
      rw [hsent _ _ _ rfl] at hfail
      cases hfail

/-- A loop of `login_action` whose messages go out. -/
theorem exchange_sent (hsent : ∀ log fd node, env.write log fd (.online node) = true) :
    (s.exchangeOnline env confd temp conn rows).pOnline = s.pOnline := by
  induction rows generalizing s with
  | nil => rfl
  | cons f rows ih =>
    rcases exchange_row env confd temp conn f rows s with ⟨-, heq⟩ | ⟨p, -, ⟨-, -, heq⟩ | ⟨-, hno, -⟩ | ⟨hno, -⟩⟩
    · rw [heq, ih]
      rfl
    · rw [heq, ih]
      rfl
    · rw [hsent] at hno
      cases hno
    · rw [hsent] at hno
      cases hno

/-- It does not meet anybody while the session is gone. -/
theorem exchange_misses (hsent : ∀ log fd node, env.write log fd (.online node) = true)
    (hgone : ∀ n ∈ s.pOnline.nodes, n.id ≠ temp.id) (hx : x ∈ rows) : ¬ Meets env confd temp conn x rows s := by
  induction rows generalizing s with
  | nil => exact fun _ => List.not_mem_nil hx
  | cons f rows ih =>
    by_cases hf : f = x
    · subst hf
      rw [meets_here, OnlineList.searchId_none.2 hgone]
      exact Bool.false_ne_true
    have hx : x ∈ rows := (List.mem_cons.1 hx).resolve_left (Ne.symm hf)
    rcases exchange_row env confd temp conn f rows s with
      ⟨hp, -⟩ | ⟨p, hp, ⟨hok, hok', -⟩ | ⟨-, hno, -⟩ | ⟨hno, -⟩⟩
    · rw [meets_skip hf hp]
      exact ih hgone hx
    · rw [meets_done hf hp hok hok']
      exact ih hgone hx
    · rw [hsent] at hno
      cases hno
    · rw [hsent] at hno
      cases hno

/-- The confirmation on the connection `confd` fails, and nothing else. -/
def unconfirmed (confd : Int) : Env := { calm with write := fun _ fd m => fd ≠ confd ∨ m ≠ .loginFeedback 0 }

theorem unconfirmed_write (h : m ≠ .loginFeedback 0) : (unconfirmed confd).write evs fd m = true :=
  decide_eq_true (Or.inr h)

/-- The session is torn down, and the others are still there. -/
theorem unconfirmed_greeted (confd : Int) (hids : OneSession s)
    (hfds : Keyed.Distinct (fun n : Node => n.sockfd) s.pOnline.nodes)
    (hpos : ∀ n ∈ s.pOnline.nodes, 0 ≤ n.id) (huser : 0 ≤ user.id) (hnew : ∀ n ∈ s.pOnline.nodes, n.id ≠ user.id) :
    (greeted (unconfirmed confd) confd user ⟨0, 0⟩ s).pOnline.nodes = s.pOnline.nodes := by
  have hleads := withSession_leads confd ⟨0, 0⟩ hids hfds hpos huser hnew
  have hfail : (unconfirmed confd).write (withSession confd user ⟨0, 0⟩ s).log confd (.loginFeedback 0) = false :=
    decide_eq_false (by simp)
  have hdown : Cascade (unconfirmed confd) (.offline confd user.id)
      ((withSession confd user ⟨0, 0⟩ s).emit (.write confd (.loginFeedback 0) false))
      (greeted (unconfirmed confd) confd user ⟨0, 0⟩ s) := by
    have hself : (withSession confd user ⟨0, 0⟩ s).sessionId confd = user.id := hleads.sessionId_self
    unfold greeted
    rw [writeServer_false hfail, hself]
    exact cascade_offlineAction
  have hsent : ∀ log fd m, m.teardown = true → (unconfirmed confd).write log fd m = true := by
    intro log fd m hm
    refine unconfirmed_write ?_
    rintro rfl
    cases hm
  rw [offline_sent hsent huser hdown, OnlineList.delList_nodes]
  exact List.eraseP_cons_of_pos (by simp [Flag.field])

/-- It is announced, and meets nobody. -/
theorem unconfirmed_session (confd : Int) (k : Option Nat) (hids : OneSession s)
    (hfds : Keyed.Distinct (fun n : Node => n.sockfd) s.pOnline.nodes) (hpos : ∀ n ∈ s.pOnline.nodes, 0 ≤ n.id)
    (huser : 0 ≤ user.id) (hnew : ∀ n ∈ s.pOnline.nodes, n.id ≠ user.id) (hx : x ∈ s.db.friends user.id) :
    (s.openSession (unconfirmed confd) confd user k).pOnline.nodes = s.pOnline.nodes ∧
      ¬ Met (unconfirmed confd) confd user s x := by
  have hnodes := unconfirmed_greeted confd hids hfds hpos huser hnew
  have hdb : (greeted (unconfirmed confd) confd user ⟨0, 0⟩ s).db = s.db := cascade_writeServer.db_eq
  have hok : ((greeted (unconfirmed confd) confd user ⟨0, 0⟩ s).answer (unconfirmed confd) (.selectFriends user.id)).1 =
      .ok := selectFriends_ok rfl (by rwa [hdb])
  have hsent : ∀ log fd node, (unconfirmed confd).write log fd (.online node) = true :=
    fun log fd node => unconfirmed_write Msg.noConfusion
  rw [openSession_friends k rfl hok]
  refine ⟨?_, fun hmet => ?_⟩
  · rw [mysqlEnd_pOnline, exchange_sent hsent]
    exact hnodes
  · refine exchange_misses hsent (fun n hn => hnew n ?_) hx (hmet ⟨0, 0⟩ rfl hok)
    rwa [← hnodes]

/-- **A ghost whenever a friend is online.** -/
theorem unconfirmed_ghost (confd : Int) (hids : OneSession s)
    (hfds : Keyed.Distinct (fun n : Node => n.sockfd) s.pOnline.nodes) (hpos : ∀ n ∈ s.pOnline.nodes, 0 ≤ n.id)
    (huser : 0 ≤ user.id) (had : s.Admits user) (hp : p ∈ s.pOnline.nodes) (hf : p.id ∈ s.db.friends user.id) :
    ¬ NoGhost confd user.id s (s.loginAction (unconfirmed confd) confd user) := by
  have hdb : (lookedUp (unconfirmed confd) user s.log.length s).db = s.db := query_selectUser_db
  have hf' : p.id ∈ (lookedUp (unconfirmed confd) user s.log.length s).db.friends user.id := by rwa [hdb]
  obtain ⟨hnodes, hmet⟩ := unconfirmed_session confd (some s.log.length)
    (s := lookedUp (unconfirmed confd) user s.log.length s) hids hfds hpos huser (OnlineList.searchId_none.1 had.2) hf'
  have hlogin : s.loginAction (unconfirmed confd) confd user = _ := loginAction_admitted rfl had
  refine fun hno => hmet ?_
  refine (loginAction_no_ghost hids hfds hpos huser had rfl fun _ _ => rfl).1 hno p ?_ hf
  rw [hlogin, hnodes]
  exact hp

/-- A login removes nodes, behind the session it opens if it opens one. -/
theorem loginAction_nodes (env : Env) (confd : Int) (user : User) (s : Server) :
    (s.loginAction env confd user).pOnline.nodes.Sublist s.pOnline.nodes ∨
      ∃ addr, s.Admits user ∧
        (s.loginAction env confd user).pOnline.nodes.Sublist (withSession confd user addr s).pOnline.nodes := by
  rcases loginAction_walk env confd user s with hw | ⟨had, -, heq⟩
  · exact Or.inl hw.sublist
  rw [heq]
  rcases openSession_walk env confd user (some s.log.length) (lookedUp env user s.log.length s) with
    hclose | ⟨addr, -, hw⟩
  · rw [hclose]
    exact Or.inl cascade_offlineAction.sublist
  · exact Or.inr ⟨addr, had, hw.sublist⟩

/-! ## Runs -/

/-- What an action does to the list: it removes nodes, behind the session of a login if it opens one. -/
theorem act_nodes (env : Env) (a : Server.Act) (s : Server) :
    (s.act env a).pOnline.nodes.Sublist s.pOnline.nodes ∨ ∃ confd user addr, s.Admits user ∧
      (s.act env a).pOnline.nodes.Sublist (withSession confd user addr s).pOnline.nodes := by
  cases a with
  | accept fd => exact Or.inl (List.Sublist.refl _)
  | hangup fd => exact Or.inl cascade_offlineAction.sublist
  | frame confd f =>
    cases f with
    | register user => exact Or.inl registerAction_walk.sublist
    | login user => exact (loginAction_nodes env confd user s).imp_right fun ⟨addr, h⟩ => ⟨confd, user, addr, h⟩
    | heartbeat id => exact Or.inl (List.Sublist.refl _)
    | offline id => exact Or.inl cascade_offlineAction.sublist
    | addFriend src dst => exact Or.inl addFriendAction_walk.sublist
    | allowAddf src dst v => exact Or.inl allowAddfAction_walk.sublist
    | other op => exact Or.inl (List.Sublist.refl _)

/-- A user whose row was found has an id that `auto_increment` gave. -/
theorem Server.Admits.nonneg (h : s.Admits user) (hnum : s.db.Numbered) : 0 ≤ user.id := by
  obtain ⟨⟨row, hrow, -⟩, -⟩ := h
  obtain ⟨hmem, hid⟩ : row ∈ s.db.user ∧ row.id = user.id := Keyed.find?_spec hrow
  have := hnum.2 row hmem
  omega

/-- Sessions have ids that are not negative. -/
theorem run_nonneg {tr : List (Server × Server.Act)}
    (hr : ((lts env).startingIn fun s => s.db.Numbered).Run (fun _ _ => True) tr s) :
    s.db.Numbered ∧ OneSession s ∧ ∀ n ∈ s.pOnline.nodes, 0 ≤ n.id := by
  refine hr.invariant (I := fun s => s.db.Numbered ∧ OneSession s ∧ ∀ n ∈ s.pOnline.nodes, 0 ≤ n.id) ?_ ?_
  · rintro s ⟨⟨db, rfl⟩, hnum⟩
    exact ⟨hnum, Keyed.Distinct.nil, fun n hn => (List.not_mem_nil hn).elim⟩
  · rintro s a s' ⟨hnum, hids, hpos⟩ - ⟨-, rfl⟩
    refine ⟨act_db (fun q db => Database.exec_numbered q) a hnum, act_oneSession a hids, fun n hn => ?_⟩
    rcases act_nodes env a s with hsub | ⟨confd, user, addr, had, hsub⟩
    · exact hpos n (hsub.subset hn)
    · rcases List.mem_cons.1 (hsub.subset hn) with rfl | hn
      · exact had.nonneg hnum
      · exact hpos n hn

/-- The select of the user's own row does not fail, nor does that of the friend table in a teardown of the user. -/
def Answerable (env : Env) (user : User) (s : Server) : Prop :=
  env.sql s.log (.selectUser user.id) = true ∧ env.Selects user.id

/-- **A login that is torn down midway leaves no ghost.** At every login of every run that passes its checks while the
connections of the sessions are distinct: whatever else fails, exactly if no friend is online; and for one pattern of
failures, exactly if each friend who is still online afterwards was met while the session was up, or not at all. -/
theorem no_ghost {tr : List (Server × Server.Act)}
    (hr : ((lts env).startingIn fun s => s.db.Numbered).Run (fun _ _ => True) tr s)
    (hmem : (s₁, Server.Act.frame confd (.login user)) ∈ tr) (hfds : (s₁.pOnline.nodes.map fun n => n.sockfd).Nodup)
    (had : s₁.Admits user) :
    ((∀ env', Answerable env' user s₁ → NoGhost confd user.id s₁ (s₁.act env' (.frame confd (.login user)))) ↔
        ∀ n ∈ s₁.pOnline.nodes, n.id ∉ s₁.db.friends user.id) ∧
      ∀ env', Answerable env' user s₁ →
        (NoGhost confd user.id s₁ (s₁.act env' (.frame confd (.login user))) ↔
          ∀ n ∈ (s₁.act env' (.frame confd (.login user))).pOnline.nodes, n.id ∈ s₁.db.friends user.id →
            Met env' confd user (lookedUp env' user s₁.log.length s₁) n.id) := by
  obtain ⟨before, after, htr⟩ := List.append_of_mem hmem
  obtain ⟨hrun, -, -⟩ := hr.before htr
  obtain ⟨hnum, hids, hpos⟩ := run_nonneg hrun
  have huser := had.nonneg hnum
  have hlogin : ∀ env', Answerable env' user s₁ →
      (NoGhost confd user.id s₁ (s₁.act env' (.frame confd (.login user))) ↔
        ∀ n ∈ (s₁.act env' (.frame confd (.login user))).pOnline.nodes, n.id ∈ s₁.db.friends user.id →
          Met env' confd user (lookedUp env' user s₁.log.length s₁) n.id) :=
    fun env' hans => loginAction_no_ghost hids hfds hpos huser had hans.1 hans.2
  refine ⟨⟨fun h n hn hf => ?_, fun h env' hans => ?_⟩, hlogin⟩
  · exact unconfirmed_ghost confd hids hfds hpos huser had hn hf (h _ ⟨rfl, fun _ _ => rfl⟩)
  · refine (hlogin env' hans).2 fun n hn hf => ?_
    have hnew : n.id = user.id := by
      rcases loginAction_nodes env' confd user s₁ with hsub | ⟨addr, -, hsub⟩
      · exact absurd hf (h n (hsub.subset hn))
      · rcases List.mem_cons.1 (hsub.subset hn) with rfl | hn
        · rfl
        · exact absurd hf (h n hn)
    -- the user is a friend of their own, and up at the end
    have heq : s₁.act env' (.frame confd (.login user)) = _ := loginAction_admitted hans.1 had
    rw [heq] at hn
    exact met_of_mem ⟨n, hn, hnew⟩

/-! ## Two friends -/

/-- Users 1 and 2 are friends. -/
def friendsDb : Database :=
  { pairDb with
    tables := fun n =>
      if n = 1 then some ⟨[2], by decide⟩ else if n = 2 then some ⟨[1], by decide⟩ else none }

theorem friendsDb_numbered : friendsDb.Numbered := ⟨by decide, by decide⟩

theorem friendsDb_friends (x : Int) : friendsDb.friends x = if x = 1 then [2] else if x = 2 then [1] else [] := by
  by_cases h₁ : x = 1
  · subst h₁
    rfl
  by_cases h₂ : x = 2
  · subst h₂
    rfl
  rw [if_neg h₁, if_neg h₂]
  unfold Database.friends Database.table friendsDb
  dsimp only
  by_cases hx : 0 ≤ x
  · rw [if_pos hx, if_neg (by omega), if_neg (by omega)]
    rfl
  · rw [if_neg hx]
    rfl

theorem friendsDb_symmetric : friendsDb.Symmetric := by
  intro x y
  rw [friendsDb_friends, friendsDb_friends]
  split_ifs <;> simp_all

/-- User 2 logs in on the connection 6, and user 1 on the connection 5. -/
def reunion : List Server.Act := [.accept 6, .frame 6 (.login ⟨2, [], []⟩), .accept 5, .frame 5 (.login ⟨1, [], []⟩)]

theorem reunion_run (h : Lts.Script (fun s a => s.Enabled a) (Server.act env) (boot friendsDb) reunion) :
    ((lts env).startingIn fun s => s.db.Numbered).Run (fun _ _ => True)
      (Lts.steps (Server.act env) (boot friendsDb) reunion) (reunion.foldl (Server.act env) (boot friendsDb)) := by
  have h₀ : ((lts env).startingIn fun s => s.db.Numbered).Run (fun _ _ => True) [] (boot friendsDb) :=
    .start ⟨⟨friendsDb, rfl⟩, friendsDb_numbered⟩
  refine h₀.script (P := fun s a => s.Enabled a) ?_ reunion h
  exact fun _ _ h => ⟨trivial, h, rfl⟩

/-- The login of user 1 is its last step. -/
theorem reunion_mem : ((reunion.take 3).foldl (Server.act env) (boot friendsDb),
    Server.Act.frame 5 (.login ⟨1, [], []⟩)) ∈ Lts.steps (Server.act env) (boot friendsDb) reunion :=
  List.mem_cons_of_mem _ (List.mem_cons_of_mem _ (List.mem_cons_of_mem _ List.mem_cons_self))

/-- The connection 5 breaks behind the confirmation. -/
def cutOff : Env := { calm with write := fun _ fd m => fd ≠ 5 ∨ m = .loginFeedback 0 }

/-- User 1 is told nothing about user 2, and user 2 that user 1 came and left. -/
theorem no_ghost_cutOff : NoGhost 5 1 ((reunion.take 3).foldl (Server.act cutOff) (boot friendsDb))
    (((reunion.take 3).foldl (Server.act cutOff) (boot friendsDb)).act cutOff (.frame 5 (.login ⟨1, [], []⟩))) := by
  refine ((no_ghost (reunion_run (by decide)) reunion_mem (by decide) ⟨⟨_, rfl, rfl⟩, by decide⟩).2 cutOff
    ⟨rfl, fun _ _ => rfl⟩).2 fun n hn hf addr _ _ => ?_
  -- the loop gets to user 2 first, with user 1 online
  have hid : n.id = 2 := List.mem_singleton.1 hf
  rw [hid]
  exact meets_here.2 rfl

/-- **A ghost**: the confirmation to user 1 fails, the session is torn down before anybody heard of it, and then
user 2 is told that user 1 is online. -/
theorem no_ghost_breaks :
    ∃ env tr s s₁ fd user, ((lts env).startingIn fun s => s.db.Numbered).Run (fun _ _ => True) tr s ∧
      (s₁, Server.Act.frame fd (.login user)) ∈ tr ∧ (s₁.pOnline.nodes.map fun n => n.id).Nodup ∧
      (s₁.pOnline.nodes.map fun n => n.sockfd).Nodup ∧ s₁.Admits user ∧ env.sql s₁.log (.selectUser user.id) = true ∧
      s₁.db.Symmetric ∧ env.Selects user.id ∧ ¬ NoGhost fd user.id s₁ (s₁.act env (.frame fd (.login user))) := by
  refine ⟨unconfirmed 5, _, _, (reunion.take 3).foldl (Server.act (unconfirmed 5)) (boot friendsDb), 5, ⟨1, [], []⟩,
    reunion_run (by decide), reunion_mem, by decide, by decide, ⟨⟨_, rfl, rfl⟩, by decide⟩, rfl, friendsDb_symmetric,
    fun _ _ => rfl, ?_⟩
  rintro (⟨u, hu, hid, -⟩ | ⟨-, htold⟩)
  · have hgone : ∀ n ∈ (reunion.foldl (Server.act (unconfirmed 5)) (boot friendsDb)).pOnline.nodes, n.id ≠ 1 := by
      decide
    exact hgone u hu hid
  · exact absurd (htold ⟨⟨2, 6, ⟨0, 0⟩⟩, 0⟩ (by decide) (by decide) (.online ⟨1, 5, ⟨0, 0⟩⟩) (by decide)) (by decide)

end UnixNote
