import Mathlib.Data.List.Perm.Subperm
import UnixNote.Chat.Login
import UnixNote.Proof.Handles

/-!
# Logins of one user at the same time

`login_action` looks for a node of its user, and adds one two calls later. `single_login`:
as long as there is still none when it adds one, the list has at most one node of the
user, and at most one connection is told that it is logged in unless a login is torn down
again because its friend table could not be read. `single_login_breaks` is a run of two
logins that both look before one of them adds.
-/

namespace UnixNote.Login

open Server

variable {env : Env} {confd : Int} {user : User} {pc pc' : Pc} {s s' s₀ s₁ : Server} {m : Msg} {id : Int}

/-! ## One step -/

/-- What a thread knows where it stands. -/
def Fine (confd : Int) (user : User) : Pc → Prop
  | .peer temp _ => temp.id = user.id ∧ temp.sockfd = confd
  | .added temp _ => temp.id = user.id ∧ temp.sockfd = confd
  | .refuse flag _ => Refusal flag
  | _ => True

/-- Behind `add_list`, and before `del_list`. -/
def Pc.enters : Pc → Bool
  | .added _ _ => true
  | .down _ => true
  | _ => false

/-- The list stays, and no flag 0 is written. -/
structure Plain (s s' : Server) : Prop where
  pOnline : s'.pOnline = s.pOnline
  writes : Writes (fun _ m => m ≠ .loginFeedback 0) s s'

namespace Plain

theorem refl : Plain s s := ⟨rfl, Writes.refl⟩

theorem trans (h₁ : Plain s s₁) (h₂ : Plain s₁ s') : Plain s s' :=
  ⟨h₂.pOnline.trans h₁.pOnline, h₁.writes.trans h₂.writes⟩

theorem emit (h : Plain s s') {e : Event} (he : e.quiet = true) : Plain s (s'.emit e) :=
  h.trans ⟨rfl, Writes.quiet [e] rfl (by simpa using he)⟩

theorem query (h : Plain s s') (q : Stmt) : Plain s (s'.query env q) := h.trans ⟨rfl, Writes.quiet [_] rfl rfl⟩

theorem mysqlEnd (h : Plain s s') (conn : Option Nat) : Plain s (s'.mysqlEnd conn) := (h.emit rfl).emit rfl

theorem close (h : Plain s s') (fd : Int) : Plain s (s'.close fd) := h.trans ⟨rfl, Writes.quiet [_] rfl rfl⟩

theorem epollDel (h : Plain s s') (fd : Int) : Plain s (s'.epollDel fd) := h.trans ⟨rfl, Writes.quiet [_] rfl rfl⟩

theorem deref (h : Plain s s') (env : Env) (p : Node) : Plain s (s'.deref env p).1 := by
  obtain ⟨b, hb⟩ := deref_fst s' env p
  rw [hb]
  exact h.emit rfl

/-- A message that is sent and confirms nothing. -/
theorem write (h : Plain s s') (hwrite : ∀ log fd m, env.write log fd m = true) (fd : Int)
    (hm : m ≠ .loginFeedback 0) : Plain s (s'.writeServer env fd m).1 := by
  rw [writeServer_true (hwrite _ _ _)]
  exact h.trans ⟨rfl, Writes.write hm⟩

/-- `offline_action(confd, -1)`. -/
theorem offlineNeg (h : Plain s s') (env : Env) (fd : Int) : Plain s (s'.offlineAction env fd (-1)) := by
  have hc : Cascade env (.offline fd (-1)) s' (s'.offlineAction env fd (-1)) := cascade_offlineAction
  generalize s'.offlineAction env fd (-1) = s'' at hc ⊢
  cases hc with
  | offlineNeg _ => exact (h.epollDel fd).close fd
  | offlineRows hpos _ _ _ => exact absurd hpos (by decide)
  | offlineNoDb hpos _ _ => exact absurd hpos (by decide)

end Plain

/-- What a step does: to the list, and with flag 0. -/
inductive Kind (env : Env) (confd : Int) (user : User) : Pc → Server → Pc → Server → Prop
  | add {temp : OnlineNode} {c : Nat} {s : Server} :
      Kind env confd user (.peer temp c) s (.added temp c) (s.addList temp)
  | confirm {temp : OnlineNode} {c : Nat} {s : Server} :
      Kind env confd user (.added temp c) s (.welcomed temp c) (s.emit (.write confd (.loginFeedback 0) true))
  | refuse {flag : Int} {conn : Option Nat} {s s' : Server} : s'.pOnline = s.pOnline →
      Writes (fun _ m => m = .loginFeedback flag) s s' → Kind env confd user (.refuse flag conn) s .done s'
  | fail {temp : OnlineNode} {c : Nat} {s : Server} : (s.answer env (.selectFriends temp.id)).1 ≠ .ok →
      Kind env confd user (.welcomed temp c) s (.down c) (s.query env (.selectFriends temp.id))
  | delete {c : Nat} {s : Server} :
      Kind env confd user (.down c) s (.deleted c) ((s.epollDel confd).delList user.id)
  | other {pc pc' : Pc} {s s' : Server} : Plain s s' → Fine confd user pc' →
      pc'.enters = false → Kind env confd user pc s pc' s'

/-- **What one step does**, when no write fails. -/
theorem step_kind (hwrite : ∀ log fd m, env.write log fd m = true)
    (h : loginStep env confd user pc s = some (pc', s')) : Kind env confd user pc s pc' s' := by
  unfold loginStep at h
  cases pc with
  | start =>
    have hq : Plain s (s.query env (.selectUser user.id)) := Plain.refl.query _
    unfold mysqlGo at h
    dsimp only at h
    split at h
    · cases h
      exact .other hq (Or.inr (Or.inl rfl)) rfl
    have hrow := fun c => hq.emit (e := .fetchRow (some c)) rfl
    split at h
    · cases h
      exact .other (hrow _) (Or.inl rfl) rfl
    · split at h
      · cases h
        exact .other (hrow _) (Or.inl rfl) rfl
      · cases h
        exact .other (hrow _) trivial rfl
  | refuse flag conn =>
    cases h
    unfold loginReply
    rw [writeServer_true (hwrite _ _ _)]
    exact .refuse rfl ((Writes.write rfl).mysqlEnd conn)
  | checked c =>
    dsimp only at h
    split at h
    · cases h
      exact .other .refl (Or.inr (Or.inr rfl)) rfl
    · cases h
      exact .other .refl trivial rfl
  | free c =>
    dsimp only at h
    split at h
    · -- without an address the connection is closed
      cases h
      have hpeer : Plain s (s.emit (.getpeername confd false)) := Plain.refl.emit rfl
      exact .other ((hpeer.offlineNeg env confd).mysqlEnd _) trivial rfl
    · cases h
      exact .other (Plain.refl.emit rfl) ⟨rfl, rfl⟩ rfl
  | peer temp c =>
    cases h
    exact .add
  | added temp c =>
    rw [writeServer_true (hwrite _ _ _)] at h
    cases h
    exact .confirm
  | welcomed temp c =>
    unfold mysqlGo at h
    dsimp only at h
    by_cases hok : (s.answer env (.selectFriends temp.id)).1 = .ok
    · rw [if_pos hok] at h
      cases h
      exact .other (Plain.refl.query _) trivial rfl
    · rw [if_neg hok] at h
      cases h
      exact .fail hok
  | exchange temp c rows =>
    have hrow : Plain s (s.emit (.fetchRow (some c))) := Plain.refl.emit rfl
    cases rows with
    | nil =>
      cases h
      exact .other (hrow.mysqlEnd _) trivial rfl
    | cons f rows =>
      dsimp only at h
      split at h
      · cases h
        exact .other hrow trivial rfl
      · cases h
        exact .other hrow trivial rfl
  | tell temp c p rows =>
    -- no write fails, so nothing is torn down
    have hsend := fun fd => ((Plain.refl (s := s)).deref env p).write hwrite fd (m := .online temp) Msg.noConfusion
    dsimp only at h
    split at h
    · cases h
      exact .other (hsend _) trivial rfl
    · cases h
      exact .other (hsend _) trivial rfl
  | reply temp c p rows =>
    have hsend := fun n => ((Plain.refl (s := s)).deref env p).write hwrite confd (m := .online n) Msg.noConfusion
    dsimp only at h
    split at h
    · cases h
      exact .other ((hsend _).mysqlEnd _) trivial rfl
    · cases h
      exact .other (hsend _) trivial rfl
  | down c =>
    -- `offline_action`, because the friend table could not be read
    dsimp only at h
    split at h
    · cases h
      exact .other (((Plain.refl.epollDel confd).close confd).mysqlEnd _) trivial rfl
    · cases h
      exact .delete
  | deleted c =>
    have hq : Plain s (s.query env (.selectFriends user.id)) := Plain.refl.query _
    unfold mysqlGo at h
    dsimp only at h
    split at h
    · cases h
      exact .other hq trivial rfl
    · cases h
      exact .other hq trivial rfl
  | bye c conn rows =>
    have hrow : Plain s (s.emit (.fetchRow (some conn))) := Plain.refl.emit rfl
    cases rows with
    | nil =>
      cases h
      exact .other hrow trivial rfl
    | cons f rows =>
      dsimp only at h
      split at h
      · cases h
        exact .other hrow trivial rfl
      · cases h
        exact .other hrow trivial rfl
  | byeTo c conn p rows =>
    cases h
    exact .other ((Plain.refl.deref env p).write hwrite _ Msg.noConfusion) trivial rfl
  | farewell c conn =>
    cases h
    exact .other ((((Plain.refl.write hwrite confd Msg.noConfusion).mysqlEnd conn).close confd).mysqlEnd _) trivial
      rfl
  | done => cases h

/-! ## One login alone -/

section Solo

/-- The login of `user` on `confd`. -/
abbrev one (env : Env) (confd : Int) (user : User) : Program Unit Unit Pc Server :=
  program env (fun _ => confd) fun _ => user

theorem exchange_solo (temp : OnlineNode) (c : Nat) (rows : List Int) (s : Server) :
    (one env confd user).Solo () (.exchange temp c rows, s)
      (.done, (s.exchangeOnline env confd temp (some c) rows).mysqlEnd (some c)) := by
  induction rows generalizing s with
  | nil => exact .last () rfl
  | cons f rows ih =>
    simp only [exchangeOnline]
    cases hp : (s.emit (.fetchRow (some c))).pOnline.searchList f .byId with
    | none =>
      refine .head () ?_ (ih _)
      show loginStep env confd user (.exchange temp c (f :: rows)) s = _
      simp only [loginStep, hp]
    | some p =>
      have hsearch : loginStep env confd user (.exchange temp c (f :: rows)) s =
          some (.tell temp c p rows, s.emit (.fetchRow (some c))) := by
        simp only [loginStep, hp]
      refine .head () hsearch ?_
      dsimp only
      generalize s.emit (.fetchRow (some c)) = s₁
      generalize hread : s₁.deref env p = r₁
      generalize hsend : r₁.1.writeServer env r₁.2.sockfd (.online temp) = r₂
      by_cases hok : r₂.2 = false
      · rw [if_pos hok]
        refine .head () ?_ (ih _)
        show loginStep env confd user (.tell temp c p rows) s₁ = _
        simp only [loginStep, hread, hsend, hok, if_true]
      rw [if_neg hok]
      have htell : loginStep env confd user (.tell temp c p rows) s₁ = some (.reply temp c p rows, r₂.1) := by
        simp only [loginStep, hread, hsend, if_neg hok]
      refine .head () htell ?_
      generalize hread' : r₂.1.deref env p = r₃
      generalize hsend' : r₃.1.writeServer env confd (.online r₃.2) = r₄
      by_cases hok' : r₄.2 = false
      · rw [if_pos hok']
        refine .last () ?_
        show loginStep env confd user (.reply temp c p rows) r₂.1 = _
        simp only [loginStep, hread', hsend', hok', if_true]
      · rw [if_neg hok']
        refine .head () ?_ (ih _)
        show loginStep env confd user (.reply temp c p rows) r₂.1 = _
        simp only [loginStep, hread', hsend', if_neg hok']

/-- The loop of `offline_action` is that of the cascade. -/
theorem bye_solo (env : Env) (confd : Int) (user : User) (c conn : Nat) (rows : List Int) (s : Server) :
    ∃ s', (one env confd user).Solo () (.bye c conn rows, s) (.farewell c (some conn), s') ∧
      Cascade env (.notify user.id conn rows) s s' := by
  induction rows generalizing s with
  | nil => exact ⟨_, .last () rfl, .notifyEnd⟩
  | cons f rows ih =>
    cases hp : (s.emit (.fetchRow (some conn))).pOnline.searchList f .byId with
    | none =>
      obtain ⟨s', hsolo, hnotify⟩ := ih (s.emit (.fetchRow (some conn)))
      refine ⟨s', .head () ?_ hsolo, .notifySkip hp hnotify⟩
      show loginStep env confd user (.bye c conn (f :: rows)) s = _
      simp only [loginStep, hp]
    | some p =>
      have hmem : p ∈ (s.emit (.fetchRow (some conn))).pOnline.nodes := (OnlineList.searchId_some hp).1
      have hsearch : loginStep env confd user (.bye c conn (f :: rows)) s =
          some (.byeTo c conn p rows, s.emit (.fetchRow (some conn))) := by
        simp only [loginStep, hp]
      have hsend : loginStep env confd user (.byeTo c conn p rows) (s.emit (.fetchRow (some conn))) =
          some (.bye c conn rows, (((s.emit (.fetchRow (some conn))).emit (.deref p.ref true)).writeServer env p.sockfd
            (.offline user.id)).1) := by
        simp only [loginStep, deref_live env hmem]
      obtain ⟨s', hsolo, hnotify⟩ := ih (((s.emit (.fetchRow (some conn))).emit (.deref p.ref true)).writeServer env
        p.sockfd (.offline user.id)).1
      exact ⟨s', .head () hsearch (.head () hsend hsolo), .notifySend hp cascade_writeServer hnotify⟩

/-- The teardown of a login is `offline_action`. -/
theorem down_solo (c : Nat) (s : Server) :
    (one env confd user).Solo () (.down c, s) (.done, (s.offlineAction env confd user.id).mysqlEnd (some c)) := by
  have hoff : Cascade env (.offline confd user.id) s (s.offlineAction env confd user.id) := cascade_offlineAction
  by_cases hid : user.id < 0
  · rw [hoff.det (.offlineNeg hid)]
    refine .last () ?_
    show loginStep env confd user (.down c) s = _
    simp only [loginStep, if_pos hid]
  have hpos : 0 ≤ user.id := by omega
  have hcut : loginStep env confd user (.down c) s = some (.deleted c, (s.epollDel confd).delList user.id) := by
    simp only [loginStep, if_neg hid]
  refine .head () hcut ?_
  cases hconn : cutConn env confd user.id s with
  | none =>
    have hbye : Cascade env (.write confd .allowDisconnect) (cut env confd user.id s)
        ((cut env confd user.id s).writeServer env confd .allowDisconnect).1 := cascade_writeServer
    rw [hoff.det (.offlineNoDb hpos hconn hbye)]
    have hquery : loginStep env confd user (.deleted c) ((s.epollDel confd).delList user.id) =
        some (.farewell c none, cut env confd user.id s) := by
      unfold cutConn at hconn
      simp only [loginStep, hconn]
      rfl
    exact .head () hquery (.last () rfl)
  | some c' =>
    obtain ⟨s₁, hsolo, hnotify⟩ := bye_solo env confd user c c'
      (s.db.friends user.id) (cut env confd user.id s)
    have hbye : Cascade env (.write confd .allowDisconnect) s₁ (s₁.writeServer env confd .allowDisconnect).1 :=
      cascade_writeServer
    rw [hoff.det (.offlineRows hpos hconn hnotify hbye)]
    have hquery : loginStep env confd user (.deleted c) ((s.epollDel confd).delList user.id) =
        some (.bye c c' (s.db.friends user.id), cut env confd user.id s) := by
      have hrows : (cut env confd user.id s).db.friends user.id = s.db.friends user.id := by rw [cut_db]
      unfold cutConn at hconn
      simp only [loginStep, hconn]
      rw [← hrows]
      rfl
    exact .head () hquery (hsolo.trans (Program.Solo.last () rfl))

/-- **A login that is not interrupted** is the handler `login_action`. -/
theorem loginAction_solo (env : Env) (confd : Int) (user : User) (s : Server) :
    (one env confd user).Solo () (.start, s) (.done, s.loginAction env confd user) := by
  have hopen : ∀ (c : Nat) (s : Server), (one env confd user).Solo () (.free c, s)
      (.done, s.openSession env confd user (some c)) := by
    intro c s
    unfold openSession
    cases hpeer : env.getpeername s.log confd with
    | none =>
      refine .last () ?_
      show loginStep env confd user (.free c) s = _
      simp only [loginStep, hpeer]
    | some addr =>
      have hfree : loginStep env confd user (.free c) s =
          some (.peer ⟨user.id, confd, addr⟩ c, s.emit (.getpeername confd true)) := by
        simp only [loginStep, hpeer]
      -- `getpeername`, `add_list` and the confirmation, then the friend table
      refine .head () hfree (.head () rfl (.head () rfl ?_))
      dsimp only
      generalize (((s.emit (.getpeername confd true)).addList ⟨user.id, confd, addr⟩).writeServer env confd
        (.loginFeedback 0)).1 = s₁
      cases hq : (s₁.mysqlGo env (.selectFriends user.id)).2 with
      | none =>
        refine .head () ?_ (down_solo c _)
        show loginStep env confd user (.welcomed _ c) s₁ = _
        simp only [loginStep, hq]
      | some c' =>
        refine .head () ?_ (exchange_solo _ c' _ _)
        show loginStep env confd user (.welcomed _ c) s₁ = _
        simp only [loginStep, hq]
  have hrefuse : ∀ (flag : Int) (conn : Option Nat) (s : Server), (one env confd user).Solo () (.refuse flag conn, s)
      (.done, s.loginReply env confd flag conn) := fun _ _ _ => .last () rfl
  unfold loginAction
  generalize hquery : s.mysqlGo env (.selectUser user.id) = r
  obtain ⟨s₀, conn⟩ := r
  dsimp only
  cases conn with
  | none =>
    refine .head () ?_ (hrefuse _ _ _)
    show loginStep env confd user .start s = _
    simp only [loginStep, hquery]
  | some c =>
    dsimp only
    cases hrow : (s₀.emit (.fetchRow (some c))).db.selectUser user.id with
    | none =>
      refine .head () ?_ (hrefuse _ _ _)
      show loginStep env confd user .start s = _
      simp only [loginStep, hquery, hrow]
    | some row =>
      dsimp only
      by_cases hpw : row.password ≠ user.password
      · rw [if_pos hpw]
        refine .head () ?_ (hrefuse _ _ _)
        show loginStep env confd user .start s = _
        simp only [loginStep, hquery, hrow, if_pos hpw]
      rw [if_neg hpw]
      have hstart : loginStep env confd user .start s = some (.checked c, s₀.emit (.fetchRow (some c))) := by
        simp only [loginStep, hquery, hrow, if_neg hpw]
      refine .head () hstart ?_
      generalize s₀.emit (.fetchRow (some c)) = s₁
      cases hp : s₁.pOnline.searchList user.id .byId with
      | some p =>
        refine .head () ?_ (hrefuse _ _ _)
        show loginStep env confd user (.checked c) s₁ = _
        simp only [loginStep, hp]
      | none =>
        refine .head () ?_ (hopen c s₁)
        show loginStep env confd user (.checked c) s₁ = _
        simp only [loginStep, hp]

end Solo

/-! ## Runs -/

variable {ι : Type*} [DecidableEq ι] {conn : ι → Int} {users : ι → User} {p : Threads ι Pc Server}
  {tr : List (Threads ι Pc Server × (ι × Unit))}

/-- A login that adds its node adds the only one of its user. -/
def Alone (users : ι → User) (p : Threads ι Pc Server) (a : ι × Unit) : Prop :=
  ∀ temp c, p.pc a.1 = .peer temp c → p.shared.pOnline.searchList (users a.1).id .byId = none

/-- A login that was confirmed reads its friend table. -/
def Reads (env : Env) (p : Threads ι Pc Server) (a : ι × Unit) : Prop :=
  ∀ temp c, p.pc a.1 = .welcomed temp c → (p.shared.answer env (.selectFriends temp.id)).1 = .ok

/-- The nodes of the user `id`. -/
def sessions (id : Int) (s : Server) : Nat := s.pOnline.nodes.countP fun n => n.id = id

theorem sessions_none (h : s.pOnline.searchList id .byId = none) : sessions id s = 0 := by
  unfold sessions
  rw [List.countP_eq_zero]
  intro n hn
  simpa using OnlineList.searchId_none.1 h n hn

/-- One step adds no second node. -/
theorem Kind.sessions (hk : Kind env confd user pc s pc' s') (hid : user.id = id) (h : sessions id s ≤ 1)
    (hone : ∀ temp c, pc = .peer temp c → s.pOnline.searchList user.id .byId = none) : sessions id s' ≤ 1 := by
  have hsame : ∀ {s' : Server}, s'.pOnline = s.pOnline → Login.sessions id s' ≤ 1 := by
    intro s' hp
    unfold Login.sessions at *
    rw [hp]
    exact h
  cases hk with
  | @add temp c =>
    have hnone := hone temp c rfl
    rw [hid] at hnone
    have hzero := sessions_none hnone
    unfold Login.sessions at *
    show List.countP _ (_ :: _) ≤ 1
    rw [List.countP_cons, hzero]
    split <;> omega
  | confirm => exact hsame rfl
  | refuse hp _ => exact hsame hp
  | fail _ => exact hsame rfl
  | delete => exact Nat.le_trans ((OnlineList.delList_sublist _).countP_le) h
  | other hplain _ _ => exact hsame hplain.pOnline

/-- The list shows who was told. -/
def Told (id : Int) (s₀ s : Server) : Prop :=
  Writes (fun fd m => m = .loginFeedback 0 → ∃ n ∈ s.pOnline.nodes, n.id = id ∧ n.sockfd = fd) s₀ s

/-- What a thread knows when no login is torn down. -/
def Stays (id confd : Int) (user : User) (pc : Pc) (s : Server) : Prop :=
  Fine confd user pc ∧
    match pc with
    | .added _ _ => ∃ n ∈ s.pOnline.nodes, n.id = id ∧ n.sockfd = confd
    | .down _ => False
    | _ => True

theorem Stays.mono (h : Stays id confd user pc s) (hsub : ∀ n ∈ s.pOnline.nodes, n ∈ s'.pOnline.nodes) :
    Stays id confd user pc s' := by
  refine ⟨h.1, ?_⟩
  have h₂ := h.2
  cases pc with
  | added temp c =>
    obtain ⟨n, hn, hnode⟩ := h₂
    exact ⟨n, hsub n hn, hnode⟩
  | down c => exact h₂
  | _ => trivial

/-- **One step** leaves all nodes in the list, and confirms its own. -/
theorem Kind.told (hk : Kind env confd user pc s pc' s') (hid : user.id = id) (ht : Told id s₀ s)
    (hs : Stays id confd user pc s)
    (hread : ∀ temp c, pc = .welcomed temp c → (s.answer env (.selectFriends temp.id)).1 = .ok) :
    Told id s₀ s' ∧ Stays id confd user pc' s' ∧ ∀ n ∈ s.pOnline.nodes, n ∈ s'.pOnline.nodes := by
  have hkeep : ∀ {s' : Server}, (∀ n ∈ s.pOnline.nodes, n ∈ s'.pOnline.nodes) →
      Writes (fun fd m => m = .loginFeedback 0 → ∃ n ∈ s'.pOnline.nodes, n.id = id ∧ n.sockfd = fd) s s' →
      Told id s₀ s' := by
    intro s' hsub hw
    refine Writes.trans (ht.mono ?_) hw
    intro fd m h hm
    obtain ⟨n, hn, hnode⟩ := h hm
    exact ⟨n, hsub n hn, hnode⟩
  cases hk with
  | @add temp c =>
    have hsub : ∀ n ∈ s.pOnline.nodes, n ∈ (s.addList temp).pOnline.nodes := fun n hn => List.mem_cons_of_mem _ hn
    refine ⟨hkeep hsub (Writes.quiet [] (List.append_nil _).symm rfl), ⟨hs.1, ?_⟩, hsub⟩
    exact ⟨_, List.mem_cons_self, hs.1.1.trans hid, hs.1.2⟩
  | confirm => exact ⟨hkeep (fun _ hn => hn) (Writes.write fun _ => hs.2), ⟨trivial, trivial⟩, fun _ hn => hn⟩
  | refuse hp hw =>
    have hsub : ∀ n ∈ s.pOnline.nodes, n ∈ s'.pOnline.nodes := by
      rw [hp]
      exact fun _ hn => hn
    refine ⟨hkeep hsub (hw.mono ?_), ⟨trivial, trivial⟩, hsub⟩
    rintro fd m rfl hm
    exact absurd (Msg.loginFeedback.inj hm) (Refusal.ne_zero hs.1)
  | fail hfail => exact absurd (hread _ _ rfl) hfail
  | delete => exact hs.2.elim
  | other hplain hfine henters =>
    have hsub : ∀ n ∈ s.pOnline.nodes, n ∈ s'.pOnline.nodes := by
      rw [hplain.pOnline]
      exact fun _ hn => hn
    refine ⟨hkeep hsub (hplain.writes.mono fun _ _ hne hm => absurd hm hne), ⟨hfine, ?_⟩, hsub⟩
    cases pc' with
    | added temp c => cases henters
    | down c => cases henters
    | _ => trivial

/-- In every run where nodes are added alone there is at most one of the user. -/
theorem run_sessions (hwrite : ∀ log fd m, env.write log fd m = true) (hid : ∀ i, (users i).id = id)
    (hs₀ : sessions id s₀ ≤ 1) (hr : ((program env conn users).lts (· = s₀)).Run (Alone users) tr p) :
    sessions id p.shared ≤ 1 := by
  refine (Program.run_annotated (G := fun s => sessions id s ≤ 1) (L := fun _ _ _ => True) ?_ ?_ hr).1
  · rintro s rfl
    exact ⟨hs₀, fun _ => trivial⟩
  · intro p i _ pc' s' hC hG _ hstep
    exact ⟨(step_kind hwrite hstep).sessions (hid i) hG hC, trivial, fun _ _ _ _ => trivial⟩

/-- When no login is torn down, a connection that was told so has a node. -/
theorem run_told (hwrite : ∀ log fd m, env.write log fd m = true) (hid : ∀ i, (users i).id = id)
    (hr : ((program env conn users).lts (· = s₀)).Run (Reads env) tr p) : Told id s₀ p.shared := by
  refine (Program.run_annotated (G := Told id s₀) (L := fun i pc s => Stays id (conn i) (users i) pc s) ?_ ?_ hr).1
  · rintro s rfl
    exact ⟨Writes.refl, fun _ => ⟨trivial, trivial⟩⟩
  · intro p i _ pc' s' hC hG hL hstep
    obtain ⟨ht, hown, hsub⟩ := (step_kind hwrite hstep).told (hid i) hG hL hC
    exact ⟨ht, hown, fun j pc _ hj => hj.mono hsub⟩

/-- **Concurrent logins of one user**, without failed writes, in every run where each login adds its
node while there is none: the list has at most one node of the user; and when no login is torn down for
want of its friend table, at most one connection was sent flag 0. -/
theorem single_login (hwrite : ∀ log fd m, env.write log fd m = true) (hid : ∀ i, (users i).id = id)
    (hs₀ : sessions id s₀ ≤ 1) (hr : ((program env conn users).lts (· = s₀)).Run (Alone users) tr p) :
    sessions id p.shared ≤ 1 ∧
      ((∀ q a, (q, a) ∈ tr → Reads env q a) → ∀ fd fd' ok ok', .write fd (.loginFeedback 0) ok ∈ s₀.news p.shared →
        .write fd' (.loginFeedback 0) ok' ∈ s₀.news p.shared → fd = fd') := by
  have hone := run_sessions hwrite hid hs₀ hr
  refine ⟨hone, fun hreads => ?_⟩
  have ht := run_told hwrite hid ((hr.and hreads).mono fun _ _ h => h.2)
  obtain ⟨evs, hl, hw⟩ := ht
  rw [news_of_log hl]
  intro fd fd' ok ok' hm hm'
  obtain ⟨n, hn, hnid, rfl⟩ := hw fd _ ok hm rfl
  obtain ⟨n', hn', hnid', rfl⟩ := hw fd' _ ok' hm' rfl
  -- two nodes of the user would count twice
  by_contra hne
  have hpair : [n, n'].Subperm (p.shared.pOnline.nodes.filter fun n => n.id = id) := by
    refine List.Nodup.subperm ?_ ?_
    · simpa using fun h : n = n' => hne (congrArg (fun k : Node => k.sockfd) h)
    · intro k hk
      rw [List.mem_filter]
      rcases List.mem_pair.1 hk with rfl | rfl
      · exact ⟨hn, by simpa using hnid⟩
      · exact ⟨hn', by simpa using hnid'⟩
  have hlen := hpair.length_le
  unfold sessions at hone
  rw [List.countP_eq_length_filter] at hone
  simp only [List.length_cons, List.length_nil] at hlen
  omega

/-! ## Two logins -/

/-- Logins of user 1 on the connections 5, 6, ... -/
def logins : Program Nat Unit Pc Server := program calm (fun i => 5 + i) fun _ => ⟨1, [], []⟩

/-- What the steps of the logins `is` come to. -/
def after (is : List Nat) : Threads Nat Pc Server :=
  (is.map fun i => (i, ())).foldl logins.act ⟨fun _ => .start, boot pairDb⟩

theorem start_logins (C : Threads Nat Pc Server → Nat × Unit → Prop) :
    (logins.lts (· = boot pairDb)).Run C [] (after []) := .start ⟨rfl, rfl⟩

/-- One login, up to its confirmation. -/
theorem single_login_alone : sessions 1 (after [0, 0, 0, 0, 0]).shared ≤ 1 := by
  have h₁ := (start_logins (Alone fun _ => ⟨1, [], []⟩)).next (a := (0, ())) (by intro temp c h; cases h) rfl
  have h₂ := h₁.next (a := (0, ())) (by intro temp c h; cases h) rfl
  have h₃ := h₂.next (a := (0, ())) (by intro temp c h; cases h) rfl
  have h₄ := h₃.next (a := (0, ())) (by intro temp c h; rfl) rfl
  have h₅ := h₄.next (a := (0, ())) (by intro temp c h; cases h) rfl
  exact (single_login (p := after [0, 0, 0, 0, 0]) (fun _ _ _ => rfl) (fun _ => rfl) (by decide) h₅).1

/-- **Two sessions of one user**: both logins find nobody, and then both add their node and confirm. -/
theorem single_login_breaks :
    ∃ tr, (logins.lts (· = boot pairDb)).Run (fun _ _ => True) tr (after [0, 0, 0, 1, 1, 1, 0, 0, 1, 1]) ∧
      sessions 1 (after [0, 0, 0, 1, 1, 1, 0, 0, 1, 1]).shared = 2 ∧
      .write 5 (.loginFeedback 0) true ∈ (boot pairDb).news (after [0, 0, 0, 1, 1, 1, 0, 0, 1, 1]).shared ∧
      .write 6 (.loginFeedback 0) true ∈ (boot pairDb).news (after [0, 0, 0, 1, 1, 1, 0, 0, 1, 1]).shared := by
  have hrun := Program.run_script (fun _ _ => trivial) (start_logins fun _ _ => True)
    ([0, 0, 0, 1, 1, 1, 0, 0, 1, 1].map fun i => (i, ())) (by decide)
  exact ⟨_, hrun, by decide, by decide, by decide⟩

end UnixNote.Login
