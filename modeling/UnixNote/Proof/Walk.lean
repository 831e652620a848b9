import UnixNote.Chat.Action
import Mathlib.Logic.Relation

/-!
# Handlers as sequences of calls

A handler is a walk: single calls that neither write nor query, queries, calls of
`Write_server` and calls of `offline_action`, each of a kind that the handler makes
(`Allowed`). What is proved of one call of each kind then holds of every handler,
without looking at the handler again. The list of sessions grows in one place
only, `openSession`, which is a walk from the state with the new session
(`openSession_walk`).
-/

namespace UnixNote

open Server

/-- The calls a handler may make. -/
structure Allowed where
  write : Int → Msg → Prop
  query : Stmt → Prop
  offline : Int → Int → Prop

/-- The same calls, without the writes. -/
def Allowed.silent (A : Allowed) : Allowed := { A with write := fun _ _ => False }

/-- One call. -/
inductive Move (env : Env) (A : Allowed) : Server → Server → Prop
  | emit {s : Server} {e : Event} : e.quiet = true → Move env A s (s.emit e)
  | query {s : Server} {q : Stmt} : A.query q → Move env A s (s.query env q)
  | write {s : Server} {fd : Int} {m : Msg} : A.write fd m → Move env A s (s.writeServer env fd m).1
  | offline {s : Server} {confd id : Int} : A.offline confd id → Move env A s (s.offlineAction env confd id)

/-- A sequence of calls. -/
abbrev Walk (env : Env) (A : Allowed) : Server → Server → Prop := Relation.ReflTransGen (Move env A)

variable {env : Env} {A B : Allowed} {s s' : Server} {fd id confd : Int} {m : Msg} {e : Event} {q : Stmt}

namespace Walk

theorem emit (h : Walk env A s s') (he : e.quiet = true) : Walk env A s (s'.emit e) := h.tail (.emit he)

theorem query (h : Walk env A s s') (hq : A.query q) : Walk env A s (s'.query env q) := h.tail (.query hq)

theorem write (h : Walk env A s s') (hw : A.write fd m) : Walk env A s (s'.writeServer env fd m).1 :=
  h.tail (.write hw)

theorem offline (h : Walk env A s s') (ho : A.offline confd id) : Walk env A s (s'.offlineAction env confd id) :=
  h.tail (.offline ho)

theorem mysqlEnd (h : Walk env A s s') (c : Option Nat) : Walk env A s (s'.mysqlEnd c) := (h.emit rfl).emit rfl

theorem deref (h : Walk env A s s') (p : Node) : Walk env A s (s'.deref env p).1 := by
  obtain ⟨b, hb⟩ := deref_fst s' env p
  rw [hb]; exact h.emit rfl

/-- A walk with fewer kinds of calls is one with more. -/
theorem mono (h : Walk env A s s') (hw : ∀ fd m, A.write fd m → B.write fd m) (hq : ∀ q, A.query q → B.query q)
    (ho : ∀ fd id, A.offline fd id → B.offline fd id) : Walk env B s s' := by
  induction h with
  | refl => exact .refl
  | tail _ hm ih =>
    cases hm with
    | emit he => exact ih.emit he
    | query h => exact ih.query (hq _ h)
    | write h => exact ih.write (hw _ _ h)
    | offline h => exact ih.offline (ho _ _ h)

theorem of_silent (h : Walk env A.silent s s') : Walk env A s s' :=
  h.mono (fun _ _ hw => hw.elim) (fun _ hq => hq) fun _ _ ho => ho

end Walk

/-! ## Registration -/

/-- `register_action` answers its own connection. -/
def registerCalls (confd : Int) : Allowed where
  write fd m := fd = confd ∧ ∃ id, m = .registerSuccess id
  query q := (∃ u p, q = .insertUser u p) ∨ q = .selectMaxUser ∨ ∃ id, q = .createTable id
  offline _ _ := False

/-- **`register_action`** behind its insert looks up its row and answers with one message, or
crashes. -/
theorem registerAction_inserted (env : Env) (confd : Int) (user : User) (s : Server) :
    ∃ s', Walk env (registerCalls confd).silent (s.query env (.insertUser user.username user.password)) s' ∧
      (s.registerAction env confd user = s'.emit .crash ∨
        ∃ id c, s.registerAction env confd user = s'.registerReply env confd id c) := by
  have h : Walk env (registerCalls confd).silent (s.query env (.insertUser user.username user.password))
      ((s.query env (.insertUser user.username user.password)).query env .selectMaxUser) :=
    Walk.query .refl (Or.inr (Or.inl rfl))
  unfold registerAction mysqlGo
  dsimp only
  split
  · exact ⟨_, h, Or.inr ⟨_, _, rfl⟩⟩
  rename_i c _
  split
  · exact ⟨_, h.emit rfl, Or.inl rfl⟩
  rename_i row _
  have h' := (h.emit (e := .fetchRow (some c)) rfl).query (q := .createTable row.id) (Or.inr (Or.inr ⟨_, rfl⟩))
  split
  · exact ⟨_, h', Or.inr ⟨_, _, rfl⟩⟩
  · exact ⟨_, h', Or.inr ⟨_, _, rfl⟩⟩

/-- The same from the start. -/
theorem registerAction_cases (env : Env) (confd : Int) (user : User) (s : Server) :
    ∃ s', Walk env (registerCalls confd).silent s s' ∧
      (s.registerAction env confd user = s'.emit .crash ∨
        ∃ id c, s.registerAction env confd user = s'.registerReply env confd id c) := by
  obtain ⟨s', hw, hend⟩ := registerAction_inserted env confd user s
  have hinsert : Walk env (registerCalls confd).silent s
      (s.query env (.insertUser user.username user.password)) := Walk.query .refl (Or.inl ⟨_, _, rfl⟩)
  exact ⟨s', hinsert.trans hw, hend⟩

theorem registerAction_walk {user : User} : Walk env (registerCalls confd) s (s.registerAction env confd user) := by
  obtain ⟨s', hw, heq | ⟨id, c, heq⟩⟩ := registerAction_cases env confd user s
  · rw [heq]
    exact hw.of_silent.emit rfl
  · rw [heq]
    exact (hw.of_silent.write ⟨rfl, _, rfl⟩).mysqlEnd c

/-! ## Friend requests -/

/-- `add_friend_action` answers its own connection, or forwards the request to the session
of the user it names. -/
def addFriendCalls (s : Server) (confd src dst : Int) : Allowed where
  write fd m := (fd = confd ∧ ∃ v, m = .allowAddf src dst v) ∨
    (m = .addFriend src dst ∧ ∃ p ∈ s.pOnline.nodes, p.id = dst ∧ fd = p.sockfd)
  query q := q = .selectFriend src dst
  offline _ _ := False

theorem addFriendAction_walk {src dst : Int} :
    Walk env (addFriendCalls s confd src dst) s (s.addFriendAction env confd src dst) := by
  have h : ∀ c, Walk env (addFriendCalls s confd src dst) s
      ((s.query env (.selectFriend src dst)).emit (.fetchRow c)) :=
    fun c => (Walk.query .refl rfl).emit rfl
  unfold addFriendAction mysqlGo
  dsimp only
  generalize (if (s.answer env (.selectFriend src dst)).1 = .ok then some s.log.length else none) = conn
  cases conn with
  | none => exact (h _).write (Or.inl ⟨rfl, _, rfl⟩)
  | some c =>
    dsimp only
    split
    · exact (h _).write (Or.inl ⟨rfl, _, rfl⟩)
    cases hp : s.pOnline.searchList dst .byId with
    | none => exact (h _).write (Or.inl ⟨rfl, _, rfl⟩)
    | some p =>
      obtain ⟨hmem, hid⟩ := OnlineList.searchId_some hp
      -- no call since the search has removed a node
      simp only [deref_live env (s := (s.query env (.selectFriend src dst)).emit (.fetchRow (some c))) hmem]
      exact ((h _).emit rfl).write (Or.inr ⟨rfl, p, hmem, hid, rfl⟩)

/-- `allow_addf_action` writes answers and nodes, and inserts the pair both ways. -/
def allowAddfCalls (src dst : Int) : Allowed where
  write _ m := (∃ v, m = .allowAddf src dst v) ∨ ∃ n, m = .online n
  query q := q = .insertFriend src dst ∨ q = .insertFriend dst src
  offline _ _ := False

theorem answerRequest_walk {psrc : Option Node} {src dst verdict : Int}
    (h : Walk env (allowAddfCalls src dst) s s') :
    Walk env (allowAddfCalls src dst) s (s'.answerRequest env psrc src dst verdict) := by
  unfold answerRequest
  split
  · exact h
  · exact (h.deref _).write (Or.inl ⟨_, rfl⟩)

theorem introduce_walk {psrc pdst : Option Node} {src dst : Int} (h : Walk env (allowAddfCalls src dst) s s') :
    Walk env (allowAddfCalls src dst) s (s'.introduce env psrc pdst) := by
  unfold introduce
  split
  · refine Walk.write (Walk.deref (Walk.deref ?_ _) _) (Or.inr ⟨_, rfl⟩)
    exact Walk.write (Walk.deref (Walk.deref h _) _) (Or.inr ⟨_, rfl⟩)
  · exact h

theorem allowAddfAction_walk {src dst verdict : Int} :
    Walk env (allowAddfCalls src dst) s (s.allowAddfAction env src dst verdict) := by
  have h : Walk env (allowAddfCalls src dst) s
      ((s.query env (.insertFriend src dst)).query env (.insertFriend dst src)) :=
    (Walk.query .refl (Or.inl rfl)).query (Or.inr rfl)
  unfold allowAddfAction mysqlGo
  dsimp only
  by_cases hv : verdict = 1
  · rw [if_pos hv]
    generalize (if (s.answer env (.insertFriend src dst)).1 = .ok then some s.log.length else none) = ret
    refine Walk.mysqlEnd ?_ _
    generalize (if ((s.query env (.insertFriend src dst)).answer env (.insertFriend dst src)).1 = .ok then
      some (s.query env (.insertFriend src dst)).log.length else none) = ret2
    split
    · exact introduce_walk (answerRequest_walk h)
    · exact answerRequest_walk h
  · rw [if_neg hv]
    split
    · exact answerRequest_walk .refl
    · exact .refl

/-! ## Login -/

/-- A refused login is answered on its own connection with a flag other than 0. -/
def refusedCalls (confd : Int) : Allowed where
  write fd m := fd = confd ∧ ∃ flag, m = .loginFeedback flag ∧ flag ≠ 0
  query q := ∃ id, q = .selectUser id
  offline _ _ := False

/-- A flag that refuses a login. -/
def Refusal (flag : Int) : Prop := flag = -1 ∨ flag = -2 ∨ flag = -3

/-- With a session open, `login_action` exchanges nodes with the friends, and tears the session
down when the friend table cannot be read. -/
def exchangeCalls (confd id : Int) : Allowed where
  write _ m := ∃ n, m = .online n
  query q := q = .selectFriends id
  offline fd x := fd = confd ∧ x = id

/-- The same, with the flag that confirms the session. -/
def sessionCalls (confd id : Int) : Allowed :=
  { exchangeCalls confd id with
    write := fun fd m => (fd = confd ∧ m = .loginFeedback 0) ∨ (exchangeCalls confd id).write fd m }

theorem exchangeOnline_walk {temp : OnlineNode} {c : Option Nat} {rows : List Int}
    (h : Walk env (exchangeCalls confd id) s s') :
    Walk env (exchangeCalls confd id) s (s'.exchangeOnline env confd temp c rows) := by
  induction rows generalizing s' with
  | nil => exact h.emit rfl
  | cons f rows ih =>
    simp only [exchangeOnline]
    split
    · exact ih (h.emit rfl)
    rename_i p _
    have h₁ := ((h.emit (e := .fetchRow c) rfl).deref p).write
      (show (exchangeCalls confd id).write ((s'.emit (.fetchRow c)).deref env p).2.sockfd (.online temp) from
        ⟨temp, rfl⟩)
    split
    · exact ih h₁
    · split
      · exact (h₁.deref p).write ⟨_, rfl⟩
      · exact ih ((h₁.deref p).write ⟨_, rfl⟩)

/-- The state in which `openSession` has added its node. -/
def withSession (confd : Int) (user : User) (addr : SockAddr) (s : Server) : Server :=
  (s.emit (.getpeername confd true)).addList ⟨user.id, confd, addr⟩

/-- The state in which it has confirmed the session. -/
def greeted (env : Env) (confd : Int) (user : User) (addr : SockAddr) (s : Server) : Server :=
  ((withSession confd user addr s).writeServer env confd (.loginFeedback 0)).1

/-- Without an address the connection is closed under the id -1. -/
theorem openSession_unnamed (user : User) (c : Option Nat) (hpeer : env.getpeername s.log confd = none) :
    s.openSession env confd user c =
      ((s.emit (.getpeername confd false)).offlineAction env confd (-1)).mysqlEnd c := by
  unfold openSession
  rw [hpeer]

/-- With a friend table, nodes are exchanged with the friends. -/
theorem openSession_friends {user : User} {addr : SockAddr} (c : Option Nat)
    (haddr : env.getpeername s.log confd = some addr)
    (hok : ((greeted env confd user addr s).answer env (.selectFriends user.id)).1 = .ok) :
    s.openSession env confd user c =
      (((greeted env confd user addr s).query env (.selectFriends user.id)).exchangeOnline env confd
        ⟨user.id, confd, addr⟩ (some (greeted env confd user addr s).log.length)
        (((greeted env confd user addr s).query env (.selectFriends user.id)).db.friends user.id)).mysqlEnd
        (some (greeted env confd user addr s).log.length) := by
  unfold openSession mysqlGo
  rw [haddr]
  unfold greeted withSession at hok ⊢
  dsimp only
  rw [if_pos hok]

/-- Without one, the session is torn down. -/
theorem openSession_friendless {user : User} {addr : SockAddr} (c : Option Nat)
    (haddr : env.getpeername s.log confd = some addr)
    (hno : ((greeted env confd user addr s).answer env (.selectFriends user.id)).1 ≠ .ok) :
    s.openSession env confd user c =
      (((greeted env confd user addr s).query env (.selectFriends user.id)).offlineAction env confd
        user.id).mysqlEnd c := by
  unfold openSession mysqlGo
  rw [haddr]
  unfold greeted withSession at hno ⊢
  dsimp only
  rw [if_neg hno]

/-- **A login that passed its checks**: without an address its connection is closed, else its
session is opened and confirmed, its friend table is read, and what follows is a walk. -/
theorem openSession_cases (env : Env) (confd : Int) (user : User) (c : Option Nat) (s : Server) :
    (env.getpeername s.log confd = none ∧ s.openSession env confd user c =
        ((s.emit (.getpeername confd false)).offlineAction env confd (-1)).mysqlEnd c) ∨
      ∃ addr, env.getpeername s.log confd = some addr ∧
        Walk env (exchangeCalls confd user.id) ((greeted env confd user addr s).query env (.selectFriends user.id))
          (s.openSession env confd user c) := by
  cases haddr : env.getpeername s.log confd with
  | none => exact Or.inl ⟨rfl, openSession_unnamed user c haddr⟩
  | some addr =>
    refine Or.inr ⟨addr, rfl, ?_⟩
    by_cases hok : ((greeted env confd user addr s).answer env (.selectFriends user.id)).1 = .ok
    · rw [openSession_friends c haddr hok]
      exact (exchangeOnline_walk .refl).mysqlEnd _
    · rw [openSession_friendless c haddr hok]
      refine Walk.mysqlEnd (Walk.offline .refl ?_) _
      exact ⟨rfl, rfl⟩

/-- The same as a walk from the state with the new session. -/
theorem openSession_walk (env : Env) (confd : Int) (user : User) (c : Option Nat) (s : Server) :
    (s.openSession env confd user c =
        ((s.emit (.getpeername confd false)).offlineAction env confd (-1)).mysqlEnd c) ∨
      ∃ addr, env.getpeername s.log confd = some addr ∧
        Walk env (sessionCalls confd user.id) (withSession confd user addr s) (s.openSession env confd user c) := by
  refine (openSession_cases env confd user c s).imp And.right fun ⟨addr, haddr, hw⟩ => ⟨addr, haddr, ?_⟩
  have h : Walk env (sessionCalls confd user.id) (withSession confd user addr s)
      ((greeted env confd user addr s).query env (.selectFriends user.id)) :=
    (Walk.write .refl (Or.inl ⟨rfl, rfl⟩)).query rfl
  exact h.trans (hw.mono (fun _ _ hw => Or.inr hw) (fun _ hq => hq) fun _ _ ho => ho)

/-- What `login_action` asks of the state before it opens a session. -/
def Server.Admits (s : Server) (user : User) : Prop :=
  (∃ row, s.db.selectUser user.id = some row ∧ row.password = user.password) ∧
    s.pOnline.searchList user.id .byId = none

theorem query_selectUser_db : (s.query env (.selectUser id)).db = s.db := by
  show (s.answer env (.selectUser id)).2 = s.db
  unfold answer Database.exec
  split <;> rfl

/-- A statement that succeeds was not refused. -/
theorem answer_ok (h : (s.answer env q).1 = .ok) : env.sql s.log q = true := by
  by_contra hno
  unfold answer at h
  rw [if_neg hno] at h
  cases h

/-- The state in which `login_action` has looked its user up. -/
def lookedUp (env : Env) (user : User) (c : Nat) (s : Server) : Server :=
  (s.query env (.selectUser user.id)).emit (.fetchRow (some c))

/-- **`login_action`** answers with a refusal, or goes on to open a session. -/
theorem loginAction_cases (env : Env) (confd : Int) (user : User) (s : Server) :
    (∃ s' flag c, Walk env (refusedCalls confd).silent s s' ∧ Refusal flag ∧
        s.loginAction env confd user = s'.loginReply env confd flag c) ∨
      (s.Admits user ∧ (s.answer env (.selectUser user.id)).1 = .ok ∧
        s.loginAction env confd user =
          (lookedUp env user s.log.length s).openSession env confd user (some s.log.length)) := by
  have h : Walk env (refusedCalls confd).silent s (s.query env (.selectUser user.id)) := Walk.query .refl ⟨_, rfl⟩
  unfold loginAction mysqlGo
  dsimp only
  by_cases hok : (s.answer env (.selectUser user.id)).1 = .ok
  swap
  · rw [if_neg hok]
    exact Or.inl ⟨_, -2, none, h, Or.inr (Or.inl rfl), rfl⟩
  rw [if_pos hok]
  have h' := h.emit (e := .fetchRow (some s.log.length)) rfl
  simp only [emit_db, query_selectUser_db, emit_pOnline, query_pOnline]
  cases hrow : s.db.selectUser user.id with
  | none => exact Or.inl ⟨_, -1, _, h', Or.inl rfl, rfl⟩
  | some row =>
    dsimp only
    split
    · exact Or.inl ⟨_, -1, _, h', Or.inl rfl, rfl⟩
    rename_i hpw
    cases hp : s.pOnline.searchList user.id .byId with
    | some p => exact Or.inl ⟨_, -3, _, h', Or.inr (Or.inr rfl), rfl⟩
    | none => exact Or.inr ⟨⟨⟨row, hrow, by simpa using hpw⟩, hp⟩, hok, rfl⟩

/-- A login that passes its checks opens a session. -/
theorem loginAction_admitted {user : User} (hsql : env.sql s.log (.selectUser user.id) = true) (had : s.Admits user) :
    s.loginAction env confd user =
      (lookedUp env user s.log.length s).openSession env confd user (some s.log.length) := by
  obtain ⟨⟨row, hrow, hpw⟩, hnone⟩ := had
  have hok : (s.answer env (.selectUser user.id)).1 = .ok := by
    unfold answer
    rw [if_pos hsql]
    rfl
  unfold loginAction mysqlGo
  dsimp only
  rw [if_pos hok]
  simp only [emit_db, query_selectUser_db, emit_pOnline, query_pOnline, hrow, hpw, hnone]
  exact if_neg fun h => h rfl

/-- A login that does not pass them is answered, with the row it looked at or without one. -/
theorem loginAction_refused {user : User} (h : ¬ (s.Admits user ∧ (s.answer env (.selectUser user.id)).1 = .ok)) :
    ((s.answer env (.selectUser user.id)).1 ≠ .ok ∧
        s.loginAction env confd user = (s.query env (.selectUser user.id)).loginReply env confd (-2) none) ∨
      ((s.answer env (.selectUser user.id)).1 = .ok ∧ ∃ flag, s.loginAction env confd user =
        (lookedUp env user s.log.length s).loginReply env confd flag (some s.log.length)) := by
  unfold loginAction mysqlGo
  dsimp only
  by_cases hok : (s.answer env (.selectUser user.id)).1 = .ok
  swap
  · rw [if_neg hok]
    exact Or.inl ⟨hok, rfl⟩
  rw [if_pos hok]
  refine Or.inr ⟨hok, ?_⟩
  simp only [emit_db, query_selectUser_db, emit_pOnline, query_pOnline]
  cases hrow : s.db.selectUser user.id with
  | none => exact ⟨-1, rfl⟩
  | some row =>
    dsimp only
    by_cases hpw : row.password = user.password
    swap
    · rw [if_pos hpw]
      exact ⟨-1, rfl⟩
    rw [if_neg (not_not.2 hpw)]
    cases hp : s.pOnline.searchList user.id .byId with
    | some p => exact ⟨-3, rfl⟩
    | none => exact absurd ⟨⟨⟨row, hrow, hpw⟩, hp⟩, hok⟩ h

theorem Refusal.ne_zero {flag : Int} (h : Refusal flag) : flag ≠ 0 := by
  rcases h with rfl | rfl | rfl <;> decide

/-- A refused login as a walk. -/
theorem loginAction_walk (env : Env) (confd : Int) (user : User) (s : Server) :
    Walk env (refusedCalls confd) s (s.loginAction env confd user) ∨
      (s.Admits user ∧ (s.answer env (.selectUser user.id)).1 = .ok ∧
        s.loginAction env confd user =
          (lookedUp env user s.log.length s).openSession env confd user (some s.log.length)) := by
  refine (loginAction_cases env confd user s).imp_left ?_
  rintro ⟨s', flag, c, hw, hf, heq⟩
  rw [heq]
  exact (hw.of_silent.write ⟨rfl, flag, rfl, hf.ne_zero⟩).mysqlEnd c

end UnixNote
