import UnixNote.Proof.Cascade
import UnixNote.Proof.Walk

/-!
# The MySQL connections of a handler

A call of a handler keeps a ledger of the connections that its `mysql_go` calls open. The calls of
`offline_action` that it makes on the way keep ledgers of their own, and leave this one as it is
(`Cascade.ledger`). `mysql_balanced` says for each handler on which patterns of answers every
connection is closed once, and nothing is passed to the library but what was assigned and not
released.
-/

namespace UnixNote

open Server

/-- The connections a call has open, the results it has not released, whether what it passed to the
library was among them, and whether it got to its end. `depth` counts the calls of `offline_action`
it is in. Connections and results are named by the position of the query in the log. -/
structure Ledger where
  depth : Nat
  conns : List Nat
  results : List Nat
  sound : Bool
  returned : Bool
  deriving DecidableEq, Repr

/-- The statements that go through `mysql_go`; `write_to_sql` opens and closes its own. -/
def Stmt.go : Stmt → Bool
  | .insertUser _ _ => false
  | _ => true

namespace Ledger

/-- A call that has the connections `cs` open, each with its result. -/
def holding (cs : List Nat) : Ledger := ⟨0, cs, cs, true, true⟩

/-- An event of the call itself. -/
def own (L : Ledger) (pos : Nat) : Event → Ledger
  | .query q r => if q.go = true ∧ r = .ok then { L with conns := pos :: L.conns, results := pos :: L.results } else L
  | .fetchRow c => { L with sound := L.sound && c.any (· ∈ L.results) }
  | .freeResult c =>
    { L with
      results := L.results.filter (some · ≠ c)
      sound := L.sound && c.any (· ∈ L.results) }
  | .mysqlClose c =>
    { L with
      conns := L.conns.filter (some · ≠ c)
      sound := L.sound && c.any (· ∈ L.conns) }
  | .crash => { L with returned := false }
  | _ => L

def enter (L : Ledger) : Ledger := { L with depth := L.depth + 1 }

def leave (L : Ledger) : Ledger := { L with depth := L.depth - 1 }

/-- An event and its position. `offline_action` begins with `epoll_ctl` and ends with `close`. -/
def step (L : Ledger) (e : Event × Nat) : Ledger :=
  match e.1 with
  | .epollDel _ => L.enter
  | .close _ => L.leave
  | ev => if L.depth = 0 then L.own e.2 ev else L

/-- Nothing was passed on that was not held, and every connection is closed at the return. -/
def Balanced (L : Ledger) : Prop := L.sound = true ∧ (L.returned = true → L.conns = [])

instance (L : Ledger) : Decidable L.Balanced := by unfold Balanced; infer_instance

variable {L : Ledger}

theorem leave_enter : L.enter.leave = L := by
  unfold enter leave
  rw [Nat.add_sub_cancel]

theorem enter_depth : L.enter.depth ≠ 0 := Nat.succ_ne_zero _

end Ledger

/-- The ledger of a call whose events begin at position `n`. -/
def Server.ledger (n : Nat) (s : Server) : Ledger := (s.log.zipIdx.drop n).foldl Ledger.step (.holding [])

variable {env : Env} {c : Call} {L : Ledger} {s s' : Server} {n k k' : Nat} {ks : List Nat} {e : Event} {q : Stmt}
  {conn : Option Nat} {confd id : Int}

/-! ## Single calls -/

/-- The call whose events begin at position `n` has come to `s`, with the ledger `L`. -/
structure Keeps (n : Nat) (L : Ledger) (s : Server) : Prop where
  begun : n ≤ s.log.length
  ledger : s.ledger n = L

namespace Keeps

theorem start : Keeps s.log.length (.holding []) s where
  begun := Nat.le_refl _
  ledger := by
    have hdrop : s.log.zipIdx.drop s.log.length = [] := List.drop_of_length_le (Nat.le_of_eq List.length_zipIdx)
    unfold Server.ledger
    rw [hdrop]
    rfl

/-- One more event. -/
theorem event {t : Server} (h : Keeps n L s) (hl : t.log = s.log ++ [e]) :
    Keeps n (L.step (e, s.log.length)) t where
  begun := by
    have hn := h.begun
    rw [hl, List.length_append]
    omega
  ledger := by
    have hn : n ≤ s.log.zipIdx.length := by
      rw [List.length_zipIdx]
      exact h.begun
    rw [← h.ledger]
    unfold Server.ledger
    rw [hl, List.zipIdx_append, List.drop_append_of_le_length hn, List.foldl_append, Nat.zero_add]
    rfl

theorem emit (h : Keeps n L s) (e : Event) : Keeps n (L.step (e, s.log.length)) (s.emit e) := h.event rfl

theorem epollDel (h : Keeps n L s) (fd : Int) : Keeps n L.enter (s.epollDel fd) := h.event (e := .epollDel fd) rfl

theorem delList (h : Keeps n L s) (id : Int) : Keeps n L (s.delList id) := ⟨h.begun, h.ledger⟩

theorem close (h : Keeps n L.enter s) (fd : Int) : Keeps n L (s.close fd) := by
  have hleave : Keeps n L.enter.leave (s.close fd) := h.event (e := .close fd) rfl
  rwa [Ledger.leave_enter] at hleave

/-- A query inside a call of `offline_action`. -/
theorem query_inner (h : Keeps n L s) (hd : L.depth ≠ 0) (env : Env) (q : Stmt) : Keeps n L (s.query env q) := by
  have hq : Keeps n (L.step (.query q (s.answer env q).1, s.log.length)) (s.query env q) := h.event rfl
  rwa [show L.step (.query q (s.answer env q).1, s.log.length) = L from if_neg hd] at hq

theorem query_ok (h : Keeps n (.holding ks) s) (hq : q.go = true) (hok : (s.answer env q).1 = .ok) :
    Keeps n (.holding (s.log.length :: ks)) (s.query env q) := by
  have hstep := h.event (t := s.query env q) rfl
  rw [hok] at hstep
  rwa [show Ledger.step (.holding ks) (.query q .ok, s.log.length) = .holding (s.log.length :: ks) from
    if_pos ⟨hq, rfl⟩] at hstep

/-- A query that fails, or that opens its own connection. -/
theorem query_none (h : Keeps n (.holding ks) s) (hq : ¬ (q.go = true ∧ (s.answer env q).1 = .ok)) :
    Keeps n (.holding ks) (s.query env q) := by
  have hstep := h.event (t := s.query env q) rfl
  rwa [show Ledger.step (.holding ks) (.query q (s.answer env q).1, s.log.length) = .holding ks from
    if_neg hq] at hstep

/-- A row of a result that is held. -/
theorem fetchRow (h : Keeps n L s) (hk : L.depth ≠ 0 ∨ k ∈ L.results) : Keeps n L (s.emit (.fetchRow (some k))) := by
  have hstep : L.step (.fetchRow (some k), s.log.length) = L := by
    by_cases hd : L.depth = 0
    · have hmem : k ∈ L.results := hk.resolve_left (fun hne => hne hd)
      refine (if_pos hd).trans ?_
      simp [Ledger.own, hmem]
    · exact if_neg hd
  rw [← hstep]
  exact h.emit _

/-- An event that is not about a connection. -/
theorem other (h : Keeps n L s) (he : L.step (e, s.log.length) = L) : Keeps n L (s.emit e) := by
  rw [← he]
  exact h.emit _

theorem write (h : Keeps n L s) (fd : Int) (m : Msg) (ok : Bool) : Keeps n L (s.emit (.write fd m ok)) :=
  h.other (ite_self _)

theorem deref (h : Keeps n L s) (env : Env) (p : Node) : Keeps n L (s.deref env p).1 := by
  obtain ⟨b, hb⟩ := deref_fst s env p
  rw [hb]
  exact h.other (ite_self _)

theorem mysqlEnd_inner (h : Keeps n L s) (hd : L.depth ≠ 0) (conn : Option Nat) : Keeps n L (s.mysqlEnd conn) :=
  (h.other (e := .freeResult conn) (if_neg hd)).other (e := .mysqlClose conn) (if_neg hd)

/-- A handler ends with a variable that was never assigned. -/
theorem end_unset (h : Keeps n L s) (hd : L.depth = 0) : ¬ ((s.mysqlEnd none).ledger n).Balanced := by
  have hend := (h.emit (.freeResult none)).emit (.mysqlClose none)
  unfold Server.mysqlEnd
  rw [hend.ledger]
  simp [Ledger.step, Ledger.own, Ledger.Balanced, hd]

/-- It ends with the one connection it holds. -/
theorem end_one (h : Keeps n (.holding [k]) s) : ((s.mysqlEnd (some k)).ledger n).Balanced := by
  have hend := (h.emit (.freeResult (some k))).emit (.mysqlClose (some k))
  unfold Server.mysqlEnd
  rw [hend.ledger]
  simp [Ledger.holding, Ledger.step, Ledger.own, Ledger.Balanced]

/-- It ends with the second of two. -/
theorem end_two (h : Keeps n (.holding [k, k']) s) (hne : k' ≠ k) : ¬ ((s.mysqlEnd (some k)).ledger n).Balanced := by
  have hend := (h.emit (.freeResult (some k))).emit (.mysqlClose (some k))
  unfold Server.mysqlEnd
  rw [hend.ledger]
  simp [Ledger.holding, Ledger.step, Ledger.own, Ledger.Balanced, hne]

theorem balanced_close (h : Keeps n L s) (fd : Int) :
    ((s.close fd).ledger n).Balanced ↔ (s.ledger n).Balanced := by
  have hclose := h.event (e := .close fd) (t := s.close fd) rfl
  rw [hclose.ledger, h.ledger]
  exact Iff.rfl

end Keeps

/-! ## Calls of `offline_action` on the way -/

/-- A loop over rows is in a call of `offline_action`, or reads a result that is held. -/
def Call.Shielded (L : Ledger) : Call → Prop
  | .notify _ k _ => L.depth ≠ 0 ∨ k ∈ L.results
  | _ => True

/-- The ledger is as before when a call has returned. -/
theorem Cascade.keeps (h : Cascade env c s s') (hk : Keeps n L s) (hc : c.Shielded L) : Keeps n L s' := by
  induction h generalizing L with
  | @offlineNeg confd id s _ => exact (hk.epollDel confd).close confd
  | @offlineRows confd id k s s₁ s₂ _ _ _ _ ih₁ ih₂ =>
    have hcut : Keeps n L.enter (cut env confd id s) :=
      ((hk.epollDel confd).delList id).query_inner Ledger.enter_depth env _
    have htold : Keeps n L.enter s₂ := ih₂ (ih₁ hcut (Or.inl Ledger.enter_depth)) trivial
    exact (htold.mysqlEnd_inner Ledger.enter_depth _).close confd
  | @offlineNoDb confd id s s₁ _ _ _ ih =>
    have hcut : Keeps n L.enter (cut env confd id s) :=
      ((hk.epollDel confd).delList id).query_inner Ledger.enter_depth env _
    exact ((ih hcut trivial).mysqlEnd_inner Ledger.enter_depth _).close confd
  | notifyEnd => exact hk.fetchRow hc
  | notifySkip _ _ ih => exact ih (hk.fetchRow hc) hc
  | notifySend _ _ _ ih₁ ih₂ => exact ih₂ (ih₁ ((hk.fetchRow hc).other (ite_self _)) trivial) hc
  | writeOk _ => exact hk.write _ _ _
  | writeFail _ _ ih => exact ih (hk.write _ _ _) trivial

theorem Keeps.writeServer (h : Keeps n L s) (env : Env) (fd : Int) (m : Msg) : Keeps n L (s.writeServer env fd m).1 :=
  cascade_writeServer.keeps h trivial

theorem Keeps.offlineAction (h : Keeps n L s) (env : Env) (confd id : Int) : Keeps n L (s.offlineAction env confd id) :=
  cascade_offlineAction.keeps h trivial

/-! ## The handlers -/

/-- `offline_action` keeps its ledger from its `epoll_ctl` on. -/
def Server.begins (s : Server) : Frame → Nat
  | .offline _ => s.log.length + 1
  | _ => s.log.length

/-- The state in which `register_action` has read the row of the new user. -/
def maxSelected (env : Env) (user : User) (s : Server) : Server :=
  let s := s.query env (.insertUser user.username user.password)
  (s.query env .selectMaxUser).emit (.fetchRow (some s.log.length))

/-- The answers on which the handlers keep their connections balanced. -/
def Server.Settles (env : Env) (confd : Int) (s : Server) : Frame → Prop
  | .register user =>
    ((s.query env (.insertUser user.username user.password)).answer env .selectMaxUser).1 = .ok ∧
      ∀ row, (maxSelected env user s).db.maxUser = some row →
        ((maxSelected env user s).answer env (.createTable row.id)).1 ≠ .ok
  | .login user =>
    let s₁ := lookedUp env user s.log.length s
    (s.answer env (.selectUser user.id)).1 = .ok ∧
      ¬ (s.Admits user ∧ ∃ addr, env.getpeername s₁.log confd = some addr ∧
        ((greeted env confd user addr s₁).answer env (.selectFriends user.id)).1 = .ok)
  | .offline id => id < 0 ∨ ((s.epollDel confd).answer env (.selectFriends id)).1 = .ok
  | .addFriend _ _ => False
  | .allowAddf src dst verdict =>
    verdict ≠ 1 ∨ ((s.answer env (.insertFriend src dst)).1 = .ok ↔
      ¬ ((s.query env (.insertFriend src dst)).answer env (.insertFriend dst src)).1 = .ok)
  | _ => True

/-- **`register_action`** leaves its first connection open when the table is created. -/
theorem registerAction_balanced (env : Env) (confd : Int) (user : User) (s : Server) :
    ((s.registerAction env confd user).ledger s.log.length).Balanced ↔ s.Settles env confd (.register user) := by
  have hinsert : Keeps s.log.length (.holding []) (s.query env (.insertUser user.username user.password)) :=
    Keeps.start.query_none fun h => Bool.false_ne_true h.1
  unfold registerAction mysqlGo Server.Settles maxSelected
  dsimp only
  generalize s.query env (.insertUser user.username user.password) = s₀ at hinsert ⊢
  by_cases hok : (s₀.answer env .selectMaxUser).1 = .ok
  swap
  · rw [if_neg hok]
    have hreply := (hinsert.query_none fun h => hok h.2).writeServer env confd (.registerSuccess (-1))
    exact iff_of_false (hreply.end_unset rfl) fun h => hok h.1
  rw [if_pos hok]
  dsimp only
  have hrow := (hinsert.query_ok rfl hok).fetchRow (k := s₀.log.length) (Or.inr (List.mem_singleton_self _))
  have hlen : s₀.log.length ≠ ((s₀.query env .selectMaxUser).emit (.fetchRow (some s₀.log.length))).log.length := by
    rw [emit_log, query_log, List.length_append, List.length_append]
    simp only [List.length_singleton]
    omega
  generalize (s₀.query env .selectMaxUser).emit (.fetchRow (some s₀.log.length)) = s₁ at hrow hlen ⊢
  cases hmax : s₁.db.maxUser with
  | none =>
    -- the process crashes before it returns
    have hcrash := (hrow.emit .crash).ledger
    refine iff_of_true ?_ ⟨hok, fun row h => absurd h (by simp)⟩
    rw [hcrash]
    exact ⟨rfl, fun h => absurd h Bool.false_ne_true⟩
  | some row =>
    dsimp only
    by_cases hcreate : (s₁.answer env (.createTable row.id)).1 = .ok
    · rw [if_pos hcreate]
      have hreply := (hrow.query_ok rfl hcreate).writeServer env confd (.registerSuccess row.id)
      exact iff_of_false (hreply.end_two hlen) fun h => h.2 row rfl hcreate
    · rw [if_neg hcreate]
      have hreply := (hrow.query_none fun h => hcreate h.2).writeServer env confd (.registerSuccess (-1))
      refine iff_of_true hreply.end_one ⟨hok, ?_⟩
      rintro _ ⟨⟩
      exact hcreate

theorem exchangeOnline_keeps (env : Env) (confd : Int) (temp : OnlineNode) (rows : List Int) (h : Keeps n L s)
    (hk : k ∈ L.results) : Keeps n L (s.exchangeOnline env confd temp (some k) rows) := by
  induction rows generalizing s with
  | nil => exact h.fetchRow (Or.inr hk)
  | cons f rows ih =>
    have hrow := h.fetchRow (Or.inr hk)
    simp only [exchangeOnline]
    split
    · exact ih hrow
    rename_i p _
    have hsent := (hrow.deref env p).writeServer env
      ((s.emit (.fetchRow (some k))).deref env p).2.sockfd (.online temp)
    split
    · exact ih hsent
    have hread := hsent.deref env p
    split
    · exact hread.writeServer env _ _
    · exact ih (hread.writeServer env _ _)

/-- **A session that is opened** leaves the first connection open when its friends can be read. -/
theorem openSession_balanced (env : Env) (confd : Int) (user : User) (h : Keeps n (.holding [k]) s)
    (hlt : k < s.log.length) :
    ((s.openSession env confd user (some k)).ledger n).Balanced ↔
      ¬ ∃ addr, env.getpeername s.log confd = some addr ∧
        ((greeted env confd user addr s).answer env (.selectFriends user.id)).1 = .ok := by
  cases hpeer : env.getpeername s.log confd with
  | none =>
    -- the one connection is still in `mysql_conn` and is closed behind the teardown
    have hclosed := (h.other (e := .getpeername confd false) rfl).offlineAction env confd (-1)
    rw [openSession_unnamed user (some k) hpeer]
    exact iff_of_true hclosed.end_one fun ⟨addr, haddr, _⟩ => by cases haddr
  | some addr =>
    have hnamed := h.other (e := .getpeername confd true) rfl
    have hadded : Keeps n (.holding [k]) (withSession confd user addr s) := ⟨hnamed.begun, hnamed.ledger⟩
    have hgreeted : Keeps n (.holding [k]) (greeted env confd user addr s) := hadded.writeServer env _ _
    have hlen : s.log.length ≤ (greeted env confd user addr s).log.length := by
      have hext : (withSession confd user addr s).log <+: (greeted env confd user addr s).log :=
        cascade_writeServer.log_extends
      exact ((List.prefix_append s.log [_]).trans hext).length_le
    by_cases hok : ((greeted env confd user addr s).answer env (.selectFriends user.id)).1 = .ok
    · have hrows := exchangeOnline_keeps env confd ⟨user.id, confd, addr⟩
        (((greeted env confd user addr s).query env (.selectFriends user.id)).db.friends user.id)
        (hgreeted.query_ok rfl hok) List.mem_cons_self
      -- the second connection was opened later, so it is another one
      rw [openSession_friends (some k) hpeer hok]
      refine iff_of_false (hrows.end_two ?_) fun hno => hno ⟨addr, rfl, hok⟩
      omega
    · have hcut := (hgreeted.query_none fun h => hok h.2).offlineAction env confd user.id
      rw [openSession_friendless (some k) hpeer hok]
      refine iff_of_true hcut.end_one ?_
      rintro ⟨_, ⟨⟩, h⟩
      exact hok h

/-- **`login_action`** is balanced when it refuses the user, and when it closes the session again. -/
theorem loginAction_balanced (env : Env) (confd : Int) (user : User) (s : Server) :
    ((s.loginAction env confd user).ledger s.log.length).Balanced ↔ s.Settles env confd (.login user) := by
  have hrow : (s.answer env (.selectUser user.id)).1 = .ok →
      Keeps s.log.length (.holding [s.log.length]) (lookedUp env user s.log.length s) :=
    fun hok => (Keeps.start.query_ok rfl hok).fetchRow (Or.inr (List.mem_singleton_self _))
  unfold Server.Settles
  dsimp only
  by_cases had : s.Admits user ∧ (s.answer env (.selectUser user.id)).1 = .ok
  · -- the session is opened
    have hlt : s.log.length < (lookedUp env user s.log.length s).log.length := by
      unfold lookedUp
      rw [emit_log, query_log, List.length_append, List.length_append]
      simp only [List.length_singleton]
      omega
    rw [loginAction_admitted (answer_ok had.2) had.1]
    refine (openSession_balanced env confd user (hrow had.2) hlt).trans ?_
    simp [had.1, had.2]
  · rcases loginAction_refused had with ⟨hno, heq⟩ | ⟨hok, flag, heq⟩
    · have hnone := Keeps.start.query_none (s := s) (q := .selectUser user.id) fun h => hno h.2
      rw [heq]
      exact iff_of_false ((hnone.writeServer env confd _).end_unset rfl) fun h => hno h.1
    · rw [heq]
      exact iff_of_true ((hrow hok).writeServer env confd _).end_one ⟨hok, fun h => had ⟨h.1, hok⟩⟩

/-- The connection of the select of `offline_action`. -/
theorem cutConn_eq : cutConn env confd id s =
    if ((s.epollDel confd).answer env (.selectFriends id)).1 = .ok then some (s.log.length + 1) else none := by
  have hlen : ((s.epollDel confd).delList id).log.length = s.log.length + 1 := by
    rw [delList_log, epollDel_log, List.length_append]
    rfl
  unfold cutConn mysqlGo
  rw [hlen]
  rfl

/-- **`offline_action`** releases what it never assigned when its select fails. -/
theorem offlineAction_balanced (env : Env) (confd id : Int) (s : Server) :
    ((s.offlineAction env confd id).ledger (s.log.length + 1)).Balanced ↔ s.Settles env confd (.offline id) := by
  have hlen : (s.epollDel confd).log.length = s.log.length + 1 := by
    rw [epollDel_log, List.length_append]
    rfl
  have hbegin : Keeps (s.log.length + 1) (.holding []) (s.epollDel confd) := hlen ▸ Keeps.start
  have hdeleted : Keeps (s.log.length + 1) (.holding []) ((s.epollDel confd).delList id) := hbegin.delList id
  have hcall : Cascade env (.offline confd id) s (s.offlineAction env confd id) := cascade_offlineAction
  generalize s.offlineAction env confd id = s' at hcall ⊢
  cases hcall with
  | offlineNeg hneg =>
    -- no query at all
    rw [hbegin.balanced_close, hbegin.ledger]
    exact iff_of_true ⟨rfl, fun _ => rfl⟩ (Or.inl hneg)
  | offlineRows hid hconn htold hwrite =>
    rw [cutConn_eq] at hconn
    split at hconn
    · rename_i hok
      cases hconn
      have hcut : Keeps (s.log.length + 1) (.holding [s.log.length + 1]) (cut env confd id s) :=
        hlen ▸ hdeleted.query_ok rfl hok
      have hsent := hwrite.keeps (htold.keeps hcut (Or.inr (List.mem_singleton_self _))) trivial
      refine (((hsent.emit _).emit _).balanced_close confd).trans ?_
      exact iff_of_true hsent.end_one (Or.inr hok)
    · cases hconn
  | offlineNoDb hid hconn hwrite =>
    rw [cutConn_eq] at hconn
    split at hconn
    · cases hconn
    · rename_i hno
      have hcut : Keeps (s.log.length + 1) (.holding []) (cut env confd id s) :=
        hdeleted.query_none fun h => hno h.2
      have hsent := hwrite.keeps hcut trivial
      refine (((hsent.emit _).emit _).balanced_close confd).trans ?_
      -- `res` and `mysql_conn` were never assigned
      refine iff_of_false (hsent.end_unset rfl) ?_
      rintro (hneg | hok)
      · omega
      · exact hno hok

/-- **`add_friend_action`** is balanced never: a connection it opens stays open, and the row is read also
when there is none. -/
theorem addFriendAction_unbalanced (env : Env) (confd src dst : Int) (s : Server) :
    ¬ ((s.addFriendAction env confd src dst).ledger s.log.length).Balanced := by
  unfold addFriendAction mysqlGo
  dsimp only
  by_cases hok : (s.answer env (.selectFriend src dst)).1 = .ok
  · have hrow := (Keeps.start.query_ok rfl hok).fetchRow (k := s.log.length) (Or.inr (List.mem_singleton_self _))
    -- whatever is sent, the handler returns with the connection in hand
    have hopen : ∀ {t : Server}, Keeps s.log.length (.holding [s.log.length]) t →
        ¬ (t.ledger s.log.length).Balanced := by
      intro t ht hb
      rw [ht.ledger] at hb
      cases hb.2 rfl
    rw [if_pos hok]
    dsimp only
    split
    · exact hopen (hrow.writeServer env _ _)
    · split
      · exact hopen (hrow.writeServer env _ _)
      · exact hopen ((hrow.deref env _).writeServer env _ _)
  · have hnone := (Keeps.start.query_none (s := s) fun h => hok h.2).emit (.fetchRow none)
    rw [if_neg hok]
    dsimp only
    intro hb
    rw [(hnone.writeServer env _ _).ledger] at hb
    exact Bool.false_ne_true hb.1

theorem answerRequest_keeps (env : Env) (psrc : Option Node) (src dst verdict : Int) (h : Keeps n L s) :
    Keeps n L (s.answerRequest env psrc src dst verdict) := by
  unfold answerRequest
  cases psrc with
  | none => exact h
  | some p => exact (h.deref env p).writeServer env _ _

theorem introduce_keeps (env : Env) (psrc pdst : Option Node) (h : Keeps n L s) :
    Keeps n L (s.introduce env psrc pdst) := by
  unfold introduce
  split
  · exact (((((h.deref env _).deref env _).writeServer env _ _).deref env _).deref env _).writeServer env _ _
  · exact h

/-- **`allow_addf_action`** of a verdict is balanced when exactly one of its inserts succeeds. -/
theorem allowAddfAction_balanced (env : Env) (confd src dst verdict : Int) (s : Server) :
    ((s.allowAddfAction env src dst verdict).ledger s.log.length).Balanced ↔
      s.Settles env confd (.allowAddf src dst verdict) := by
  unfold allowAddfAction mysqlGo Server.Settles
  dsimp only
  by_cases hv : verdict = 1
  swap
  · rw [if_neg hv]
    refine iff_of_true ?_ (Or.inl hv)
    have hsame : Keeps s.log.length (.holding [])
        (if verdict = 0 then s.answerRequest env (s.pOnline.searchList src .byId) src dst verdict else s) := by
      split
      · exact answerRequest_keeps env _ _ _ _ .start
      · exact .start
    rw [hsame.ledger]
    exact ⟨rfl, fun _ => rfl⟩
  rw [if_pos hv]
  -- the answers leave the ledger alone, whatever the inserts came to
  have hanswered : ∀ {ks : List Nat} {t : Server} (b : Bool), Keeps s.log.length (.holding ks) t →
      Keeps s.log.length (.holding ks)
        (if b = true then (t.answerRequest env (s.pOnline.searchList src .byId) src dst verdict).introduce env
          (s.pOnline.searchList src .byId) (s.pOnline.searchList dst .byId)
        else t.answerRequest env (s.pOnline.searchList src .byId) src dst 3) := by
    intro ks t b ht
    split
    · exact introduce_keeps env _ _ (answerRequest_keeps env _ _ _ _ ht)
    · exact answerRequest_keeps env _ _ _ _ ht
  have hlen : s.log.length ≠ (s.query env (.insertFriend src dst)).log.length := by
    rw [query_log, List.length_append]
    simp only [List.length_singleton]
    omega
  by_cases hok : (s.answer env (.insertFriend src dst)).1 = .ok
  · have hfirst := Keeps.start.query_ok (q := .insertFriend src dst) rfl hok
    rw [if_pos hok]
    by_cases hok2 : ((s.query env (.insertFriend src dst)).answer env (.insertFriend dst src)).1 = .ok
    · rw [if_pos hok2]
      refine iff_of_false ((hanswered _ (hfirst.query_ok rfl hok2)).end_two hlen) ?_
      simp [hv, hok, hok2]
    · rw [if_neg hok2]
      refine iff_of_true (hanswered _ (hfirst.query_none fun h => hok2 h.2)).end_one ?_
      simp [hok, hok2]
  · have hfirst := Keeps.start.query_none (s := s) (q := .insertFriend src dst) fun h => hok h.2
    rw [if_neg hok]
    by_cases hok2 : ((s.query env (.insertFriend src dst)).answer env (.insertFriend dst src)).1 = .ok
    · rw [if_pos hok2]
      refine iff_of_true (hanswered _ (hfirst.query_ok rfl hok2)).end_one ?_
      simp [hok, hok2]
    · rw [if_neg hok2]
      refine iff_of_false ((hanswered _ (hfirst.query_none fun h => hok2 h.2)).end_unset rfl) ?_
      simp [hv, hok, hok2]

/-- **The MySQL connections of a handler are balanced** on these answers, and on no others. -/
theorem mysql_balanced (env : Env) (confd : Int) (f : Frame) (s : Server) :
    ((s.analysisReceive env confd f).ledger (s.begins f)).Balanced ↔ s.Settles env confd f := by
  cases f with
  | register user => exact registerAction_balanced env confd user s
  | login user => exact loginAction_balanced env confd user s
  | offline id => exact offlineAction_balanced env confd id s
  | addFriend src dst => exact iff_of_false (addFriendAction_unbalanced env confd src dst s) id
  | allowAddf src dst verdict => exact allowAddfAction_balanced env confd src dst verdict s
  | heartbeat _ =>
    refine iff_of_true ?_ trivial
    show (s.ledger s.log.length).Balanced
    rw [Keeps.start.ledger]
    exact ⟨rfl, fun _ => rfl⟩
  | other _ =>
    refine iff_of_true ?_ trivial
    show (s.ledger s.log.length).Balanced
    rw [Keeps.start.ledger]
    exact ⟨rfl, fun _ => rfl⟩

/-- **A registration in which nothing fails** leaves a connection open. -/
theorem mysql_unbalanced :
    ¬ (((boot pairDb).analysisReceive calm 5 (.register ⟨0, [97], [98]⟩)).ledger 0).Balanced := by decide

end UnixNote
