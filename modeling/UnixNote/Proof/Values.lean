import UnixNote.Proof.Encoding
import UnixNote.Proof.Messages

/-!
# Everything the server writes has room in its frame

The ids in its messages come from the frame it handles, from its list or from the table `user`, the nodes from its
list or from freed memory: where all of these fit (`Server.Fits`, `Env.Fits`), so does every message that a handler
writes, and the list and the table fit again (`act_fits`).
-/

namespace UnixNote

open Server

/-- Addresses from `getpeername`, and freed memory, are of the size of their types. -/
structure Env.Fits (env : Env) : Prop where
  getpeername : ∀ log fd addr, env.getpeername log fd = some addr → addr.Fits
  stale : ∀ log ref, (env.stale log ref).Fits

/-- The nodes and the rows have room in their fields. -/
structure Server.Fits (s : Server) : Prop where
  nodes : ∀ n ∈ s.pOnline.nodes, n.toOnlineNode.Fits
  db : s.db.Fits

/-- From `s` on only messages that fit were written, and what is stored fits again. -/
structure Fitting (s s' : Server) : Prop where
  fits : s'.Fits
  writes : Writes (fun _ m => m.Fits) s s'

variable {env : Env} {s s' s₁ : Server} {fd confd id src dst : Int} {m : Msg} {q : Stmt} {e : Event} {p : Node}
  {rows : List Int} {conn : Option Nat} {c : Call}

/-! ## Teardowns -/

/-- The arguments of a call. -/
def Call.Fits : Call → Prop
  | .offline _ id => CInt.InRange id
  | .notify id _ _ => CInt.InRange id
  | .write _ m => m.Fits

theorem sessionId_inRange (h : ∀ n ∈ s.pOnline.nodes, n.toOnlineNode.Fits) : CInt.InRange (s.sessionId fd) := by
  unfold sessionId
  cases hp : s.pOnline.searchList fd .bySockfd with
  | none => decide
  | some p => exact (h p (OnlineList.searchSockfd_some hp).1).id

/-- **A teardown** writes ids of the list, and the message whose write failed. -/
theorem Cascade.writes_fit (h : Cascade env c s s') (hs : ∀ n ∈ s.pOnline.nodes, n.toOnlineNode.Fits)
    (hc : c.Fits) : Writes (fun _ m => m.Fits) s s' := by
  induction h with
  | @offlineNeg confd id s _ =>
    refine Writes.quiet [.epollDel confd, .close confd] ?_ rfl
    simp only [close_log, epollDel_log, List.append_assoc, List.cons_append, List.nil_append]
  | @offlineRows confd id c s s₁ s₂ _ _ htold _ ih₁ ih₂ =>
    have hcut : ∀ n ∈ (cut env confd id s).pOnline.nodes, n.toOnlineNode.Fits :=
      fun n hn => hs n ((OnlineList.delList_sublist .byId).subset hn)
    have htold' : ∀ n ∈ s₁.pOnline.nodes, n.toOnlineNode.Fits := fun n hn => hcut n (htold.sublist.subset hn)
    exact ((Writes.cut.trans (ih₁ hcut hc)).trans (ih₂ htold' trivial)).trans (Writes.release _)
  | offlineNoDb _ _ _ ih =>
    have hcut := ih (fun n hn => hs n ((OnlineList.delList_sublist .byId).subset hn)) trivial
    exact (Writes.cut.trans hcut).trans (Writes.release _)
  | @notifyEnd _ c _ => exact Writes.quiet [.fetchRow (some c)] rfl rfl
  | @notifySkip _ _ c _ _ _ _ _ ih => exact (Writes.quiet [.fetchRow (some c)] rfl rfl).trans (ih hs hc)
  | @notifySend id f c _ p s s₁ _ _ hsent _ ih₁ ih₂ =>
    have h₀ : Writes (fun _ m => m.Fits) s ((s.emit (.fetchRow (some c))).emit (.deref p.ref true)) :=
      Writes.quiet [.fetchRow (some c), .deref p.ref true] (by simp) rfl
    have hsent' : ∀ n ∈ s₁.pOnline.nodes, n.toOnlineNode.Fits := fun n hn => hs n (hsent.sublist.subset hn)
    exact (h₀.trans (ih₁ hs hc)).trans (ih₂ hsent' hc)
  | writeOk _ => exact Writes.write hc
  | writeFail _ _ ih => exact (Writes.write hc).trans (ih hs (sessionId_inRange hs))

/-! ## Single calls -/

/-- No string of a row has a NUL. -/
theorem Database.rows_nul {db : Database} {username password : CStr} (hp : 0 ∉ password) :
    ∀ row ∈ db.rows username password, 0 ∉ row.2 := by
  intro row hrow
  unfold rows at hrow
  split at hrow
  · obtain rfl := List.mem_singleton.1 hrow
    exact hp
  · obtain ⟨r, -, rfl⟩ := List.mem_map.1 hrow
    -- a string of a field ends before its first NUL
    exact fun hmem => by simpa using List.all_eq_true.1 List.all_takeWhile 0 hmem

/-- An insert adds rows whose ids are `int`s. -/
theorem Database.addRows_fits {rs : List (CStr × CStr)} : ∀ {db : Database}, db.Fits → -2147483648 ≤ db.nextId →
    db.nextId + rs.length ≤ 2147483648 → (∀ row ∈ rs, 0 ∉ row.2) → (rs.foldl addRow db).Fits := by
  induction rs with
  | nil => exact fun h _ _ _ => h
  | cons row rs ih =>
    intro db h hlow hhigh hnul
    rw [List.length_cons] at hhigh
    have hid : CInt.InRange db.nextId := ⟨by omega, by omega⟩
    have hrow : (db.addRow row).Fits := by
      intro u hu
      rcases List.mem_append.1 hu with hu | hu
      · exact h u hu
      · obtain rfl := List.mem_singleton.1 hu
        exact ⟨hid, hnul row List.mem_cons_self⟩
    refine ih hrow (Int.le_add_one hlow) ?_ fun r hr => hnul r (List.mem_cons_of_mem _ hr)
    show db.nextId + 1 + (rs.length : Int) ≤ _
    omega

/-- Only an insert adds rows to the table `user`. -/
theorem Database.exec_fits {db : Database} (h : db.Fits)
    (hq : ∀ username password, q = .insertUser username password → CInt.InRange db.nextId ∧ 0 ∉ password) :
    (db.exec q).2.Fits := by
  cases q with
  | insertUser username password =>
    obtain ⟨hid, hnul⟩ := hq username password rfl
    rcases exec_insertUser username password db with herr | ⟨-, hbound, heq⟩
    · rw [herr]
      exact h
    · rw [heq]
      exact addRows_fits h hid.1 hbound (rows_nul hnul)
  | selectUser id => exact h
  | selectMaxUser => exact h
  | createTable id =>
    simp only [Database.exec]
    split <;> exact h
  | selectFriends id =>
    simp only [Database.exec]
    split <;> exact h
  | selectFriend src dst =>
    simp only [Database.exec]
    split <;> exact h
  | insertFriend src dst =>
    simp only [Database.exec]
    split
    · exact h
    · split <;> exact h

namespace Fitting

theorem refl (h : s.Fits) : Fitting s s := ⟨h, Writes.refl⟩

theorem emit (h : Fitting s s') (he : e.quiet = true) : Fitting s (s'.emit e) :=
  ⟨⟨h.fits.nodes, h.fits.db⟩, h.writes.trans (Writes.quiet [e] rfl (by simpa using he))⟩

theorem query (h : Fitting s s')
    (hq : ∀ username password, q = .insertUser username password → CInt.InRange s'.db.nextId ∧ 0 ∉ password) :
    Fitting s (s'.query env q) := by
  refine ⟨⟨h.fits.nodes, ?_⟩, h.writes.trans (Writes.quiet [_] rfl rfl)⟩
  show (s'.answer env q).2.Fits
  unfold answer
  split
  · exact Database.exec_fits h.fits.db hq
  · exact h.fits.db

theorem write (h : Fitting s s') (env : Env) (fd : Int) (hm : m.Fits) : Fitting s (s'.writeServer env fd m).1 := by
  have hcall : Cascade env (.write fd m) s' (s'.writeServer env fd m).1 := cascade_writeServer
  refine ⟨⟨fun n hn => h.fits.nodes n (hcall.sublist.subset hn), ?_⟩,
    h.writes.trans (hcall.writes_fit h.fits.nodes hm)⟩
  rw [hcall.db_eq]
  exact h.fits.db

theorem offline (h : Fitting s s') (hid : CInt.InRange id) : Fitting s (s'.offlineAction env confd id) := by
  have hcall : Cascade env (.offline confd id) s' (s'.offlineAction env confd id) := cascade_offlineAction
  refine ⟨⟨fun n hn => h.fits.nodes n (hcall.sublist.subset hn), ?_⟩,
    h.writes.trans (hcall.writes_fit h.fits.nodes hid)⟩
  rw [hcall.db_eq]
  exact h.fits.db

theorem mysqlEnd (h : Fitting s s') (conn : Option Nat) : Fitting s (s'.mysqlEnd conn) := (h.emit rfl).emit rfl

/-- Behind a pointer is a node that fits: the one it was taken to, or freed memory. -/
theorem deref (h : Fitting s s') (henv : env.Fits) (hp : p.toOnlineNode.Fits) :
    Fitting s (s'.deref env p).1 ∧ (s'.deref env p).2.Fits := by
  unfold Server.deref
  split
  · exact ⟨h.emit rfl, hp⟩
  · exact ⟨h.emit rfl, henv.stale _ _⟩

end Fitting

/-! ## Handlers -/

variable {user : User} {temp : OnlineNode} {verdict : Int} {psrc pdst : Option Node}

/-- A statement that is no insert of a user. -/
theorem Fitting.select (h : Fitting s s') (env : Env) (hq : ∀ username password, q ≠ .insertUser username password) :
    Fitting s (s'.query env q) :=
  h.query fun username password heq => absurd heq (hq username password)

theorem registerAction_fitting (h : s.Fits) (hid : CInt.InRange s.db.nextId) (hpwd : 0 ∉ user.password) :
    Fitting s (s.registerAction env confd user) := by
  have hreply : ∀ {t : Server} {id : Int} {c : Option Nat}, Fitting s t → CInt.InRange id →
      Fitting s (t.registerReply env confd id c) :=
    fun ht hid => (ht.write env confd (m := .registerSuccess _) hid).mysqlEnd _
  have hinsert : Fitting s (s.query env (.insertUser user.username user.password)) := by
    refine (Fitting.refl h).query fun username password heq => ?_
    cases heq
    exact ⟨hid, hpwd⟩
  have hselect := hinsert.select env (q := .selectMaxUser) nofun
  unfold registerAction mysqlGo
  dsimp only
  split
  · exact hreply hselect (by decide)
  rename_i c _
  split
  · exact (hselect.emit rfl).emit rfl
  rename_i row hmax
  have hrow : CInt.InRange row.id := (hselect.fits.db row (Database.maxUser_mem hmax)).1
  have hcreate := (hselect.emit (e := .fetchRow (some c)) rfl).select env (q := .createTable row.id) nofun
  split
  · exact hreply hcreate hrow
  · exact hreply hcreate (by decide)

/-- Both `OP_ONLINE` carry a node that fits. -/
theorem exchangeOnline_fitting (henv : env.Fits) (htemp : temp.Fits) (h : Fitting s s') :
    Fitting s (s'.exchangeOnline env confd temp conn rows) := by
  induction rows generalizing s' with
  | nil => exact h.emit rfl
  | cons f rows ih =>
    simp only [exchangeOnline]
    split
    · exact ih (h.emit rfl)
    rename_i p hp
    have hfit : p.toOnlineNode.Fits := h.fits.nodes p (OnlineList.searchId_some hp).1
    have htold := ((h.emit (e := .fetchRow conn) rfl).deref henv hfit).1.write env
      ((s'.emit (.fetchRow conn)).deref env p).2.sockfd (m := .online temp) htemp
    split
    · exact ih htold
    obtain ⟨hread, hnode⟩ := htold.deref henv hfit
    split
    · exact hread.write env confd hnode
    · exact ih (hread.write env confd hnode)

theorem openSession_fitting (henv : env.Fits) (h : Fitting s s') (hid : CInt.InRange user.id)
    (hfd : CInt.InRange confd) : Fitting s (s'.openSession env confd user conn) := by
  unfold openSession mysqlGo
  split
  · exact ((h.emit rfl).offline (by decide)).mysqlEnd _
  rename_i addr haddr
  have htemp : OnlineNode.Fits ⟨user.id, confd, addr⟩ := ⟨hid, hfd, henv.getpeername _ _ _ haddr⟩
  have hadd : Fitting s ((s'.emit (.getpeername confd true)).addList ⟨user.id, confd, addr⟩) := by
    have hpeer := h.emit (e := .getpeername confd true) rfl
    refine ⟨⟨fun n hn => ?_, hpeer.fits.db⟩, hpeer.writes⟩
    rcases List.mem_cons.1 hn with rfl | hn
    · exact htemp
    · exact h.fits.nodes n hn
  have hgreet := (hadd.write env confd (m := .loginFeedback 0) CInt.inRange_zero).select env
    (q := .selectFriends user.id) nofun
  dsimp only
  split
  · exact (exchangeOnline_fitting henv htemp hgreet).mysqlEnd _
  · exact (hgreet.offline hid).mysqlEnd _

theorem loginAction_fitting (henv : env.Fits) (h : s.Fits) (hid : CInt.InRange user.id) (hfd : CInt.InRange confd) :
    Fitting s (s.loginAction env confd user) := by
  have hreply : ∀ {t : Server} {flag : Int} {c : Option Nat}, Fitting s t → CInt.InRange flag →
      Fitting s (t.loginReply env confd flag c) := fun ht hflag =>
    (ht.write env confd (m := .loginFeedback _) hflag).mysqlEnd _
  have hselect := (Fitting.refl h).select env (q := .selectUser user.id) nofun
  unfold loginAction mysqlGo
  dsimp only
  split
  · exact hreply hselect (by decide)
  rename_i c _
  have hrow := hselect.emit (e := .fetchRow (some c)) rfl
  split
  · exact hreply hrow (by decide)
  split
  · exact hreply hrow (by decide)
  split
  · exact hreply hrow (by decide)
  · exact openSession_fitting henv hrow hid hfd

theorem addFriendAction_fitting (henv : env.Fits) (h : s.Fits) (hsrc : CInt.InRange src) (hdst : CInt.InRange dst) :
    Fitting s (s.addFriendAction env confd src dst) := by
  have hselect : ∀ c, Fitting s ((s.query env (.selectFriend src dst)).emit (.fetchRow c)) :=
    fun c => ((Fitting.refl h).select env (q := .selectFriend src dst) nofun).emit rfl
  have hanswer : ∀ v, CInt.InRange v → (Msg.allowAddf src dst v).Fits := fun v hv => ⟨hsrc, hdst, hv⟩
  have hask : (Msg.addFriend src dst).Fits := ⟨hsrc, hdst⟩
  unfold addFriendAction mysqlGo
  dsimp only
  generalize (if (s.answer env (.selectFriend src dst)).1 = .ok then some s.log.length else none) = conn
  cases conn with
  | none => exact (hselect _).write env confd (hanswer 3 (by decide))
  | some c =>
    dsimp only
    split
    · exact (hselect _).write env confd (hanswer 4 (by decide))
    cases hp : s.pOnline.searchList dst .byId with
    | none => exact (hselect _).write env confd (hanswer 2 (by decide))
    | some p => exact ((hselect _).deref henv (h.nodes p (OnlineList.searchId_some hp).1)).1.write env _ hask

theorem answerRequest_fitting (henv : env.Fits) (h : Fitting s s') (hp : ∀ p, psrc = some p → p.toOnlineNode.Fits)
    (hm : (Msg.allowAddf src dst verdict).Fits) : Fitting s (s'.answerRequest env psrc src dst verdict) := by
  unfold answerRequest
  split
  · exact h
  · exact (h.deref henv (hp _ rfl)).1.write env _ hm

theorem introduce_fitting (henv : env.Fits) (h : Fitting s s') (hsrc : ∀ p, psrc = some p → p.toOnlineNode.Fits)
    (hdst : ∀ p, pdst = some p → p.toOnlineNode.Fits) : Fitting s (s'.introduce env psrc pdst) := by
  unfold introduce
  split
  · rename_i psrc pdst
    have hs : psrc.toOnlineNode.Fits := hsrc _ rfl
    have hd : pdst.toOnlineNode.Fits := hdst _ rfl
    obtain ⟨h₁, hnode₁⟩ := (h.deref henv hs).1.deref henv hd
    obtain ⟨h₂, hnode₂⟩ := ((h₁.write env (s'.deref env psrc).2.sockfd (m := .online _)
      hnode₁).deref henv hd).1.deref henv hs
    exact h₂.write env _ hnode₂
  · exact h

theorem allowAddfAction_fitting (henv : env.Fits) (h : s.Fits) (hm : (Msg.allowAddf src dst verdict).Fits) :
    Fitting s (s.allowAddfAction env src dst verdict) := by
  have hfound : ∀ {x : Int} p, s.pOnline.searchList x .byId = some p → p.toOnlineNode.Fits :=
    fun p hp => h.nodes p (OnlineList.searchId_some hp).1
  have hinserts := ((Fitting.refl h).select env (q := .insertFriend src dst) nofun).select env
    (q := .insertFriend dst src) nofun
  unfold allowAddfAction mysqlGo
  dsimp only
  split
  · generalize (if (s.answer env (.insertFriend src dst)).1 = .ok then some s.log.length else none) = ret
    refine Fitting.mysqlEnd ?_ _
    generalize (if ((s.query env (.insertFriend src dst)).answer env (.insertFriend dst src)).1 = .ok then
      some (s.query env (.insertFriend src dst)).log.length else none) = ret2
    split
    · exact introduce_fitting henv (answerRequest_fitting henv hinserts hfound hm) hfound hfound
    · exact answerRequest_fitting henv hinserts hfound ⟨hm.1, hm.2.1, by decide⟩
  split
  · exact answerRequest_fitting henv (Fitting.refl h) hfound hm
  · exact Fitting.refl h

/-- **Every action of the server** writes messages that fit and keeps what it stores. -/
theorem act_fits (henv : env.Fits) (h : s.Fits) (hid : CInt.InRange s.db.nextId) {a : Server.Act}
    (ha : match a with
      | .accept _ => True
      | .frame fd f => CInt.InRange fd ∧ f.Fits
      | .hangup _ => True) : Fitting s (s.act env a) := by
  cases a with
  | accept fd => exact ⟨⟨h.nodes, h.db⟩, Writes.quiet [.accept fd] rfl rfl⟩
  | hangup fd => exact (Fitting.refl h).offline (sessionId_inRange h.nodes)
  | frame confd f =>
    obtain ⟨hfd, hf⟩ := ha
    cases f with
    | register user => exact registerAction_fitting h hid hf.2
    | login user => exact loginAction_fitting henv h hf.1 hfd
    | heartbeat id => exact Fitting.refl h
    | offline id => exact (Fitting.refl h).offline hf
    | addFriend src dst => exact addFriendAction_fitting henv h hf.1 hf.2
    | allowAddf src dst verdict => exact allowAddfAction_fitting henv h hf
    | other op => exact Fitting.refl h

end UnixNote
