import UnixNote.Proof.Friendship
import UnixNote.Proof.OneSession
import UnixNote.Proof.Replies

/-!
# Handlers and removed nodes

A pointer from `search_list` is good until its node is deleted, and every `Write_server`
may delete nodes. `handles_live`: all pointers that a handler reads are good, except in an
approval of two users who are online, where a failed write to the requester has deleted
the requester's node, and the handler goes on to read it. `handles_live_breaks` is such an
approval.
-/

namespace UnixNote

open Server

variable {env : Env} {s s' s₁ s₂ : Server} {c : Call} {fd confd id src dst : Int} {m : Msg} {p psrc pdst : Node}

/-! ## Stretches without a bad read -/

/-- Anything but a read through a pointer whose node was removed. -/
def Event.good : Event → Bool
  | .deref _ live => live
  | _ => true

/-- Between `s` and `s'` every pointer that was read was good. -/
def Sound (s s' : Server) : Prop := ∃ evs, s'.log = s.log ++ evs ∧ ∀ ref, .deref ref false ∉ evs

namespace Sound

theorem refl : Sound s s := ⟨[], (List.append_nil _).symm, fun _ => List.not_mem_nil⟩

theorem trans (h₁ : Sound s s₁) (h₂ : Sound s₁ s₂) : Sound s s₂ := by
  obtain ⟨evs, hl, hs⟩ := h₁
  obtain ⟨evs', hl', hs'⟩ := h₂
  refine ⟨evs ++ evs', by rw [hl', hl, List.append_assoc], ?_⟩
  intro ref hm
  rcases List.mem_append.1 hm with hm | hm
  · exact hs ref hm
  · exact hs' ref hm

/-- Events that read no pointer, or a good one. -/
theorem events (evs : List Event) (hl : s'.log = s.log ++ evs) (hs : evs.all Event.good = true) : Sound s s' := by
  refine ⟨evs, hl, ?_⟩
  intro ref hm
  have := List.all_eq_true.1 hs _ hm
  exact absurd this Bool.false_ne_true

theorem emit (h : Sound s s') {e : Event} (he : e.good = true) : Sound s (s'.emit e) :=
  h.trans (events [e] rfl (by simpa using he))

theorem query (h : Sound s s') (q : Stmt) : Sound s (s'.query env q) := h.trans (events [_] rfl rfl)

theorem mysqlEnd (h : Sound s s') (conn : Option Nat) : Sound s (s'.mysqlEnd conn) := (h.emit rfl).emit rfl

/-- A pointer to a node of the list is good. -/
theorem deref (h : Sound s s') (hp : p ∈ s'.pOnline.nodes) : Sound s (s'.deref env p).1 := by
  rw [deref_live env hp]
  exact h.emit rfl

/-- What a stretch reads is among its news. -/
theorem iff (hl : s.log <+: s'.log) : Sound s s' ↔ ∀ ref, .deref ref false ∉ s.news s' := by
  obtain ⟨evs, hl⟩ := hl
  rw [news_of_log hl.symm]
  constructor
  · rintro ⟨evs', hl', hs⟩
    rw [List.append_cancel_left (hl.trans hl')]
    exact hs
  · intro hs
    exact ⟨evs, hl.symm, hs⟩

end Sound

/-- **Teardowns read good pointers only**: each is read right behind the search it came from. -/
theorem Cascade.sound (h : Cascade env c s s') : Sound s s' := by
  have hcut : ∀ confd id s, Sound s (cut env confd id s) := by
    intro confd id s
    have h₁ : Sound s ((s.epollDel confd).delList id) := Sound.events [.epollDel confd] rfl rfl
    exact h₁.query _
  have hend : ∀ {s s' : Server} (conn : Option Nat) (confd : Int), Sound s s' →
      Sound s ((s'.mysqlEnd conn).close confd) := by
    intro s s' conn confd h
    exact (h.mysqlEnd conn).trans (Sound.events [.close confd] rfl rfl)
  induction h with
  | @offlineNeg confd _ s _ =>
    have h₁ : Sound s (s.epollDel confd) := Sound.events [.epollDel confd] rfl rfl
    exact h₁.trans (Sound.events [.close confd] rfl rfl)
  | offlineRows _ _ _ _ ih₁ ih₂ => exact hend _ _ (((hcut _ _ _).trans ih₁).trans ih₂)
  | offlineNoDb _ _ _ ih => exact hend _ _ ((hcut _ _ _).trans ih)
  | notifyEnd => exact Sound.refl.emit rfl
  | notifySkip _ _ ih => exact (Sound.refl.emit rfl).trans ih
  | notifySend _ _ _ ih₁ ih₂ => exact (((Sound.refl.emit rfl).emit rfl).trans ih₁).trans ih₂
  | writeOk _ => exact Sound.refl.emit rfl
  | writeFail _ _ ih => exact (Sound.refl.emit rfl).trans ih

theorem Sound.writeServer (h : Sound s s') (env : Env) (fd : Int) (m : Msg) :
    Sound s (s'.writeServer env fd m).1 := h.trans cascade_writeServer.sound

theorem Sound.offlineAction (h : Sound s s') (env : Env) (confd id : Int) :
    Sound s (s'.offlineAction env confd id) := h.trans cascade_offlineAction.sound

/-! ## Handlers that read good pointers -/

theorem registerAction_sound (env : Env) (confd : Int) (user : User) (s : Server) :
    Sound s (s.registerAction env confd user) := by
  have hmax : Sound s ((s.query env (.insertUser user.username user.password)).query env .selectMaxUser) :=
    (Sound.refl.query _).query _
  unfold registerAction mysqlGo
  dsimp only
  split
  · exact (hmax.writeServer env confd _).mysqlEnd _
  rename_i c _
  have hrow := hmax.emit (e := .fetchRow (some c)) rfl
  split
  · exact hrow.emit rfl
  split
  · exact ((hrow.query _).writeServer env confd _).mysqlEnd _
  · exact ((hrow.query _).writeServer env confd _).mysqlEnd _

/-- The loop of `login_action` reads its pointer again only when the write between went out, and
that has deleted nobody. -/
theorem exchangeOnline_sound (env : Env) (confd : Int) (temp : OnlineNode) (conn : Option Nat) (rows : List Int)
    (s : Server) : Sound s (s.exchangeOnline env confd temp conn rows) := by
  induction rows generalizing s with
  | nil => exact Sound.refl.emit rfl
  | cons f rows ih =>
    have hrow : Sound s (s.emit (.fetchRow conn)) := Sound.refl.emit rfl
    simp only [exchangeOnline, emit_pOnline]
    cases hp : s.pOnline.searchList f .byId with
    | none => exact hrow.trans (ih _)
    | some p =>
      have hmem : p ∈ (s.emit (.fetchRow conn)).pOnline.nodes := (OnlineList.searchId_some hp).1
      have hread : Sound s ((s.emit (.fetchRow conn)).emit (.deref p.ref true)) := hrow.emit rfl
      simp only [deref_live env hmem]
      cases hok : env.write ((s.emit (.fetchRow conn)).emit (.deref p.ref true)).log p.sockfd (.online temp) with
      | false =>
        have hsend := hread.writeServer env p.sockfd (.online temp)
        rw [writeServer_false hok] at hsend ⊢
        exact hsend.trans (ih _)
      | true =>
        rw [writeServer_true hok]
        have hagain : p ∈ (((s.emit (.fetchRow conn)).emit (.deref p.ref true)).emit
            (.write p.sockfd (.online temp) true)).pOnline.nodes := hmem
        simp only [Bool.true_eq_false, if_false, deref_live env hagain]
        have hboth := ((hread.emit (e := .write p.sockfd (.online temp) true) rfl).emit
          (e := .deref p.ref true) rfl).writeServer env confd (.online p.toOnlineNode)
        split
        · exact hboth
        · exact hboth.trans (ih _)

theorem openSession_sound (env : Env) (confd : Int) (user : User) (conn : Option Nat) (s : Server) :
    Sound s (s.openSession env confd user conn) := by
  cases hname : env.getpeername s.log confd with
  | none =>
    have hpeer : Sound s (s.emit (.getpeername confd false)) := Sound.refl.emit rfl
    rw [openSession_unnamed user conn hname]
    exact (hpeer.offlineAction env confd (-1)).mysqlEnd conn
  | some addr =>
    have hpeer : Sound s (withSession confd user addr s) := Sound.events [.getpeername confd true] rfl rfl
    have hgreet : Sound s ((greeted env confd user addr s).query env (.selectFriends user.id)) :=
      (hpeer.writeServer env confd (.loginFeedback 0)).query _
    by_cases hok : ((greeted env confd user addr s).answer env (.selectFriends user.id)).1 = .ok
    · rw [openSession_friends conn hname hok]
      exact (hgreet.trans (exchangeOnline_sound env confd _ _ _ _)).mysqlEnd _
    · rw [openSession_friendless conn hname hok]
      exact (hgreet.offlineAction env confd user.id).mysqlEnd _

theorem loginAction_sound (env : Env) (confd : Int) (user : User) (s : Server) :
    Sound s (s.loginAction env confd user) := by
  have hquery : Sound s (s.query env (.selectUser user.id)) := Sound.refl.query _
  unfold loginAction mysqlGo
  dsimp only
  split
  · exact (hquery.writeServer env confd _).mysqlEnd _
  rename_i c _
  have hrow := hquery.emit (e := .fetchRow (some c)) rfl
  split
  · exact (hrow.writeServer env confd _).mysqlEnd _
  split
  · exact (hrow.writeServer env confd _).mysqlEnd _
  split
  · exact (hrow.writeServer env confd _).mysqlEnd _
  · exact hrow.trans (openSession_sound env confd user _ _)

theorem addFriendAction_sound (env : Env) (confd src dst : Int) (s : Server) :
    Sound s (s.addFriendAction env confd src dst) := by
  have hquery : ∀ conn, Sound s ((s.query env (.selectFriend src dst)).emit (.fetchRow conn)) :=
    fun conn => (Sound.refl.query _).emit rfl
  unfold addFriendAction mysqlGo
  dsimp only
  generalize (if (s.answer env (.selectFriend src dst)).1 = .ok then some s.log.length else none) = conn
  cases conn with
  | none => exact (hquery _).writeServer env _ _
  | some c =>
    dsimp only
    split
    · exact (hquery _).writeServer env _ _
    cases hp : s.pOnline.searchList dst .byId with
    | none => exact (hquery _).writeServer env _ _
    | some p =>
      have hmem : p ∈ ((s.query env (.selectFriend src dst)).emit (.fetchRow (some c))).pOnline.nodes :=
        (OnlineList.searchId_some hp).1
      exact ((hquery _).deref hmem).writeServer env _ _

/-! ## Approvals -/

/-- The answer to the requester reads its pointer right behind the search. -/
theorem answerRequest_sound {req : Option Node} {verdict : Int} (h : Sound s s')
    (hreq : ∀ p, req = some p → p ∈ s'.pOnline.nodes) : Sound s (s'.answerRequest env req src dst verdict) := by
  unfold answerRequest
  split
  · exact h
  · exact (h.deref (hreq _ rfl)).writeServer env _ _

/-- **A failed write deletes the node of its connection.** -/
theorem failed_write_deletes (hids : OneSession s) (hfds : Keyed.Distinct (fun n : Node => n.sockfd) s.pOnline.nodes)
    (hp : p ∈ s.pOnline.nodes) (hpos : 0 ≤ p.id) (hfail : env.write s.log p.sockfd m = false) :
    (s.writeServer env p.sockfd m).1.pOnline.live p = false := by
  have hfound : s.pOnline.searchList p.sockfd .bySockfd = some p := hfds.find?_iff.2 ⟨hp, rfl⟩
  have hid : s.sessionId p.sockfd = p.id := by
    unfold sessionId
    rw [hfound]
  rw [writeServer_false hfail, hid]
  have hgone : ((s.emit (.write p.sockfd m false)).offlineAction env p.sockfd p.id).pOnline.searchList p.id .byId =
      none := offline_gone hids hpos
  have hsub : ((s.emit (.write p.sockfd m false)).offlineAction env p.sockfd p.id).pOnline.nodes.Sublist
      s.pOnline.nodes := (cascade_offlineAction (s := s.emit (.write p.sockfd m false))).sublist
  by_contra hlive
  simp only [OnlineList.live, Bool.not_eq_false, List.any_eq_true, decide_eq_true_eq] at hlive
  obtain ⟨n, hn, href⟩ := hlive
  -- a node with this address is `p` itself
  have heq : n = p := s.pOnline.distinct.eq (hsub.subset hn) hp href
  exact OnlineList.searchId_none.1 hgone n hn (congrArg (fun k : Node => k.id) heq)

/-- A read through a bad pointer, whatever follows. -/
theorem not_sound {r : Nat} (hs : s.log <+: s₁.log) (hend : (s₁.emit (.deref r false)).log <+: s'.log) :
    ¬ Sound s s' := by
  obtain ⟨evs, hl⟩ := hs
  obtain ⟨evs', hl'⟩ := hend
  rintro ⟨evs'', hl'', hgood⟩
  have hsplit : s.log ++ (evs ++ .deref r false :: evs') = s.log ++ evs'' := by
    rw [← hl'', ← hl', emit_log, ← hl]
    simp only [List.append_assoc, List.cons_append, List.nil_append]
  have hevs := List.append_cancel_left hsplit
  refine hgood r ?_
  rw [← hevs]
  exact List.mem_append_right _ List.mem_cons_self

theorem deref_extends (env : Env) (p : Node) (s : Server) : s.log <+: (s.deref env p).1.log := by
  obtain ⟨b, hb⟩ := deref_fst s env p
  rw [hb]
  exact ⟨_, rfl⟩

theorem writeServer_extends (env : Env) (fd : Int) (m : Msg) (s : Server) :
    s.log <+: (s.writeServer env fd m).1.log := cascade_writeServer.log_extends

/-- A pointer to a node that is gone. -/
theorem deref_dead (h : s.pOnline.live p = false) :
    s.deref env p = (s.emit (.deref p.ref false), env.stale s.log p.ref) := by
  unfold Server.deref
  rw [h]
  rfl

/-- The state in which an approval is about to be reported to the requester. -/
def answering (env : Env) (src dst : Int) (psrc : Node) (s : Server) : Server :=
  (bothInserts env src dst s).emit (.deref psrc.ref true)

/-- The state in which the requester has the report and is about to get the node of the other side. -/
def introducing (env : Env) (src dst : Int) (psrc pdst : Node) (s : Server) : Server :=
  (((answering env src dst psrc s).emit (.write psrc.sockfd (.allowAddf src dst 1) true)).emit
    (.deref psrc.ref true)).emit (.deref pdst.ref true)

/-- Both writes to the requester go out. -/
def Reached (env : Env) (src dst : Int) (psrc pdst : Node) (s : Server) : Prop :=
  env.write (answering env src dst psrc s).log psrc.sockfd (.allowAddf src dst 1) = true ∧
    env.write (introducing env src dst psrc pdst s).log psrc.sockfd (.online pdst.toOnlineNode) = true

/-- **An approval of two users who are online** reads good pointers exactly when both writes to
the requester go out. -/
theorem approve_sound (hids : OneSession s) (hfds : Keyed.Distinct (fun n : Node => n.sockfd) s.pOnline.nodes)
    (hsrc : psrc ∈ s.pOnline.nodes) (hdst : pdst ∈ s.pOnline.nodes) (hpos : 0 ≤ psrc.id) :
    Sound s (((bothInserts env src dst s).answerRequest env (some psrc) src dst 1).introduce env (some psrc)
      (some pdst)) ↔ Reached env src dst psrc pdst s := by
  have hins : Sound s (bothInserts env src dst s) := (Sound.refl.query _).query _
  have hanswer : Sound s (answering env src dst psrc s) := hins.emit rfl
  have hmem₀ : psrc ∈ (bothInserts env src dst s).pOnline.nodes := hsrc
  have hrequest : (bothInserts env src dst s).answerRequest env (some psrc) src dst 1 =
      ((answering env src dst psrc s).writeServer env psrc.sockfd (.allowAddf src dst 1)).1 := by
    simp only [answerRequest, deref_live env hmem₀]
    rfl
  rw [hrequest]
  cases hfirst : env.write (answering env src dst psrc s).log psrc.sockfd (.allowAddf src dst 1) with
  | false =>
    -- the report fails, and the node of the requester is read for its descriptor
    have hdead := failed_write_deletes (s := answering env src dst psrc s) hids hfds hsrc hpos hfirst
    have hstart : s.log <+: ((answering env src dst psrc s).writeServer env psrc.sockfd (.allowAddf src dst 1)).1.log :=
      List.IsPrefix.trans (hanswer.elim fun evs h => ⟨evs, h.1.symm⟩) (writeServer_extends env _ _ _)
    refine iff_of_false ?_ (fun h => Bool.false_ne_true (hfirst.symm.trans h.1))
    refine not_sound (r := psrc.ref) hstart ?_
    simp only [introduce, deref_dead hdead]
    refine List.IsPrefix.trans ?_ (writeServer_extends env _ _ _)
    refine List.IsPrefix.trans ?_ (deref_extends env _ _)
    refine List.IsPrefix.trans ?_ (deref_extends env _ _)
    refine List.IsPrefix.trans ?_ (writeServer_extends env _ _ _)
    exact deref_extends env _ _
  | true =>
    rw [writeServer_true hfirst]
    have hreport := (hanswer.emit (e := .write psrc.sockfd (.allowAddf src dst 1) true) rfl).emit
      (e := .deref psrc.ref true) rfl
    have hintro : Sound s (introducing env src dst psrc pdst s) := hreport.emit rfl
    have hmem₁ : psrc ∈ ((answering env src dst psrc s).emit
        (.write psrc.sockfd (.allowAddf src dst 1) true)).pOnline.nodes := hsrc
    have hmem₂ : pdst ∈ (((answering env src dst psrc s).emit
        (.write psrc.sockfd (.allowAddf src dst 1) true)).emit (.deref psrc.ref true)).pOnline.nodes := hdst
    simp only [introduce, deref_live env hmem₁, deref_live env hmem₂]
    change Sound s ((((((introducing env src dst psrc pdst s).writeServer env psrc.sockfd
      (.online pdst.toOnlineNode)).1.deref env pdst).1.deref env psrc).1.writeServer env _ _).1) ↔ _
    cases hsecond : env.write (introducing env src dst psrc pdst s).log psrc.sockfd (.online pdst.toOnlineNode) with
    | false =>
      -- the node of the requester is gone, and is read as the payload for the other side
      have hdead := failed_write_deletes (s := introducing env src dst psrc pdst s) hids hfds hsrc hpos hsecond
      refine iff_of_false ?_ (fun h => Bool.false_ne_true (hsecond.symm.trans h.2))
      obtain ⟨b, hb⟩ := deref_fst ((introducing env src dst psrc pdst s).writeServer env psrc.sockfd
        (.online pdst.toOnlineNode)).1 env pdst
      have hstart : s.log <+: ((introducing env src dst psrc pdst s).writeServer env psrc.sockfd
          (.online pdst.toOnlineNode)).1.log :=
        List.IsPrefix.trans (hintro.elim fun evs h => ⟨evs, h.1.symm⟩) (writeServer_extends env _ _ _)
      refine not_sound (r := psrc.ref) (hstart.trans (deref_extends env pdst _)) ?_
      refine List.IsPrefix.trans ?_ (writeServer_extends env _ _ _)
      simp only [hb, deref_dead (s := Server.emit _ _) hdead]
      exact List.prefix_refl _
    | true =>
      refine iff_of_true ?_ ⟨hfirst, hsecond⟩
      rw [writeServer_true hsecond]
      have hnode := hintro.emit (e := .write psrc.sockfd (.online pdst.toOnlineNode) true) rfl
      have hread : Sound s (((introducing env src dst psrc pdst s).emit
          (.write psrc.sockfd (.online pdst.toOnlineNode) true)).deref env pdst).1 := hnode.deref hdst
      obtain ⟨b, hb⟩ := deref_fst ((introducing env src dst psrc pdst s).emit
        (.write psrc.sockfd (.online pdst.toOnlineNode) true)) env pdst
      have hmem : psrc ∈ (((introducing env src dst psrc pdst s).emit
          (.write psrc.sockfd (.online pdst.toOnlineNode) true)).deref env pdst).1.pOnline.nodes := by
        rw [hb]
        exact hsrc
      exact (hread.deref hmem).writeServer env _ _

/-! ## All handlers -/

/-- Where a handler keeps its pointers good. An approval that is recorded between two users who are
online has to reach the requester. -/
def Server.KeepsHandles (env : Env) (s : Server) : Act → Prop
  | .frame _ (.allowAddf src dst v) =>
    v = 1 → BothOk env src dst s → ∀ psrc pdst, s.pOnline.searchList src .byId = some psrc →
      s.pOnline.searchList dst .byId = some pdst → Reached env src dst psrc pdst s
  | _ => True

theorem introduce_none {psrc pdst : Option Node} (h : psrc = none ∨ pdst = none) :
    s.introduce env psrc pdst = s := by
  unfold introduce
  rcases h with rfl | rfl
  · rfl
  · cases psrc <;> rfl

/-- What a handler emits at its end, no pointer is read there. -/
theorem Sound.mysqlEnd_iff (conn : Option Nat) (hl : s.log <+: s'.log) :
    Sound s (s'.mysqlEnd conn) ↔ Sound s s' := by
  refine ⟨fun h => ?_, fun h => h.mysqlEnd conn⟩
  obtain ⟨evs, hl⟩ := hl
  obtain ⟨evs', hl', hs⟩ := h
  rw [mysqlEnd_log, ← hl, List.append_assoc] at hl'
  refine ⟨evs, hl.symm, fun ref hm => hs ref ?_⟩
  rw [← List.append_cancel_left hl']
  exact List.mem_append_left _ hm

/-- An insert that went through was made for a user with a table. -/
theorem bothOk_nonneg (h : BothOk env src dst s) : 0 ≤ src := by
  have hlacks : s.db.Lacks src dst := by
    by_contra hno
    have hok : (s.answer env (.insertFriend src dst)).1 = .ok := h.1
    unfold answer at hok
    split at hok
    · exact (Database.exec_insert_fails hno).1 hok
    · cases hok
  obtain ⟨t, ht, -⟩ := hlacks
  exact Database.table_nonneg ht

/-- **An answer to a friend request** reads good pointers where it keeps them. -/
theorem allowAddfAction_sound {v : Int} (fd : Int) (hids : OneSession s)
    (hfds : Keyed.Distinct (fun n : Node => n.sockfd) s.pOnline.nodes) :
    Sound s (s.allowAddfAction env src dst v) ↔ s.KeepsHandles env (.frame fd (.allowAddf src dst v)) := by
  have hsrc : ∀ p, s.pOnline.searchList src .byId = some p → p ∈ s.pOnline.nodes :=
    fun p hp => (OnlineList.searchId_some hp).1
  have hins : Sound s (bothInserts env src dst s) := (Sound.refl.query _).query _
  by_cases hv : v = 1
  swap
  · refine iff_of_true ?_ fun h => absurd h hv
    unfold allowAddfAction
    dsimp only
    rw [if_neg hv]
    split
    · exact answerRequest_sound Sound.refl hsrc
    · exact Sound.refl
  subst hv
  rcases approve_cases env src dst s with ⟨hboth, c, heq⟩ | ⟨hno, c, heq⟩
  swap
  · rw [heq]
    exact iff_of_true ((answerRequest_sound hins hsrc).mysqlEnd c) fun _ h => absurd h hno
  have hanswer : Sound s ((bothInserts env src dst s).answerRequest env (s.pOnline.searchList src .byId) src dst 1) :=
    answerRequest_sound hins hsrc
  rw [heq]
  cases hp : s.pOnline.searchList src .byId with
  | none =>
    -- nobody is there to be told, and nobody is introduced
    rw [introduce_none (Or.inl rfl)]
    rw [hp] at hanswer
    exact iff_of_true (hanswer.mysqlEnd c) fun _ _ psrc _ h => absurd (hp.symm.trans h) (Option.some_ne_none _).symm
  | some psrc =>
    cases hq : s.pOnline.searchList dst .byId with
    | none =>
      rw [introduce_none (Or.inr rfl)]
      rw [hp] at hanswer
      exact iff_of_true (hanswer.mysqlEnd c) fun _ _ _ pdst _ h => absurd (hq.symm.trans h) (Option.some_ne_none _).symm
    | some pdst =>
      obtain ⟨hmem, hid⟩ := OnlineList.searchId_some hp
      have hpos : 0 ≤ psrc.id := by
        rw [hid]
        exact bothOk_nonneg hboth
      have hext : s.log <+: (((bothInserts env src dst s).answerRequest env (some psrc) src dst 1).introduce env
          (some psrc) (some pdst)).log := by
        obtain ⟨evs, hl, -⟩ := (bothInserts_writes.trans
          (answerRequest_writes.mono fun _ _ _ => trivial)).trans (introduce_writes.mono fun _ _ _ => trivial)
        exact ⟨evs, hl.symm⟩
      rw [Sound.mysqlEnd_iff c hext, approve_sound hids hfds hmem (OnlineList.searchId_some hq).1 hpos]
      constructor
      · intro h _ _ psrc' pdst' hp' hq'
        cases hp.symm.trans hp'
        cases hq.symm.trans hq'
        exact h
      · intro h
        exact h rfl hboth psrc pdst hp hq

/-- **One action.** -/
theorem act_sound (a : Act) (hids : OneSession s)
    (hfds : Keyed.Distinct (fun n : Node => n.sockfd) s.pOnline.nodes) :
    Sound s (s.act env a) ↔ s.KeepsHandles env a := by
  have htrue : ∀ {s' : Server}, Sound s s' → (Sound s s' ↔ True) := fun h => iff_of_true h trivial
  cases a with
  | accept fd => exact htrue (Sound.events [.accept fd] rfl rfl)
  | hangup fd => exact htrue (Sound.refl.offlineAction env fd _)
  | frame fd f =>
    cases f with
    | register user => exact htrue (registerAction_sound env fd user s)
    | login user => exact htrue (loginAction_sound env fd user s)
    | heartbeat id => exact htrue Sound.refl
    | offline id => exact htrue (Sound.refl.offlineAction env fd id)
    | addFriend src dst => exact htrue (addFriendAction_sound env fd src dst s)
    | allowAddf src dst v => exact allowAddfAction_sound fd hids hfds
    | other op => exact htrue Sound.refl

theorem act_extends (env : Env) (s : Server) (a : Act) : s.log <+: (s.act env a).log := by
  cases a with
  | accept fd => exact ⟨_, rfl⟩
  | frame fd f => exact (act_passes env s fd f).1.log_extends
  | hangup fd => exact (act_passes env s fd (.other 0)).2.log_extends

/-- **No handler uses a removed node**, exactly where it keeps its handles. In every run, at every
step taken with distinct descriptors, all pointers that are read are good if and only if the step
keeps its handles. So a run of steps that all keep theirs never reads a removed node. -/
theorem handles_live {tr : List (Server × Act)} (hr : (lts env).Run (fun _ _ => True) tr s) :
    (∀ s₁ a, (s₁, a) ∈ tr → (s₁.pOnline.nodes.map fun n => n.sockfd).Nodup →
      ((∀ ref, .deref ref false ∉ s₁.news (s₁.act env a)) ↔ s₁.KeepsHandles env a)) ∧
    ((∀ s₁ a, (s₁, a) ∈ tr → (s₁.pOnline.nodes.map fun n => n.sockfd).Nodup ∧ s₁.KeepsHandles env a) →
      ∀ ref, .deref ref false ∉ s.log) := by
  refine ⟨?_, ?_⟩
  · intro s₁ a hmem hfds
    obtain ⟨before, after, htr⟩ := List.append_of_mem hmem
    have hids : OneSession s₁ := run_oneSession (hr.before htr).1
    rw [← Sound.iff (act_extends env s₁ a)]
    exact act_sound a hids hfds
  · -- along the run, the log grows by the news of its steps
    refine (hr.history (I := fun tr s => OneSession s ∧ ((∀ s₁ a, (s₁, a) ∈ tr →
      (s₁.pOnline.nodes.map fun n => n.sockfd).Nodup ∧ s₁.KeepsHandles env a) →
      ∀ ref, .deref ref false ∉ s.log)) ?_ ?_).2
    · rintro s ⟨db, rfl⟩
      exact ⟨Keyed.Distinct.nil, fun _ _ => List.not_mem_nil⟩
    · rintro tr s a s' ⟨hids, ih⟩ - ⟨-, rfl⟩
      refine ⟨act_oneSession a hids, fun hall ref => ?_⟩
      obtain ⟨hfds, hkeep⟩ := hall s a List.mem_concat_self
      obtain ⟨evs, hl, hgood⟩ := (act_sound a hids hfds).2 hkeep
      have hold := ih fun s₁ a₁ hm => hall s₁ a₁ (List.mem_append_left _ hm)
      rw [hl, List.mem_append]
      rintro (hm | hm)
      · exact hold ref hm
      · exact hgood ref hm

/-- Users 1 and 2 on the connections 5 and 6. -/
def bothOnline (env : Env) : Server :=
  ((((boot pairDb).act env (.accept 5)).act env (.accept 6)).act env (.frame 5 (.login ⟨1, [], []⟩))).act env
    (.frame 6 (.login ⟨2, [], []⟩))

/-- User 2 approves the request of user 1, and both writes to 1 go out. -/
theorem handles_live_approval :
    ¬ ∃ ref, .deref ref false ∈ ((bothOnline calm).act calm (.frame 6 (.allowAddf 1 2 1))).log := by
  have h₀ : (lts calm).Run (fun _ _ => True) [] (boot pairDb) := .start ⟨pairDb, rfl⟩
  have h₁ := h₀.next (a := .accept 5) trivial ⟨by decide, rfl⟩
  have h₂ := h₁.next (a := .accept 6) trivial ⟨by decide, rfl⟩
  have h₃ := h₂.next (a := .frame 5 (.login ⟨1, [], []⟩)) trivial ⟨by decide, rfl⟩
  have h₄ := h₃.next (a := .frame 6 (.login ⟨2, [], []⟩)) trivial ⟨by decide, rfl⟩
  have h₅ := h₄.next (a := .frame 6 (.allowAddf 1 2 1)) trivial ⟨by decide, rfl⟩
  refine not_exists.2 ((handles_live h₅).2 ?_)
  simp only [List.nil_append, List.cons_append, List.mem_cons, List.not_mem_nil, or_false, Prod.mk.injEq]
  rintro s₁ a (⟨rfl, rfl⟩ | ⟨rfl, rfl⟩ | ⟨rfl, rfl⟩ | ⟨rfl, rfl⟩ | ⟨rfl, rfl⟩)
  · exact ⟨by decide, trivial⟩
  · exact ⟨by decide, trivial⟩
  · exact ⟨by decide, trivial⟩
  · exact ⟨by decide, trivial⟩
  · exact ⟨by decide, fun _ _ _ _ _ _ => ⟨rfl, rfl⟩⟩

/-- The answers to friend requests are lost. -/
def deaf : Env where
  write _ _ m := match m with
    | .allowAddf _ _ _ => false
    | _ => true
  getpeername _ _ := some ⟨0, 0⟩
  sql _ _ := true
  stale _ _ := ⟨0, 0, ⟨0, 0⟩⟩

/-- **A removed node is read**: the answer to user 1 fails, which deletes its node, and user 2 is then
introduced to what the memory of that node holds. -/
theorem handles_live_breaks :
    ∃ env tr s s₁ a ref, (lts env).Run (fun _ _ => True) tr s ∧ (s₁, a) ∈ tr ∧
      (s₁.pOnline.nodes.map fun n => n.id).Nodup ∧ (s₁.pOnline.nodes.map fun n => n.sockfd).Nodup ∧
      .deref ref false ∈ s₁.news (s₁.act env a) := by
  have h₀ : (lts deaf).Run (fun _ _ => True) [] (boot pairDb) := .start ⟨pairDb, rfl⟩
  have h₁ := h₀.next (a := .accept 5) trivial ⟨by decide, rfl⟩
  have h₂ := h₁.next (a := .accept 6) trivial ⟨by decide, rfl⟩
  have h₃ := h₂.next (a := .frame 5 (.login ⟨1, [], []⟩)) trivial ⟨by decide, rfl⟩
  have h₄ := h₃.next (a := .frame 6 (.login ⟨2, [], []⟩)) trivial ⟨by decide, rfl⟩
  have h₅ := h₄.next (a := .frame 6 (.allowAddf 1 2 1)) trivial ⟨by decide, rfl⟩
  refine ⟨deaf, _, _, bothOnline deaf, .frame 6 (.allowAddf 1 2 1), 0, h₅, List.mem_concat_self, ?_, ?_, ?_⟩
  · decide
  · decide
  · decide

end UnixNote
