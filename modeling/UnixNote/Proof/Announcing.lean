import UnixNote.Proof.Consent
import UnixNote.Proof.Handles

/-!
# What the loop of `login_action` tells

The loop tells every friend who is online about the new session, and does not look whether the session is
still there: a friend that it reaches while the session is up will know how it ends, one that it reaches
later is left with `OP_ONLINE` (`exchange_up`, `exchange_gone`).

* `Leads`: the new session is in front of the list.
* `Cascade.leads`: a teardown leaves it there, or its friends have heard that it is gone.
* `Cascade.hush`: of a user who is gone teardowns say nothing.
* `Meets`: the session is up when the loop gets to a friend, if it gets there.
-/

namespace UnixNote

open Server

variable {env : Env} {s s' s₁ s₂ : Server} {c : Call} {confd fd id x : Int} {u n p : Node} {m : Msg}
  {evs evs' : List Event} {rows : List Int} {temp : OnlineNode} {conn : Option Nat}

/-! ## Messages about a user -/

/-- An `OP_ONLINE` or `OP_OFFLINE` about `id`. -/
def Msg.about (id : Int) : Msg → Bool
  | .online node => node.id = id
  | .offline x => x = id
  | _ => false

/-- A teardown message about `id` is `OP_OFFLINE`. -/
theorem Msg.about_teardown (ht : m.teardown = true) (ha : m.about id = true) : m = .offline id := by
  cases m with
  | offline x =>
    have hx : x = id := by simpa [Msg.about] using ha
    rw [hx]
  | allowDisconnect => cases ha
  | _ => cases ht

/-- The last message about `id`. -/
def lastAbout (id : Int) (ms : List Msg) : Option Msg := (ms.filter (Msg.about id)).getLast?

/-- A message about `id` at the end is the last. -/
theorem lastAbout_append (ms : List Msg) {ms' : List Msg} (h : lastAbout id ms' = some m) :
    lastAbout id (ms ++ ms') = some m := by
  unfold lastAbout at h ⊢
  rw [List.filter_append, List.getLast?_append_of_ne_nil _ ?_]
  · exact h
  · intro hnil
    rw [hnil] at h
    cases h

/-- Nothing about `id` is written to `fd`. -/
abbrev Hush (id fd : Int) (s s' : Server) : Prop := Writes (fun x m => m.about id = true → x ≠ fd) s s'

theorem Hush.of_mute (h : Writes (fun _ m => m.about id = false) s s') : Hush id fd s s' :=
  h.mono fun x m hno hab => by
    rw [hno] at hab
    cases hab

/-- Behind a silence the last word stands. -/
theorem Hush.last (h : Hush id fd s₁ s') (hl : s.log <+: s₁.log) :
    lastAbout id (sent fd (s.news s')) = lastAbout id (sent fd (s.news s₁)) := by
  have hnone : (sent fd (s₁.news s')).filter (Msg.about id) = [] := by
    rw [List.filter_eq_nil_iff]
    exact fun m hm hab => h.sent hm hab rfl
  unfold lastAbout
  rw [news_trans hl h.log_extends, sent_append, List.filter_append, hnone, List.append_nil]

/-- Where only `OP_OFFLINE` is said, it is the last word. -/
theorem last_offline (hw : Writes (fun _ m => m.about id = true → m = .offline id) s s')
    (h : .offline id ∈ sent fd (s.news s')) : lastAbout id (sent fd (s.news s')) = some (.offline id) := by
  have hmem : .offline id ∈ (sent fd (s.news s')).filter (Msg.about id) :=
    List.mem_filter.2 ⟨h, by simp [Msg.about]⟩
  unfold lastAbout
  rw [List.getLast?_eq_some_getLast (List.ne_nil_of_mem hmem)]
  have hlast := List.mem_filter.1 (List.getLast_mem (List.ne_nil_of_mem hmem))
  exact congrArg some (hw.sent hlast.1 hlast.2)

/-! ## Teardowns when the user is gone -/

/-- A call that is not about `id`. -/
def Call.Unlike (id : Int) : Call → Prop
  | .offline _ x => x ≠ id
  | .notify x _ _ => x ≠ id
  | .write _ m => m.about id = false

theorem sessionId_unlike (hpos : 0 ≤ id) (hgone : ∀ n ∈ s.pOnline.nodes, n.id ≠ id) : s.sessionId fd ≠ id := by
  unfold sessionId
  cases hp : s.pOnline.searchList fd .bySockfd with
  | none =>
    simp only
    omega
  | some p => exact hgone p (OnlineList.searchSockfd_some hp).1

/-- **Of a user who is gone teardowns say nothing.** -/
theorem Cascade.hush (h : Cascade env c s s') (hpos : 0 ≤ id) (hgone : ∀ n ∈ s.pOnline.nodes, n.id ≠ id)
    (hc : c.Unlike id) : Writes (fun _ m => m.about id = false) s s' := by
  have hcut : ∀ {confd x : Int} {s : Server}, (∀ n ∈ s.pOnline.nodes, n.id ≠ id) →
      ∀ n ∈ (cut env confd x s).pOnline.nodes, n.id ≠ id :=
    fun h n hn => h n ((OnlineList.delList_sublist _).subset hn)
  induction h with
  | @offlineNeg confd _ s _ => exact Writes.quiet [.epollDel confd, .close confd] (by simp) rfl
  | offlineRows _ _ hn _ ih₁ ih₂ =>
    have h₁ := ih₁ (hcut hgone) hc
    have h₂ := ih₂ (fun n hm => hcut hgone n (hn.sublist.subset hm)) rfl
    exact ((Writes.cut.trans h₁).trans h₂).trans (Writes.release _)
  | offlineNoDb _ _ _ ih => exact (Writes.cut.trans (ih (hcut hgone) rfl)).trans (Writes.release _)
  | @notifyEnd _ k _ => exact Writes.quiet [.fetchRow (some k)] rfl rfl
  | @notifySkip _ _ k _ _ _ _ _ ih =>
    exact (Writes.quiet [.fetchRow (some k)] rfl rfl).trans (ih hgone hc)
  | @notifySend x _ k _ p s _ _ _ hw _ ih₁ ih₂ =>
    have hread : Writes (fun _ m => m.about id = false) s ((s.emit (.fetchRow (some k))).emit (.deref p.ref true)) :=
      Writes.quiet [.fetchRow (some k), .deref p.ref true] (by simp) rfl
    have h₁ := ih₁ hgone (decide_eq_false hc)
    exact (hread.trans h₁).trans (ih₂ (fun n hn => hgone n (hw.sublist.subset hn)) hc)
  | writeOk _ => exact Writes.write hc
  | writeFail _ _ ih => exact (Writes.write hc).trans (ih hgone (sessionId_unlike hpos hgone))

/-! ## The new session -/

/-- The end of `offline_action`. -/
theorem release_log (s : Server) (conn : Option Nat) (confd : Int) :
    ((s.mysqlEnd conn).close confd).log = s.log ++ [.freeResult conn, .mysqlClose conn, .close confd] := by
  simp only [close_log, mysqlEnd_log, List.append_assoc, List.cons_append, List.nil_append]

/-- A failed write removes its session. -/
theorem session_removed {e : Event} (h : Cascade env (.offline p.sockfd (s.sessionId p.sockfd)) (s.emit e) s')
    (hs : Sessions s.pOnline) (hp : p ∈ s.pOnline.nodes) : ∀ n ∈ s'.pOnline.nodes, n.id ≠ p.id := by
  have hid : s.sessionId p.sockfd = p.id := ((hs.linked_sessionId p hp).1 rfl).symm
  rw [hid] at h
  have hids : OneSession (s.emit e) := hs.ids
  rw [h.det cascade_offlineAction]
  exact OnlineList.searchId_none.1 (offline_gone hids (hs.nonneg p hp))

/-- **The loop of `offline_action` reaches everybody who is left at its end.** -/
theorem notify_reaches {conn : Nat} (h : Cascade env (.notify id conn rows) s s') (hs : Sessions s.pOnline)
    (hn : n ∈ s'.pOnline.nodes) (hf : n.id ∈ rows) : .offline id ∈ sent n.sockfd (s.news s') := by
  induction rows generalizing s with
  | nil => cases hf
  | cons f rows ih =>
    cases h with
    | notifySkip hnone hrest =>
      have hlog : s.log <+: (s.emit (.fetchRow (some conn))).log := ⟨_, rfl⟩
      rw [news_trans hlog hrest.log_extends, sent_append]
      rcases List.mem_cons.1 hf with hf | hf
      · exact absurd hf (OnlineList.searchId_none.1 hnone n (hrest.sublist.subset hn))
      · exact List.mem_append_right _ (ih hrest hs hf)
    | @notifySend _ _ _ _ p _ s₁ _ hp hw hrest =>
      have hlog : s.log <+: ((s.emit (.fetchRow (some conn))).emit (.deref p.ref true)).log :=
        ⟨[.fetchRow (some conn), .deref p.ref true], by simp⟩
      obtain ⟨hmem, hpid⟩ := OnlineList.searchId_some hp
      have hn₁ := hrest.sublist.subset hn
      rw [news_trans (hlog.trans hw.log_extends) hrest.log_extends, sent_append]
      rcases List.mem_cons.1 hf with hf | hf
      · obtain rfl : n = p := hs.ids.eq (hw.sublist.subset hn₁) hmem (hf.trans hpid.symm)
        refine List.mem_append_left _ ?_
        rw [news_trans hlog hw.log_extends, sent_append]
        refine List.mem_append_right _ ?_
        cases hw with
        | writeOk _ =>
          rw [news_of_log (emit_log _ _)]
          exact mem_sent.2 List.mem_cons_self
        | writeFail _ ho => exact absurd rfl (session_removed ho hs hmem n hn₁)
      · exact List.mem_append_right _ (ih hrest (hs.sublist hw.sublist) hf)

/-- `u` is the first session, and the only one that may share its descriptor with others. -/
structure Leads (u : Node) (s : Server) : Prop where
  ids : OneSession s
  nonneg : ∀ n ∈ s.pOnline.nodes, 0 ≤ n.id
  first : ∃ rest, s.pOnline.nodes = u :: rest ∧ Keyed.Distinct (fun n : Node => n.sockfd) rest

namespace Leads

theorem mem (h : Leads u s) : u ∈ s.pOnline.nodes := by
  obtain ⟨rest, hrest, -⟩ := h.first
  rw [hrest]
  exact List.mem_cons_self

theorem sublist (h : Leads u s) (hsub : s'.pOnline.nodes.Sublist s.pOnline.nodes) (hu : u ∈ s'.pOnline.nodes) :
    Leads u s' := by
  refine ⟨Keyed.Distinct.sublist h.ids hsub, fun n hn => h.nonneg n (hsub.subset hn), ?_⟩
  obtain ⟨rest, hrest, hfds⟩ := h.first
  have hids : Keyed.Distinct (fun n : Node => n.id) s.pOnline.nodes := h.ids
  rw [hrest] at hsub hids
  have hnot : u ∉ rest := fun hm => (List.nodup_cons.1 hids).1 (List.mem_map_of_mem hm)
  generalize s'.pOnline.nodes = l at hsub hu
  cases hsub with
  | cons _ hsub => exact absurd (hsub.subset hu) hnot
  | cons_cons _ hsub => exact ⟨_, rfl, hfds.sublist hsub⟩

theorem same (h : Leads u s) (he : s'.pOnline = s.pOnline) : Leads u s' := by
  refine ⟨?_, ?_, ?_⟩
  · unfold OneSession
    rw [he]
    exact h.ids
  · rw [he]
    exact h.nonneg
  · rw [he]
    exact h.first

/-- What fails on its descriptor tears `u` down. -/
theorem sessionId_self (h : Leads u s) : s.sessionId u.sockfd = u.id := by
  obtain ⟨rest, hrest, -⟩ := h.first
  have hfind : s.pOnline.searchList u.sockfd .bySockfd = some u := by
    unfold OnlineList.searchList
    rw [hrest]
    exact List.find?_cons_of_pos (by simp [Flag.field])
  unfold sessionId
  rw [hfind]

/-- What fails on another descriptor tears its session down. -/
theorem sessionId_other (h : Leads u s) (hp : p ∈ s.pOnline.nodes) (hfd : p.sockfd ≠ u.sockfd) :
    s.sessionId p.sockfd = p.id := by
  obtain ⟨rest, hrest, hfds⟩ := h.first
  have hmem : p ∈ rest := by
    rw [hrest] at hp
    rcases List.mem_cons.1 hp with rfl | hp
    · exact absurd rfl hfd
    · exact hp
  have hfind : s.pOnline.searchList p.sockfd .bySockfd = some p := by
    unfold OnlineList.searchList
    rw [hrest, List.find?_cons_of_neg (by simp [Flag.field, Ne.symm hfd])]
    exact hfds.find?_iff.2 ⟨hmem, rfl⟩
  unfold sessionId
  rw [hfind]

/-- Without `u` everybody has a descriptor of their own. -/
theorem without (h : Leads u s) (hsub : s'.pOnline.nodes.Sublist s.pOnline.nodes) (hu : u ∉ s'.pOnline.nodes) :
    Sessions s'.pOnline ∧ ∀ n ∈ s'.pOnline.nodes, n.id ≠ u.id := by
  have hgone : ∀ n ∈ s'.pOnline.nodes, n.id ≠ u.id := by
    intro n hn hid
    obtain rfl : n = u := Keyed.Distinct.eq h.ids (hsub.subset hn) h.mem hid
    exact hu hn
  refine ⟨⟨Keyed.Distinct.sublist h.ids hsub, ?_, fun n hn => h.nonneg n (hsub.subset hn)⟩, hgone⟩
  obtain ⟨rest, hrest, hfds⟩ := h.first
  rw [hrest] at hsub
  generalize s'.pOnline.nodes = l at hsub hu
  cases hsub with
  | cons _ hsub => exact hfds.sublist hsub
  | cons_cons _ _ => exact absurd List.mem_cons_self hu

/-- A teardown takes `u` out. -/
theorem cut_sessions (h : Leads u s) (env : Env) (confd : Int) : Sessions (cut env confd u.id s).pOnline := by
  obtain ⟨rest, hrest, hfds⟩ := h.first
  have hnodes : (cut env confd u.id s).pOnline.nodes = rest := by
    rw [cut_pOnline, OnlineList.delList_nodes, hrest]
    exact List.eraseP_cons_of_pos (by simp [Flag.field])
  have hsub : (cut env confd u.id s).pOnline.nodes.Sublist s.pOnline.nodes := OnlineList.delList_sublist _
  exact ⟨Keyed.Distinct.sublist h.ids hsub, hnodes ▸ hfds, fun n hn => h.nonneg n (hsub.subset hn)⟩

end Leads

/-- The select of the friend table of `id` in `offline_action`, which comes right behind the `epoll_ctl`, does not
fail. -/
def Env.Selects (env : Env) (id : Int) : Prop := ∀ log fd, env.sql (log ++ [.epollDel fd]) (.selectFriends id) = true

/-- A friend table that is there is read. -/
theorem selectFriends_ok (hsql : env.sql s.log (.selectFriends id) = true) (hf : x ∈ s.db.friends id) :
    (s.answer env (.selectFriends id)).1 = .ok := by
  have ht : (s.db.table id).isSome := by
    rw [Option.isSome_iff_ne_none]
    intro hno
    rw [Database.friends_none hno] at hf
    cases hf
  unfold answer Database.exec
  rw [if_pos hsql]
  dsimp only
  rw [if_pos ht]

/-- `u` is still there, or its friends who are left have heard that it is not. -/
def Heard (u : Node) (s s' : Server) : Prop :=
  u ∈ s'.pOnline.nodes ∨
    ∀ n ∈ s'.pOnline.nodes, n.id ∈ s.db.friends u.id → .offline u.id ∈ sent n.sockfd (s.news s')

namespace Heard

theorem of_mem (h : u ∈ s'.pOnline.nodes) : Heard u s s' := Or.inl h

theorem trans (h₁ : Heard u s s₁) (hl₁ : s.log <+: s₁.log) (hl₂ : s₁.log <+: s₂.log)
    (hsub : s₂.pOnline.nodes.Sublist s₁.pOnline.nodes) (hdb : s₁.db = s.db)
    (h₂ : u ∈ s₁.pOnline.nodes → Heard u s₁ s₂) : Heard u s s₂ := by
  rcases h₁ with hu | htold
  · refine (h₂ hu).imp_right fun htold n hn hf => ?_
    rw [news_trans hl₁ hl₂, sent_append]
    exact List.mem_append_right _ (htold n hn (hdb ▸ hf))
  · refine Or.inr fun n hn hf => ?_
    rw [news_trans hl₁ hl₂, sent_append]
    exact List.mem_append_left _ (htold n (hsub.subset hn) hf)

end Heard

/-- **A teardown of the session**: whoever is left among the friends was told. -/
theorem Leads.torn (h : Leads u s) (hc : Cascade env (.offline fd u.id) s s') (hsel : env.Selects u.id)
    (hn : n ∈ s'.pOnline.nodes) (hf : n.id ∈ s.db.friends u.id) : .offline u.id ∈ sent n.sockfd (s.news s') := by
  have hcut : s.log <+: (cut env fd u.id s).log := cut_extends
  cases hc with
  | offlineNeg hneg => exact absurd (h.nonneg u h.mem) (by omega)
  | @offlineRows _ _ k _ s₁ s₂ _ _ hnotify hbye =>
    have hrel := release_log s₂ (some k) fd
    have hn₁ : n ∈ s₁.pOnline.nodes := hbye.sublist.subset hn
    have hreach := notify_reaches hnotify (h.cut_sessions env fd) hn₁ hf
    have hlog₁ := hcut.trans hnotify.log_extends
    rw [news_trans hlog₁ (hbye.log_extends.trans ⟨_, hrel.symm⟩), news_trans hcut hnotify.log_extends, sent_append,
      sent_append]
    exact List.mem_append_left _ (List.mem_append_right _ hreach)
  | offlineNoDb _ hnone _ =>
    have hok : (((s.epollDel fd).delList u.id).answer env (.selectFriends u.id)).1 = .ok :=
      selectFriends_ok (hsel s.log fd) hf
    simp only [cutConn, mysqlGo, hok, if_true] at hnone
    cases hnone

/-- **A teardown leaves the session there, or its friends have heard that it is gone.** -/
theorem Cascade.leads (h : Cascade env c s s') (hu : Leads u s) (hsel : env.Selects u.id) : Heard u s s' := by
  have hrest : ∀ (confd : Int) {id : Int} {s : Server}, Leads u s → id ≠ u.id → Leads u (cut env confd id s) :=
    fun _ _ _ hu hid =>
      hu.sublist (OnlineList.delList_sublist _) ((Keyed.Distinct.mem_eraseP hu.ids).2 ⟨hu.mem, hid.symm⟩)
  induction h with
  | offlineNeg _ => exact .of_mem hu.mem
  | @offlineRows confd id k s s₁ s₂ hid hconn hn hw ih₁ ih₂ =>
    by_cases hself : id = u.id
    · subst hself
      exact Or.inr fun n hm hf => hu.torn (.offlineRows hid hconn hn hw) hsel hm hf
    have hrel := release_log s₂ (some k) confd
    have hl₁ : s.log <+: s₁.log := cut_extends.trans hn.log_extends
    have hcut := hrest confd hu hself
    have h₁ : Heard u s s₁ := (Heard.of_mem hcut.mem).trans cut_extends hn.log_extends hn.sublist cut_db
      fun _ => ih₁ hcut
    have h₂ : Heard u s s₂ := h₁.trans hl₁ hw.log_extends hw.sublist (hn.db_eq.trans cut_db)
      fun hm => ih₂ (hcut.sublist hn.sublist hm)
    exact h₂.trans (hl₁.trans hw.log_extends) ⟨_, hrel.symm⟩ (List.Sublist.refl _)
      (hw.db_eq.trans (hn.db_eq.trans cut_db)) fun hm => .of_mem hm
  | @offlineNoDb confd id s s₁ hid hconn hw ih =>
    by_cases hself : id = u.id
    · subst hself
      exact Or.inr fun n hm hf => hu.torn (.offlineNoDb hid hconn hw) hsel hm hf
    have hrel := release_log s₁ none confd
    have hcut := hrest confd hu hself
    have h₁ : Heard u s s₁ := (Heard.of_mem hcut.mem).trans cut_extends hw.log_extends hw.sublist cut_db
      fun _ => ih hcut
    exact h₁.trans (cut_extends.trans hw.log_extends) ⟨_, hrel.symm⟩ (List.Sublist.refl _) (hw.db_eq.trans cut_db)
      fun hm => .of_mem hm
  | notifyEnd => exact .of_mem hu.mem
  | @notifySkip _ _ k _ s s' _ hn ih =>
    have hread : Leads u (s.emit (.fetchRow (some k))) := hu.same rfl
    exact (Heard.of_mem hread.mem).trans ⟨_, rfl⟩ hn.log_extends hn.sublist rfl fun _ => ih hread
  | @notifySend _ _ k _ p s s₁ s' _ hw hn ih₁ ih₂ =>
    have hl : s.log <+: ((s.emit (.fetchRow (some k))).emit (.deref p.ref true)).log :=
      ⟨[.fetchRow (some k), .deref p.ref true], by simp⟩
    have hread : Leads u ((s.emit (.fetchRow (some k))).emit (.deref p.ref true)) := hu.same rfl
    have h₁ : Heard u s s₁ := (Heard.of_mem hread.mem).trans hl hw.log_extends hw.sublist rfl fun _ => ih₁ hread
    exact h₁.trans (hl.trans hw.log_extends) hn.log_extends hn.sublist hw.db_eq
      fun hm => ih₂ (hread.sublist hw.sublist hm)
  | writeOk _ => exact .of_mem hu.mem
  | @writeFail fd m s s' _ ho ih =>
    have hlost : Leads u (s.emit (.write fd m false)) := hu.same rfl
    exact (Heard.of_mem hlost.mem).trans ⟨_, rfl⟩ ho.log_extends ho.sublist rfl fun _ => ih hlost

/-! ## The loop over the friends -/

/-- The state in which the loop has read a row and the node it found. -/
def rowRead (conn : Option Nat) (p : Node) (s : Server) : Server :=
  (s.emit (.fetchRow conn)).emit (.deref p.ref true)

/-- The state in which it has told `p` about the new session, and reads the node again. -/
def rowTold (conn : Option Nat) (p : Node) (temp : OnlineNode) (s : Server) : Server :=
  ((rowRead conn p s).emit (.write p.sockfd (.online temp) true)).emit (.deref p.ref true)

/-- The state in which the friend has got the node of the session, and the session that of the friend. -/
def rowDone (conn : Option Nat) (p : Node) (confd : Int) (temp : OnlineNode) (s : Server) : Server :=
  (rowTold conn p temp s).emit (.write confd (.online p.toOnlineNode) true)

/-- The state in which the session could not be told about `p`. -/
def rowLeft (env : Env) (conn : Option Nat) (p : Node) (confd : Int) (temp : OnlineNode) (s : Server) : Server :=
  ((rowTold conn p temp s).emit (.write confd (.online p.toOnlineNode) false)).offlineAction env confd
    ((rowTold conn p temp s).sessionId confd)

/-- The state in which `p` could not be told. -/
def rowLost (env : Env) (conn : Option Nat) (p : Node) (temp : OnlineNode) (s : Server) : Server :=
  ((rowRead conn p s).emit (.write p.sockfd (.online temp) false)).offlineAction env p.sockfd
    ((rowRead conn p s).sessionId p.sockfd)

theorem rowRead_log : (rowRead conn p s).log = s.log ++ [.fetchRow conn, .deref p.ref true] := by
  simp [rowRead]

theorem rowTold_log : (rowTold conn p temp s).log = s.log ++
    [.fetchRow conn, .deref p.ref true, .write p.sockfd (.online temp) true, .deref p.ref true] := by
  simp [rowTold, rowRead]

/-- **One row of the loop**: nobody is online; both were told; the session was not, which ends the loop; or the friend
was not. -/
theorem exchange_row (env : Env) (confd : Int) (temp : OnlineNode) (conn : Option Nat) (f : Int) (rows : List Int)
    (s : Server) :
    (s.pOnline.searchList f .byId = none ∧ s.exchangeOnline env confd temp conn (f :: rows) =
        (s.emit (.fetchRow conn)).exchangeOnline env confd temp conn rows) ∨
      ∃ p, s.pOnline.searchList f .byId = some p ∧
        ((env.write (rowRead conn p s).log p.sockfd (.online temp) = true ∧
            env.write (rowTold conn p temp s).log confd (.online p.toOnlineNode) = true ∧
            s.exchangeOnline env confd temp conn (f :: rows) =
              (rowDone conn p confd temp s).exchangeOnline env confd temp conn rows) ∨
          (env.write (rowRead conn p s).log p.sockfd (.online temp) = true ∧
            env.write (rowTold conn p temp s).log confd (.online p.toOnlineNode) = false ∧
            s.exchangeOnline env confd temp conn (f :: rows) = rowLeft env conn p confd temp s) ∨
          (env.write (rowRead conn p s).log p.sockfd (.online temp) = false ∧
            s.exchangeOnline env confd temp conn (f :: rows) =
              (rowLost env conn p temp s).exchangeOnline env confd temp conn rows)) := by
  simp only [exchangeOnline, emit_pOnline]
  cases hp : s.pOnline.searchList f .byId with
  | none => exact Or.inl ⟨rfl, rfl⟩
  | some p =>
    refine Or.inr ⟨p, rfl, ?_⟩
    have hmem : p ∈ (s.emit (.fetchRow conn)).pOnline.nodes := (OnlineList.searchId_some hp).1
    simp only [deref_live env hmem]
    cases hok : env.write (rowRead conn p s).log p.sockfd (.online temp) with
    | false =>
      rw [show (s.emit (.fetchRow conn)).emit (.deref p.ref true) = rowRead conn p s from rfl, writeServer_false hok]
      exact Or.inr (Or.inr ⟨rfl, rfl⟩)
    | true =>
      rw [show (s.emit (.fetchRow conn)).emit (.deref p.ref true) = rowRead conn p s from rfl, writeServer_true hok]
      have hagain : p ∈ ((rowRead conn p s).emit (.write p.sockfd (.online temp) true)).pOnline.nodes := hmem
      simp only [Bool.true_eq_false, if_false, deref_live env hagain]
      rw [show ((rowRead conn p s).emit (.write p.sockfd (.online temp) true)).emit (.deref p.ref true) =
        rowTold conn p temp s from rfl]
      cases hok' : env.write (rowTold conn p temp s).log confd (.online p.toOnlineNode) with
      | true =>
        rw [writeServer_true hok']
        exact Or.inl ⟨trivial, rfl, rfl⟩
      | false =>
        rw [writeServer_false hok']
        exact Or.inr (Or.inl ⟨trivial, rfl, rfl⟩)

theorem exchange_shrinks (env : Env) (confd : Int) (temp : OnlineNode) (conn : Option Nat) (rows : List Int)
    (s : Server) : s.log <+: (s.exchangeOnline env confd temp conn rows).log ∧
      (s.exchangeOnline env confd temp conn rows).pOnline.nodes.Sublist s.pOnline.nodes := by
  have hw : Walk env (exchangeCalls confd temp.id) s (s.exchangeOnline env confd temp conn rows) :=
    exchangeOnline_walk .refl
  exact ⟨hw.passes.log_extends, hw.sublist⟩

/-- The loop gets to the row of `x` while the session of `temp` is up, or is left before. -/
def Meets (env : Env) (confd : Int) (temp : OnlineNode) (conn : Option Nat) (x : Int) : List Int → Server → Prop
  | [], _ => True
  | f :: rows, s =>
    if f = x then (s.pOnline.searchList temp.id .byId).isSome = true
    else
      match s.pOnline.searchList f .byId with
      | none => Meets env confd temp conn x rows (s.emit (.fetchRow conn))
      | some p =>
        if env.write (rowRead conn p s).log p.sockfd (.online temp) = true then
          env.write (rowTold conn p temp s).log confd (.online p.toOnlineNode) = true →
            Meets env confd temp conn x rows (rowDone conn p confd temp s)
        else Meets env confd temp conn x rows (rowLost env conn p temp s)

section Rows

variable {f : Int}

theorem meets_here :
    Meets env confd temp conn f (f :: rows) s ↔ (s.pOnline.searchList temp.id .byId).isSome = true := by
  rw [Meets, if_pos rfl]

theorem meets_skip (hf : f ≠ x) (hp : s.pOnline.searchList f .byId = none) :
    Meets env confd temp conn x (f :: rows) s ↔ Meets env confd temp conn x rows (s.emit (.fetchRow conn)) := by
  rw [Meets, if_neg hf, hp]

theorem meets_done (hf : f ≠ x) (hp : s.pOnline.searchList f .byId = some p)
    (hok : env.write (rowRead conn p s).log p.sockfd (.online temp) = true)
    (hok' : env.write (rowTold conn p temp s).log confd (.online p.toOnlineNode) = true) :
    Meets env confd temp conn x (f :: rows) s ↔ Meets env confd temp conn x rows (rowDone conn p confd temp s) := by
  rw [Meets, if_neg hf, hp]
  simp only [hok, hok', if_true, true_implies]

theorem meets_left (hf : f ≠ x) (hp : s.pOnline.searchList f .byId = some p)
    (hok : env.write (rowRead conn p s).log p.sockfd (.online temp) = true)
    (hok' : env.write (rowTold conn p temp s).log confd (.online p.toOnlineNode) = false) :
    Meets env confd temp conn x (f :: rows) s := by
  rw [Meets, if_neg hf, hp]
  simp [hok, hok']

theorem meets_lost (hf : f ≠ x) (hp : s.pOnline.searchList f .byId = some p)
    (hok : env.write (rowRead conn p s).log p.sockfd (.online temp) = false) :
    Meets env confd temp conn x (f :: rows) s ↔ Meets env confd temp conn x rows (rowLost env conn p temp s) := by
  rw [Meets, if_neg hf, hp]
  simp [hok]

/-- The loop never gets to somebody who is not in the table. -/
theorem meets_of_not_mem (h : x ∉ rows) : Meets env confd temp conn x rows s := by
  induction rows generalizing s with
  | nil => trivial
  | cons f rows ih =>
    rw [List.mem_cons, not_or] at h
    have hf : f ≠ x := fun he => h.1 he.symm
    rcases exchange_row env confd temp conn f rows s with ⟨hp, -⟩ | ⟨p, hp, ⟨hok, hok', -⟩ | ⟨hok, hok', -⟩ | ⟨hok, -⟩⟩
    · exact (meets_skip hf hp).2 (ih h.2)
    · exact (meets_done hf hp hok hok').2 (ih h.2)
    · exact meets_left hf hp hok hok'
    · exact (meets_lost hf hp hok).2 (ih h.2)

/-- The friend of the row has just heard of the session. -/
theorem rowTold_last : lastAbout temp.id (sent p.sockfd (s.news (rowTold conn p temp s))) = some (.online temp) := by
  rw [news_of_log rowTold_log]
  simp [sent, lastAbout, Msg.about]

theorem rowRead_hush : Hush id fd s (rowRead conn p s) := Writes.quiet _ rowRead_log rfl

theorem rowTold_hush (h : p.sockfd ≠ fd) : Hush id fd s (rowTold conn p temp s) := by
  have htell : Hush id fd s ((rowRead conn p s).emit (.write p.sockfd (.online temp) true)) :=
    rowRead_hush.trans (Writes.write fun _ => h)
  exact htell.trans (Writes.quiet [.deref p.ref true] rfl rfl)

/-- What a row finds by the id of a node is that node. -/
theorem searchId_self {f : Int} (hids : OneSession s) (hn : n ∈ s.pOnline.nodes)
    (hp : s.pOnline.searchList f .byId = some p) (hf : f = n.id) : p = n := by
  obtain ⟨hmem, hid⟩ := OnlineList.searchId_some hp
  exact Keyed.Distinct.eq hids hmem hn (hid.trans hf)

/-- A silence in front changes nothing of what is left for the friend. -/
theorem Hush.before {met : Prop} (h : Hush id fd s s₁) (hl : s₁.log <+: s'.log)
    (hrest : (met → Hush id fd s₁ s') ∧ (¬ met → lastAbout id (sent fd (s₁.news s')) = some m)) :
    (met → Hush id fd s s') ∧ (¬ met → lastAbout id (sent fd (s.news s')) = some m) := by
  refine ⟨fun hmet => h.trans (hrest.1 hmet), fun hmet => ?_⟩
  rw [news_trans h.log_extends hl, sent_append]
  exact lastAbout_append _ (hrest.2 hmet)

/-- **Behind the session**: a friend whom the loop gets to is left with `OP_ONLINE`, the others hear nothing. -/
theorem exchange_gone (hs : Sessions s.pOnline) (hpos : 0 ≤ temp.id) (hgone : ∀ n ∈ s.pOnline.nodes, n.id ≠ temp.id)
    (hnd : rows.Nodup) (hn : n ∈ (s.exchangeOnline env confd temp conn rows).pOnline.nodes) :
    (Meets env confd temp conn n.id rows s → Hush temp.id n.sockfd s (s.exchangeOnline env confd temp conn rows)) ∧
      (¬ Meets env confd temp conn n.id rows s →
        lastAbout temp.id (sent n.sockfd (s.news (s.exchangeOnline env confd temp conn rows))) =
          some (.online temp)) := by
  induction rows generalizing s with
  | nil => exact ⟨fun _ => Writes.quiet [.fetchRow conn] rfl rfl, fun h => absurd trivial h⟩
  | cons f rows ih =>
    obtain ⟨hnot, hnd⟩ := List.nodup_cons.1 hnd
    have hstart : n ∈ s.pOnline.nodes := (exchange_shrinks env confd temp conn (f :: rows) s).2.subset hn
    -- the row of `n`, and that of anybody else
    have hself : ∀ {p : Node}, s.pOnline.searchList f .byId = some p → f = n.id → p = n :=
      fun hp hf => searchId_self hs.ids hstart hp hf
    have hother : ∀ {p : Node}, s.pOnline.searchList f .byId = some p → f ≠ n.id → p.sockfd ≠ n.sockfd := by
      intro p hp hf hfd
      obtain ⟨hmem, hid⟩ := OnlineList.searchId_some hp
      obtain rfl : p = n := hs.fds.eq hmem hstart hfd
      exact hf hid.symm
    have hdown : ¬ (s.pOnline.searchList temp.id .byId).isSome = true := by
      rw [OnlineList.searchId_none.2 hgone]
      exact Bool.false_ne_true
    have hmute : ∀ {p : Node}, s.pOnline.searchList f .byId = some p →
        (Msg.online p.toOnlineNode).about temp.id = false :=
      fun hp => decide_eq_false (hgone _ (OnlineList.searchId_some hp).1)
    rcases exchange_row env confd temp conn f rows s with ⟨hp, heq⟩ | ⟨p, hp, hcases⟩
    · -- nobody to tell
      have hf : f ≠ n.id := fun hf => OnlineList.searchId_none.1 hp n hstart hf.symm
      rw [heq] at hn ⊢
      rw [meets_skip hf hp]
      have hrow : Hush temp.id n.sockfd s (s.emit (.fetchRow conn)) := Writes.quiet [.fetchRow conn] rfl rfl
      exact hrow.before (exchange_shrinks env confd temp conn rows _).1
        (ih (s := s.emit (.fetchRow conn)) hs hgone hnd hn)
    obtain ⟨hmem, hid⟩ := OnlineList.searchId_some hp
    have hanswer : ∀ ok, Hush temp.id n.sockfd (rowTold conn p temp s)
        ((rowTold conn p temp s).emit (.write confd (.online p.toOnlineNode) ok)) :=
      fun ok => Hush.of_mute (Writes.write (hmute hp))
    -- the row of `n` with nothing behind it, and another row
    have hhere : f = n.id → Hush temp.id n.sockfd (rowTold conn p temp s)
        (s.exchangeOnline env confd temp conn (f :: rows)) →
        lastAbout temp.id (sent n.sockfd (s.news (s.exchangeOnline env confd temp conn (f :: rows)))) =
          some (.online temp) := by
      intro hf hrest
      obtain rfl := hself hp hf
      rw [hrest.last ⟨_, rowTold_log.symm⟩, rowTold_last]
    rcases hcases with ⟨hok, hok', heq⟩ | ⟨hok, hok', heq⟩ | ⟨hok, heq⟩
    · -- the friend is told, and the answer is written to whom it may concern
      rw [heq] at hn hhere ⊢
      have hrest := ih (s := rowDone conn p confd temp s) hs hgone hnd hn
      by_cases hf : f = n.id
      · subst hf
        rw [meets_here]
        exact ⟨fun h => absurd h hdown, fun _ => hhere rfl ((hanswer true).trans (hrest.1 (meets_of_not_mem hnot)))⟩
      · rw [meets_done hf hp hok hok']
        have hrow : Hush temp.id n.sockfd s (rowDone conn p confd temp s) :=
          (rowTold_hush (hother hp hf)).trans (hanswer true)
        exact hrow.before (exchange_shrinks env confd temp conn rows _).1 hrest
    · -- the answer fails, which ends the loop
      rw [heq] at hn hhere ⊢
      have hleft : Hush temp.id n.sockfd (rowTold conn p temp s) (rowLeft env conn p confd temp s) := by
        refine (hanswer false).trans (Hush.of_mute (cascade_offlineAction.hush hpos hgone ?_))
        exact sessionId_unlike hpos hgone
      by_cases hf : f = n.id
      · subst hf
        rw [meets_here]
        exact ⟨fun h => absurd h hdown, fun _ => hhere rfl hleft⟩
      · have hmet : Meets env confd temp conn n.id (f :: rows) s := meets_left hf hp hok hok'
        exact ⟨fun _ => (rowTold_hush (hother hp hf)).trans hleft, fun h => absurd hmet h⟩
    · -- the friend is torn down
      rw [heq] at hn ⊢
      have hdown' : Cascade env (.offline p.sockfd ((rowRead conn p s).sessionId p.sockfd))
          ((rowRead conn p s).emit (.write p.sockfd (.online temp) false)) (rowLost env conn p temp s) :=
        cascade_offlineAction
      have hsub := hdown'.sublist
      have hkept : n ∈ (rowLost env conn p temp s).pOnline.nodes :=
        (exchange_shrinks env confd temp conn rows _).2.subset hn
      have hf : f ≠ n.id := by
        intro hf
        obtain rfl := hself hp hf
        have hs' : Sessions (rowRead conn p s).pOnline := hs
        exact session_removed hdown' hs' hmem p hkept rfl
      rw [meets_lost hf hp hok]
      have hrest := ih (s := rowLost env conn p temp s) (hs.sublist hsub) (fun k hk => hgone k (hsub.subset hk)) hnd hn
      have hfail : Hush temp.id n.sockfd s ((rowRead conn p s).emit (.write p.sockfd (.online temp) false)) :=
        rowRead_hush.trans (Writes.write fun _ => hother hp hf)
      have hrow : Hush temp.id n.sockfd s (rowLost env conn p temp s) := by
        refine hfail.trans (Hush.of_mute (hdown'.hush hpos hgone ?_))
        exact sessionId_unlike hpos hgone
      exact hrow.before (exchange_shrinks env confd temp conn rows _).1 hrest

/-- The session was told about `n`, and `n` about the session. -/
def Told (u n : Node) (s s' : Server) : Prop :=
  .online u.toOnlineNode ∈ sent n.sockfd (s.news s') ∧ .online n.toOnlineNode ∈ sent u.sockfd (s.news s')

/-- What becomes of the session for its friend `n`, who is to be told if `due`: where they have met it is up and the
two were told of each other, or it is gone and `n` has heard so last; else it is gone and `n` has not. -/
structure Fate (u n : Node) (due met : Prop) (s s' : Server) : Prop where
  known : met → (u ∈ s'.pOnline.nodes ∧ (due → Told u n s s')) ∨
    (u ∉ s'.pOnline.nodes ∧ lastAbout u.id (sent n.sockfd (s.news s')) = some (.offline u.id))
  ghost : ¬ met → u ∉ s'.pOnline.nodes ∧ lastAbout u.id (sent n.sockfd (s.news s')) = some (.online u.toOnlineNode)

variable {due due' met : Prop}

theorem Told.append (hl : s.log <+: s₁.log) (hl' : s₁.log <+: s'.log) (h : Told u n s s₁ ∨ Told u n s₁ s') :
    Told u n s s' := by
  unfold Told
  rw [news_trans hl hl', sent_append, sent_append]
  rcases h with h | h
  · exact ⟨List.mem_append_left _ h.1, List.mem_append_left _ h.2⟩
  · exact ⟨List.mem_append_right _ h.1, List.mem_append_right _ h.2⟩

/-- What came before. -/
theorem Fate.behind (h : Fate u n due met s₁ s') (hl : s.log <+: s₁.log) (hl' : s₁.log <+: s'.log)
    (hdue : due' → due ∨ Told u n s s₁) : Fate u n due' met s s' := by
  have hlast : ∀ {m}, lastAbout u.id (sent n.sockfd (s₁.news s')) = some m →
      lastAbout u.id (sent n.sockfd (s.news s')) = some m := by
    intro m hm
    rw [news_trans hl hl', sent_append]
    exact lastAbout_append _ hm
  refine ⟨fun hmet => ?_, fun hmet => (h.ghost hmet).imp_right hlast⟩
  refine (h.known hmet).imp (fun hup => ⟨hup.1, fun hd => ?_⟩) fun hdown => ⟨hdown.1, hlast hdown.2⟩
  rcases hdue hd with hd | htold
  · exact Told.append hl hl' (Or.inr (hup.2 hd))
  · exact Told.append hl hl' (Or.inl htold)

/-- A session that is torn down before the rows to come. -/
theorem Fate.of_gone (hs : Sessions s₁.pOnline) (hpos : 0 ≤ u.id) (hgone : ∀ n ∈ s₁.pOnline.nodes, n.id ≠ u.id)
    (hnd : rows.Nodup) (hn : n ∈ (s₁.exchangeOnline env confd u.toOnlineNode conn rows).pOnline.nodes)
    (hl : s.log <+: s₁.log) (hlast : lastAbout u.id (sent n.sockfd (s.news s₁)) = some (.offline u.id)) :
    Fate u n due (Meets env confd u.toOnlineNode conn n.id rows s₁) s
      (s₁.exchangeOnline env confd u.toOnlineNode conn rows) := by
  obtain ⟨hlog, hsub⟩ := exchange_shrinks env confd u.toOnlineNode conn rows s₁
  have hdown : u ∉ (s₁.exchangeOnline env confd u.toOnlineNode conn rows).pOnline.nodes :=
    fun hu => hgone u (hsub.subset hu) rfl
  obtain ⟨hquiet, hghost⟩ := exchange_gone hs hpos hgone hnd hn
  refine ⟨fun hmet => Or.inr ⟨hdown, ?_⟩, fun hmet => ⟨hdown, ?_⟩⟩
  · rw [(hquiet hmet).last hl]
    exact hlast
  · rw [news_trans hl hlog, sent_append]
    exact lastAbout_append _ (hghost hmet)

theorem rowDone_log : (rowDone conn p confd temp s).log = s.log ++ [.fetchRow conn, .deref p.ref true,
    .write p.sockfd (.online temp) true, .deref p.ref true, .write confd (.online p.toOnlineNode) true] := by
  simp [rowDone, rowTold, rowRead]

theorem rowDone_told : Told u p s (rowDone conn p u.sockfd u.toOnlineNode s) := by
  unfold Told
  rw [news_of_log rowDone_log]
  exact ⟨mem_sent.2 (by simp), mem_sent.2 (by simp)⟩

/-- A friend who is left behind a teardown of the session. -/
theorem Leads.downs (h : Leads u s) (hc : Cascade env c s s') (hm : ∀ fd m, c.sends fd m → m.about u.id = false)
    (hsel : env.Selects u.id) (hn : n ∈ s'.pOnline.nodes) (hf : n.id ∈ s.db.friends u.id)
    (hu : u ∉ s'.pOnline.nodes) : lastAbout u.id (sent n.sockfd (s.news s')) = some (.offline u.id) := by
  refine last_offline (hc.writes.mono fun fd m hw hab => ?_) ((hc.leads h hsel).resolve_left hu n hn hf)
  rcases hw with hw | hw
  · rw [hm fd m hw] at hab
    cases hab
  · exact Msg.about_teardown hw hab

/-- **The loop over the friends** of a session that is up. -/
theorem exchange_up (h : Leads u s) (hnd : rows.Nodup) (hsel : env.Selects u.id)
    (hn : n ∈ (s.exchangeOnline env u.sockfd u.toOnlineNode conn rows).pOnline.nodes)
    (hf : n.id ∈ s.db.friends u.id) :
    Fate u n (n.id ∈ rows) (Meets env u.sockfd u.toOnlineNode conn n.id rows s) s
      (s.exchangeOnline env u.sockfd u.toOnlineNode conn rows) := by
  induction rows generalizing s with
  | nil => exact ⟨fun _ => Or.inl ⟨h.mem, fun hmem => absurd hmem List.not_mem_nil⟩, fun hmet => absurd trivial hmet⟩
  | cons f rows ih =>
    obtain ⟨hnot, hnd⟩ := List.nodup_cons.1 hnd
    have hstart : n ∈ s.pOnline.nodes :=
      (exchange_shrinks env u.sockfd u.toOnlineNode conn (f :: rows) s).2.subset hn
    have hup : (s.pOnline.searchList u.id .byId).isSome = true := by
      rw [Option.isSome_iff_ne_none]
      exact fun hnone => OnlineList.searchId_none.1 hnone u h.mem rfl
    have hself : ∀ {p : Node}, s.pOnline.searchList f .byId = some p → f = n.id → p = n :=
      fun hp hf => searchId_self h.ids hstart hp hf
    rcases exchange_row env u.sockfd u.toOnlineNode conn f rows s with ⟨hp, heq⟩ | ⟨p, hp, hcases⟩
    · -- nobody to tell
      have hne : f ≠ n.id := fun hf => OnlineList.searchId_none.1 hp n hstart hf.symm
      rw [heq] at hn ⊢
      rw [meets_skip hne hp]
      have hlog := (exchange_shrinks env u.sockfd u.toOnlineNode conn rows (s.emit (.fetchRow conn))).1
      have hrow : s.log <+: (s.emit (.fetchRow conn)).log := ⟨_, rfl⟩
      refine (ih (s := s.emit (.fetchRow conn)) (h.same rfl) hnd hn hf).behind hrow hlog ?_
      exact fun hmem => Or.inl ((List.mem_cons.1 hmem).resolve_left hne.symm)
    obtain ⟨hmem, hid⟩ := OnlineList.searchId_some hp
    rcases hcases with ⟨hok, hok', heq⟩ | ⟨hok, hok', heq⟩ | ⟨hok, heq⟩
    · -- both are told
      rw [heq] at hn ⊢
      have hrow : s.log <+: (rowDone conn p u.sockfd u.toOnlineNode s).log := ⟨_, rowDone_log.symm⟩
      have hlog := (exchange_shrinks env u.sockfd u.toOnlineNode conn rows (rowDone conn p u.sockfd u.toOnlineNode s)).1
      have hrest := ih (s := rowDone conn p u.sockfd u.toOnlineNode s) (h.same rfl) hnd hn hf
      by_cases hne : f = n.id
      · obtain rfl := hself hp hne
        subst hne
        rw [propext (iff_of_true (meets_here.2 hup) (meets_of_not_mem hnot))]
        exact hrest.behind hrow hlog fun _ => Or.inr rowDone_told
      · rw [meets_done hne hp hok hok']
        exact hrest.behind hrow hlog fun hmem => Or.inl ((List.mem_cons.1 hmem).resolve_left (Ne.symm hne))
    · -- the answer fails, which ends the session and the loop
      have hmet : Meets env u.sockfd u.toOnlineNode conn n.id (f :: rows) s := by
        by_cases hne : f = n.id
        · subst hne
          exact meets_here.2 hup
        · exact meets_left hne hp hok hok'
      have hleads : Leads u ((rowTold conn p u.toOnlineNode s).emit (.write u.sockfd (.online p.toOnlineNode) false)) :=
        h.same rfl
      have hdown : Cascade env (.offline u.sockfd u.id)
          ((rowTold conn p u.toOnlineNode s).emit (.write u.sockfd (.online p.toOnlineNode) false))
          (rowLeft env conn p u.sockfd u.toOnlineNode s) := by
        have htold : Leads u (rowTold conn p u.toOnlineNode s) := h.same rfl
        unfold rowLeft
        rw [htold.sessionId_self]
        exact cascade_offlineAction
      have hlog : s.log <+: ((rowTold conn p u.toOnlineNode s).emit
          (.write u.sockfd (.online p.toOnlineNode) false)).log :=
        List.IsPrefix.trans ⟨_, rowTold_log.symm⟩ ⟨_, rfl⟩
      rw [heq] at hn ⊢
      have hgone : u ∉ (rowLeft env conn p u.sockfd u.toOnlineNode s).pOnline.nodes :=
        fun hu => hdown.gone hleads.ids (h.nonneg u h.mem) u hu rfl
      refine ⟨fun _ => Or.inr ⟨hgone, ?_⟩, fun hno => absurd hmet hno⟩
      rw [news_trans hlog hdown.log_extends, sent_append]
      exact lastAbout_append _ (hleads.downs hdown nofun hsel hn hf hgone)
    · -- the friend is torn down, and maybe the session with it
      have hleads : Leads u ((rowRead conn p s).emit (.write p.sockfd (.online u.toOnlineNode) false)) := h.same rfl
      have hdown : Cascade env (.offline p.sockfd ((rowRead conn p s).sessionId p.sockfd))
          ((rowRead conn p s).emit (.write p.sockfd (.online u.toOnlineNode) false))
          (rowLost env conn p u.toOnlineNode s) := cascade_offlineAction
      have hlog : s.log <+: ((rowRead conn p s).emit (.write p.sockfd (.online u.toOnlineNode) false)).log :=
        List.IsPrefix.trans ⟨_, rowRead_log.symm⟩ ⟨_, rfl⟩
      have hlost := hlog.trans hdown.log_extends
      rw [heq] at hn ⊢
      obtain ⟨hlog', hsub⟩ :=
        exchange_shrinks env u.sockfd u.toOnlineNode conn rows (rowLost env conn p u.toOnlineNode s)
      have hkept := hsub.subset hn
      by_cases hu : u ∈ (rowLost env conn p u.toOnlineNode s).pOnline.nodes
      · have hne : f ≠ n.id := by
          intro hne
          obtain rfl := hself hp hne
          have hread : Leads u (rowRead conn p s) := h.same rfl
          by_cases hfd : p.sockfd = u.sockfd
          · rw [hfd, hread.sessionId_self] at hdown
            exact hdown.gone hleads.ids (h.nonneg u h.mem) u hu rfl
          · rw [hread.sessionId_other hmem hfd] at hdown
            exact hdown.gone hleads.ids (h.nonneg p hmem) p hkept rfl
        rw [meets_lost hne hp hok]
        have hfriend : n.id ∈ (rowLost env conn p u.toOnlineNode s).db.friends u.id := by
          rw [hdown.db_eq]
          exact hf
        have hrest :=
          ih (s := rowLost env conn p u.toOnlineNode s) (hleads.sublist hdown.sublist hu) hnd hn hfriend
        exact hrest.behind hlost hlog' fun hmem => Or.inl ((List.mem_cons.1 hmem).resolve_left hne.symm)
      · obtain ⟨hs, hgone⟩ := hleads.without hdown.sublist hu
        have hlast : lastAbout u.id (sent n.sockfd (s.news (rowLost env conn p u.toOnlineNode s))) =
            some (.offline u.id) := by
          rw [news_trans hlog hdown.log_extends, sent_append]
          exact lastAbout_append _ (hleads.downs hdown nofun hsel hkept hf hu)
        have hrest : Fate u n (n.id ∈ f :: rows) _ s _ :=
          Fate.of_gone hs (h.nonneg u h.mem) hgone hnd hn hlost hlast
        by_cases hne : f = n.id
        · subst hne
          rw [propext (iff_of_true (meets_here.2 hup) (meets_of_not_mem hnot))]
          exact hrest
        · rw [meets_lost hne hp hok]
          exact hrest

/-- A session that is up at the end was up at every row. -/
theorem meets_of_mem (h : ∃ n ∈ (s.exchangeOnline env confd temp conn rows).pOnline.nodes, n.id = temp.id) :
    Meets env confd temp conn x rows s := by
  induction rows generalizing s with
  | nil => trivial
  | cons f rows ih =>
    by_cases hf : f = x
    · subst hf
      rw [meets_here, Option.isSome_iff_ne_none]
      obtain ⟨n, hn, hid⟩ := h
      exact fun hnone => OnlineList.searchId_none.1 hnone n
        ((exchange_shrinks env confd temp conn (f :: rows) s).2.subset hn) hid
    rcases exchange_row env confd temp conn f rows s with
      ⟨hp, heq⟩ | ⟨p, hp, ⟨hok, hok', heq⟩ | ⟨hok, hok', -⟩ | ⟨hok, heq⟩⟩
    · exact (meets_skip hf hp).2 (ih (heq ▸ h))
    · exact (meets_done hf hp hok hok').2 (ih (heq ▸ h))
    · exact meets_left hf hp hok hok'
    · exact (meets_lost hf hp hok).2 (ih (heq ▸ h))

end Rows

end UnixNote
