import UnixNote.Lib.Views
import UnixNote.Proof.Replies

/-!
# What the handlers tell about who is online

Only `OP_ONLINE` and `OP_OFFLINE` change the list of a client. When no write and no
`getpeername` fails, these are the ones a handler sends:

* `offline_tells`: a teardown sends the id to the friends that are online.
* `exchange_tells`: a login sends the new node to the friends that are online, and their
  nodes to the new session.
* `introduce_tells`: an approval sends each side the node of the other.
* `Walk.tells_nothing`: everything else sends none.
-/

namespace UnixNote

open Server Views

variable {env : Env} {A : Allowed} {s s' s₁ s₂ : Server} {l : OnlineList} {fd confd id : Int} {m : Msg}
  {evs evs' : List Event} {temp : OnlineNode} {rows : List Int} {n : Node}

/-! ## Changes in messages -/

/-- The change that a client makes to its list. -/
def Msg.change : Msg → Option (Change OnlineNode Int)
  | .online node => some (.add node)
  | .offline id => some (.drop id)
  | _ => none

/-- The nodes of a list, without their addresses. -/
def OnlineList.contents (l : OnlineList) : List OnlineNode := l.nodes.map Node.toOnlineNode

/-- The update that a change makes to the contents of a list. -/
abbrev updateOnline : List OnlineNode → Change OnlineNode Int → List OnlineNode := update OnlineNode.id

/-- A client that reads messages makes their changes. -/
theorem contents_foldl (ms : List Msg) (l : OnlineList) :
    (ms.foldl OnlineList.apply l).contents = (ms.filterMap Msg.change).foldl updateOnline l.contents := by
  induction ms generalizing l with
  | nil => rfl
  | cons m ms ih =>
    rw [List.foldl_cons, ih]
    cases m with
    | online node => rfl
    | offline id =>
      have hdel : (l.delList id .byId).contents = l.contents.eraseP fun n => n.id = id := by
        unfold OnlineList.contents
        rw [OnlineList.delList_nodes, List.eraseP_map]
        rfl
      show (ms.filterMap Msg.change).foldl updateOnline (l.delList id .byId).contents = _
      rw [hdel]
      rfl
    | _ => rfl

/-- Between `s` and `s'` each connection `fd` was told the changes `T fd`. -/
def Tells (T : Int → List (Change OnlineNode Int)) (s s' : Server) : Prop :=
  ∃ evs, s'.log = s.log ++ evs ∧ ∀ fd, (sent fd evs).filterMap Msg.change = T fd

namespace Tells

variable {T U : Int → List (Change OnlineNode Int)}

theorem trans (h₁ : Tells T s s₁) (h₂ : Tells U s₁ s₂) : Tells (fun fd => T fd ++ U fd) s s₂ := by
  obtain ⟨evs, hl, ht⟩ := h₁
  obtain ⟨evs', hl', hu⟩ := h₂
  refine ⟨evs ++ evs', by rw [hl', hl, List.append_assoc], fun fd => ?_⟩
  rw [sent_append, List.filterMap_append, ht, hu]

theorem congr (h : Tells T s s') (hTU : ∀ fd, T fd = U fd) : Tells U s s' := by
  obtain ⟨evs, hl, ht⟩ := h
  exact ⟨evs, hl, fun fd => (ht fd).trans (hTU fd)⟩

theorem refl : Tells (fun _ => []) s s := ⟨[], (List.append_nil _).symm, fun _ => rfl⟩

/-- Calls that do not write. -/
theorem quiet (evs : List Event) (hl : s'.log = s.log ++ evs) (hq : evs.all Event.quiet = true) :
    Tells (fun _ => []) s s' := by
  refine ⟨evs, hl, fun fd => ?_⟩
  rw [sent_quiet hq]
  rfl

/-- A message to `fd`. -/
theorem write (fd : Int) (m : Msg) (s : Server) :
    Tells (fun fd' => if fd' = fd then m.change.toList else []) s (s.emit (.write fd m true)) := by
  refine ⟨[.write fd m true], rfl, fun fd' => ?_⟩
  dsimp only
  by_cases h : fd' = fd
  · rw [if_pos h, h]
    have hone : sent fd [.write fd m true] = [m] := List.filterMap_cons_some (if_pos rfl)
    rw [hone]
    cases hc : m.change with
    | none =>
      rw [List.filterMap_cons_none hc]
      rfl
    | some c =>
      rw [List.filterMap_cons_some hc]
      rfl
  · rw [if_neg h]
    have hnone : sent fd' [.write fd m true] = [] := List.filterMap_cons_none (if_neg (Ne.symm h))
    rw [hnone]
    rfl

theorem news (h : Tells T s s') (fd : Int) : (sent fd (s.news s')).filterMap Msg.change = T fd := by
  obtain ⟨evs, hl, ht⟩ := h
  rw [news_of_log hl]
  exact ht fd

/-- Quiet calls first. -/
theorem after (h : Tells T s₁ s') (evs : List Event) (hl : s₁.log = s.log ++ evs) (hq : evs.all Event.quiet = true) :
    Tells T s s' :=
  ((quiet evs hl hq).trans h).congr fun _ => List.nil_append _

/-- Quiet calls last. -/
theorem before (h : Tells T s s₁) (evs : List Event) (hl : s'.log = s₁.log ++ evs) (hq : evs.all Event.quiet = true) :
    Tells T s s' :=
  (h.trans (quiet evs hl hq)).congr fun _ => List.append_nil _

theorem mysqlEnd (h : Tells T s s') (c : Option Nat) : Tells T s (s'.mysqlEnd c) := h.before _ (mysqlEnd_log s' c) rfl

end Tells

/-! ## A kernel that never fails -/

/-- Every write and every `getpeername` succeeds. -/
structure Env.Flawless (env : Env) : Prop where
  write : ∀ log fd m, env.write log fd m = true
  getpeername : ∀ log fd, env.getpeername log fd ≠ none

theorem calm_flawless : calm.Flawless := ⟨fun _ _ _ => rfl, fun _ _ => Option.some_ne_none _⟩

/-- `Write_server` is one write. -/
theorem Env.Flawless.writeServer (h : env.Flawless) :
    s.writeServer env fd m = (s.emit (.write fd m true), true) := by
  unfold Server.writeServer Server.write
  simp only [h.write, if_true]

/-- A walk without teardowns only writes and asks. -/
theorem Walk.flawless (henv : env.Flawless) (hw : Walk env A s s') (hoff : ∀ fd id, ¬ A.offline fd id) :
    s'.pOnline = s.pOnline ∧ s'.opened = s.opened ∧ Writes A.write s s' := by
  induction hw with
  | refl => exact ⟨rfl, rfl, Writes.refl⟩
  | tail _ hm ih =>
    obtain ⟨hp, ho, hwr⟩ := ih
    cases hm with
    | emit he => exact ⟨hp, ho, hwr.trans (Writes.quiet [_] rfl (by simpa using he))⟩
    | query _ => exact ⟨hp, ho, hwr.trans (Writes.quiet [_] rfl rfl)⟩
    | write hA =>
      rw [henv.writeServer]
      exact ⟨hp, ho, hwr.trans (Writes.write hA)⟩
    | offline hA => exact absurd hA (hoff _ _)

/-- **A walk that writes neither `OP_ONLINE` nor `OP_OFFLINE`** tells nothing. -/
theorem Walk.tells_nothing (henv : env.Flawless) (hw : Walk env A s s') (hoff : ∀ fd id, ¬ A.offline fd id)
    (hA : ∀ fd m, A.write fd m → m.change = none) : Tells (fun _ => []) s s' := by
  obtain ⟨-, -, evs, hl, hwr⟩ := Walk.flawless henv hw hoff
  refine ⟨evs, hl, fun fd => List.filterMap_eq_nil_iff.2 fun m hm => ?_⟩
  exact hA fd m (hwr fd m true (mem_sent.1 hm))

/-! ## Telling the friends -/

/-- The change `c` for `fd` when the session on `fd` is among `rows`. -/
def toFriends (l : OnlineList) (rows : List Int) (c : Change OnlineNode Int) (fd : Int) :
    List (Change OnlineNode Int) :=
  rows.flatMap fun f =>
    match l.searchList f .byId with
    | none => []
    | some p => if fd = p.sockfd then [c] else []

/-- A session hears of it once, if it is among the rows. -/
theorem toFriends_session (hs : Sessions l) (hn : n ∈ l.nodes) (hd : rows.Nodup) (c : Change OnlineNode Int) :
    toFriends l rows c n.sockfd = if n.id ∈ rows then [c] else [] := by
  have hone : ∀ f, (match l.searchList f .byId with
      | none => []
      | some p => if n.sockfd = p.sockfd then [c] else []) = if f = n.id then [c] else [] := by
    intro f
    cases hp : l.searchList f .byId with
    | none =>
      have hne : f ≠ n.id := fun heq => OnlineList.searchId_none.1 hp n hn heq.symm
      simp only [hne, if_false]
    | some p =>
      obtain ⟨hmem, rfl⟩ := OnlineList.searchId_some hp
      have hl : n.sockfd = p.sockfd ↔ p.id = n.id := by
        rw [hs.linked hmem n hn]
        exact eq_comm
      simp only [hl]
  unfold toFriends
  simp only [hone]
  clear hone
  induction rows with
  | nil => rfl
  | cons f rows ih =>
    obtain ⟨hf, hd⟩ := List.nodup_cons.1 hd
    rw [List.flatMap_cons, ih hd]
    by_cases heq : f = n.id
    · subst heq
      rw [if_pos rfl, if_neg hf, if_pos List.mem_cons_self]
      rfl
    · have hmem : n.id ∈ f :: rows ↔ n.id ∈ rows := by
        rw [List.mem_cons]
        exact or_iff_right (Ne.symm heq)
      simp only [heq, if_false, List.nil_append, hmem]

/-- A connection without a session hears nothing. -/
theorem toFriends_none (hfd : ∀ n ∈ l.nodes, n.sockfd ≠ fd) (c : Change OnlineNode Int) :
    toFriends l rows c fd = [] := by
  unfold toFriends
  rw [List.flatMap_eq_nil_iff]
  intro f _
  cases hp : l.searchList f .byId with
  | none => rfl
  | some p => exact if_neg (Ne.symm (hfd p (OnlineList.searchId_some hp).1))

/-! ## Teardowns -/

/-- The loop of `offline_action`. -/
theorem notify_tells (henv : env.Flawless) {c : Nat} (h : Cascade env (.notify id c rows) s s') :
    s'.pOnline = s.pOnline ∧ s'.opened = s.opened ∧ Tells (toFriends s.pOnline rows (.drop id)) s s' := by
  induction rows generalizing s with
  | nil =>
    cases h with
    | notifyEnd => exact ⟨rfl, rfl, Tells.quiet [.fetchRow (some c)] rfl rfl⟩
  | cons f rows ih =>
    cases h with
    | notifySkip hp hn =>
      obtain ⟨hl, ho, ht⟩ := ih hn
      refine ⟨hl, ho, (ht.after [.fetchRow (some c)] rfl rfl).congr fun fd => ?_⟩
      unfold toFriends
      rw [List.flatMap_cons, emit_pOnline, hp]
      rfl
    | @notifySend _ _ _ _ p _ _ _ hp hw hn =>
      cases hw with
      | writeFail hfail =>
        rw [henv.write] at hfail
        cases hfail
      | writeOk _ =>
        obtain ⟨hl, ho, ht⟩ := ih hn
        refine ⟨hl, ho, ?_⟩
        have hsend := (Tells.write p.sockfd (.offline id)
          ((s.emit (.fetchRow (some c))).emit (.deref p.ref true))).after
          (s := s) [.fetchRow (some c), .deref p.ref true] (by simp) rfl
        refine (hsend.trans ht).congr fun fd => ?_
        unfold toFriends
        rw [List.flatMap_cons, hp]
        rfl

/-- **A teardown** removes the user and tells its friends. -/
theorem offline_tells (henv : env.Flawless) (hid : 0 ≤ id)
    (hok : (((s.epollDel confd).delList id).answer env (.selectFriends id)).1 = .ok) :
    (s.offlineAction env confd id).pOnline = s.pOnline.delList id .byId ∧
      (s.offlineAction env confd id).opened = s.opened.filter (· ≠ confd) ∧
      Tells (toFriends (s.pOnline.delList id .byId) (s.db.friends id) (.drop id)) s (s.offlineAction env confd id) := by
  have h : Cascade env (.offline confd id) s (s.offlineAction env confd id) := cascade_offlineAction
  generalize s.offlineAction env confd id = s' at h ⊢
  cases h with
  | offlineNeg hneg => omega
  | offlineNoDb _ hno _ =>
    unfold cutConn mysqlGo at hno
    rw [if_pos hok] at hno
    cases hno
  | @offlineRows _ _ c _ s₁ s₂ _ _ hn hw =>
    obtain ⟨hl, ho, ht⟩ := notify_tells henv hn
    cases hw with
    | writeFail hfail =>
      rw [henv.write] at hfail
      cases hfail
    | writeOk _ =>
      refine ⟨hl, congrArg (List.filter _) ho, ?_⟩
      have hcut := ht.after (s := s) [.epollDel confd, .query (.selectFriends id)
        (((s.epollDel confd).delList id).answer env (.selectFriends id)).1] (by
          show (s.log ++ [_]) ++ [_] = _
          rw [List.append_assoc]
          rfl) rfl
      have hbye := (hcut.trans (Tells.write confd .allowDisconnect s₁)).congr
        (U := toFriends (s.pOnline.delList id .byId) (s.db.friends id) (.drop id)) fun fd => by
          simp [Msg.change]
      exact hbye.before [.freeResult (some c), .mysqlClose (some c), .close confd] (by simp) rfl

/-! ## Logins -/

/-- What the loop of `login_action` sends: the new node to the friends that are online, and
their nodes to the connection `confd`. -/
def exchanged (l : OnlineList) (rows : List Int) (temp : OnlineNode) (confd fd : Int) :
    List (Change OnlineNode Int) :=
  rows.flatMap fun f =>
    match l.searchList f .byId with
    | none => []
    | some p =>
      (if fd = p.sockfd then [.add temp] else []) ++ (if fd = confd then [.add p.toOnlineNode] else [])

/-- The loop of `login_action`. -/
theorem exchange_tells (confd : Int) (henv : env.Flawless) (temp : OnlineNode) (c : Option Nat) (rows : List Int)
    (s : Server) :
    (s.exchangeOnline env confd temp c rows).pOnline = s.pOnline ∧
      (s.exchangeOnline env confd temp c rows).opened = s.opened ∧
      (s.exchangeOnline env confd temp c rows).db = s.db ∧
      Tells (exchanged s.pOnline rows temp confd) s (s.exchangeOnline env confd temp c rows) := by
  induction rows generalizing s with
  | nil => exact ⟨rfl, rfl, rfl, Tells.quiet [.fetchRow c] rfl rfl⟩
  | cons f rows ih =>
    simp only [exchangeOnline, emit_pOnline]
    cases hp : s.pOnline.searchList f .byId with
    | none =>
      obtain ⟨hl, ho, hdb, ht⟩ := ih (s.emit (.fetchRow c))
      refine ⟨hl, ho, hdb, (ht.after [.fetchRow c] rfl rfl).congr fun fd => ?_⟩
      unfold exchanged
      rw [List.flatMap_cons, emit_pOnline, hp]
      rfl
    | some p =>
      have hmem : p ∈ s.pOnline.nodes := (OnlineList.searchId_some hp).1
      -- both reads of the pointer find the node in the list, and both writes succeed
      have hread : ∀ s₁ : Server, s₁.pOnline = s.pOnline →
          s₁.deref env p = (s₁.emit (.deref p.ref true), p.toOnlineNode) :=
        fun s₁ h => deref_live env (h ▸ hmem)
      simp only [henv.writeServer, Bool.true_eq_false, if_false, hread (s.emit (.fetchRow c)) rfl,
        hread (((s.emit (.fetchRow c)).emit (.deref p.ref true)).emit (.write p.sockfd (.online temp) true)) rfl]
      obtain ⟨hl, ho, hdb, ht⟩ := ih (((((s.emit (.fetchRow c)).emit (.deref p.ref true)).emit
        (.write p.sockfd (.online temp) true)).emit (.deref p.ref true)).emit
        (.write confd (.online p.toOnlineNode) true))
      simp only [emit_pOnline, emit_opened, emit_db] at hl ho hdb ht
      refine ⟨hl, ho, hdb, ?_⟩
      have h₁ := (Tells.write p.sockfd (.online temp) ((s.emit (.fetchRow c)).emit (.deref p.ref true))).after
        (s := s) [.fetchRow c, .deref p.ref true] (by simp) rfl
      have h₂ : Tells _ s ((((s.emit (.fetchRow c)).emit (.deref p.ref true)).emit
          (.write p.sockfd (.online temp) true)).emit (.deref p.ref true)) := h₁.before [.deref p.ref true] rfl rfl
      refine ((h₂.trans (Tells.write confd (.online p.toOnlineNode) _)).trans ht).congr fun fd => ?_
      unfold exchanged
      rw [List.flatMap_cons, hp]
      rfl

/-- Elsewhere this is the new node for the friends. -/
theorem exchanged_elsewhere (hne : fd ≠ confd) :
    exchanged l rows temp confd fd = toFriends l rows (.add temp) fd := by
  unfold exchanged toFriends
  simp only [hne, if_false, List.append_nil]

/-- On its own connection it is the nodes of the friends. -/
theorem exchanged_own (h : ∀ f ∈ rows, ∀ p, l.searchList f .byId = some p → p.sockfd ≠ confd) :
    exchanged l rows temp confd confd =
      (rows.filterMap fun f => (l.searchList f .byId).map Node.toOnlineNode).map .add := by
  induction rows with
  | nil => rfl
  | cons f rows ih =>
    have hrest := ih fun g hg => h g (List.mem_cons_of_mem _ hg)
    unfold exchanged at hrest ⊢
    rw [List.flatMap_cons, hrest]
    cases hp : l.searchList f .byId with
    | none => rw [List.filterMap_cons_none (by rw [hp]; rfl)]; rfl
    | some p =>
      have hne : confd ≠ p.sockfd := Ne.symm (h f List.mem_cons_self p hp)
      rw [List.filterMap_cons_some (b := p.toOnlineNode) (by rw [hp]; rfl)]
      simp only [hne, if_false, if_true, List.nil_append]
      rfl

/-- **A login that passed its checks** opens its session and exchanges nodes. -/
theorem open_tells (henv : env.Flawless) {user : User} {c : Option Nat} {addr : SockAddr}
    (haddr : env.getpeername s.log confd = some addr)
    (hok : ((greeted env confd user addr s).answer env (.selectFriends user.id)).1 = .ok) :
    (s.openSession env confd user c).pOnline = s.pOnline.addList ⟨user.id, confd, addr⟩ ∧
      (s.openSession env confd user c).opened = s.opened ∧ (s.openSession env confd user c).db = s.db ∧
      Tells (exchanged (s.pOnline.addList ⟨user.id, confd, addr⟩) (s.db.friends user.id) ⟨user.id, confd, addr⟩ confd)
        s (s.openSession env confd user c) := by
  have hgreet : greeted env confd user addr s =
      (withSession confd user addr s).emit (.write confd (.loginFeedback 0) true) := by
    unfold greeted
    rw [henv.writeServer]
  have hdb : ((greeted env confd user addr s).query env (.selectFriends user.id)).db = s.db := by
    rw [query_selectFriends_db, hgreet]
    rfl
  have hopen : s.openSession env confd user c =
      (((greeted env confd user addr s).query env (.selectFriends user.id)).exchangeOnline env confd
        ⟨user.id, confd, addr⟩ (some (greeted env confd user addr s).log.length) (s.db.friends user.id)).mysqlEnd
        (some (greeted env confd user addr s).log.length) := by
    rw [openSession_friends c haddr hok, hdb]
  obtain ⟨hl, ho, hdb', ht⟩ := exchange_tells confd henv ⟨user.id, confd, addr⟩
    (some (greeted env confd user addr s).log.length) (s.db.friends user.id)
    ((greeted env confd user addr s).query env (.selectFriends user.id))
  rw [hopen]
  have hnodes : ((greeted env confd user addr s).query env (.selectFriends user.id)).pOnline =
      s.pOnline.addList ⟨user.id, confd, addr⟩ := by
    rw [hgreet]
    rfl
  have hopened : ((greeted env confd user addr s).query env (.selectFriends user.id)).opened = s.opened := by
    rw [hgreet]
    rfl
  refine ⟨hl.trans hnodes, ho.trans hopened, hdb'.trans hdb, ?_⟩
  rw [hnodes] at ht
  have hflag := (Tells.write confd (.loginFeedback 0) (withSession confd user addr s)).after (s := s)
    [.getpeername confd true] rfl rfl
  rw [← hgreet] at hflag
  have hquery : Tells _ s ((greeted env confd user addr s).query env (.selectFriends user.id)) :=
    hflag.before [_] (query_log _ _ _) rfl
  refine ((hquery.trans ht).mysqlEnd _).congr fun fd => ?_
  simp [Msg.change]

/-! ## Approvals -/

/-- The two `OP_ONLINE` of `allow_addf_action`. -/
theorem introduce_tells (henv : env.Flawless) {psrc pdst : Node} (hsrc : psrc ∈ s.pOnline.nodes)
    (hdst : pdst ∈ s.pOnline.nodes) :
    (s.introduce env (some psrc) (some pdst)).pOnline = s.pOnline ∧
      (s.introduce env (some psrc) (some pdst)).opened = s.opened ∧
      Tells (fun fd => (if fd = psrc.sockfd then [.add pdst.toOnlineNode] else []) ++
        (if fd = pdst.sockfd then [.add psrc.toOnlineNode] else [])) s (s.introduce env (some psrc) (some pdst)) := by
  have hread : ∀ (s₁ : Server) (p : Node), s₁.pOnline = s.pOnline → p ∈ s.pOnline.nodes →
      s₁.deref env p = (s₁.emit (.deref p.ref true), p.toOnlineNode) :=
    fun s₁ p h hp => deref_live env (h ▸ hp)
  unfold introduce
  simp only [henv.writeServer, hread s psrc rfl hsrc, hread (s.emit (.deref psrc.ref true)) pdst rfl hdst]
  rw [hread (((s.emit (.deref psrc.ref true)).emit (.deref pdst.ref true)).emit
    (.write psrc.sockfd (.online pdst.toOnlineNode) true)) pdst rfl hdst]
  dsimp only
  rw [hread ((((s.emit (.deref psrc.ref true)).emit (.deref pdst.ref true)).emit
    (.write psrc.sockfd (.online pdst.toOnlineNode) true)).emit (.deref pdst.ref true)) psrc rfl hsrc]
  refine ⟨by simp only [emit_pOnline], by simp only [emit_opened], ?_⟩
  have h₁ := (Tells.write psrc.sockfd (.online pdst.toOnlineNode)
    ((s.emit (.deref psrc.ref true)).emit (.deref pdst.ref true))).after (s := s)
    [.deref psrc.ref true, .deref pdst.ref true] (by simp) rfl
  have h₂ := (Tells.write pdst.sockfd (.online psrc.toOnlineNode)
    (((((s.emit (.deref psrc.ref true)).emit (.deref pdst.ref true)).emit
      (.write psrc.sockfd (.online pdst.toOnlineNode) true)).emit (.deref pdst.ref true)).emit
      (.deref psrc.ref true))).after
    (s := ((s.emit (.deref psrc.ref true)).emit (.deref pdst.ref true)).emit
      (.write psrc.sockfd (.online pdst.toOnlineNode) true)) [.deref pdst.ref true, .deref psrc.ref true] (by simp) rfl
  exact h₁.trans h₂

end UnixNote
