import UnixNote.Proof.Friendship
import UnixNote.Proof.Presence

/-!
# What a client ought to see

`Server.Visible s fd` is what the client on `fd` ought to have in its list: the friends of
its user that are online. Each handler that changes it sends every connection that stays
open the changes that lead from the old state to the new one: `offline_tracks`,
`login_tracks`, `approve_tracks`. All others change nothing and tell nothing
(`tracks_idle`).
-/

namespace UnixNote

open Server Views

variable {env : Env} {s s' : Server} {fd confd id src dst v : Int} {n : Node} {x : OnlineNode} {user : User}
  {f : Frame}

/-! ## Statements that are answered -/

/-- Anything but a statement that failed for another reason than a row that is there already. -/
def Event.answered : Event → Bool
  | .query _ .error => false
  | _ => true

/-- Every statement so far was answered. -/
def Server.Answered (s : Server) : Prop := ∀ e ∈ s.log, e.answered = true

instance (s : Server) : Decidable s.Answered := by unfold Answered; infer_instance

theorem Server.Answered.before (h : s'.Answered) (hl : s.log <+: s'.log) : s.Answered :=
  fun e he => h e (hl.subset he)

theorem Server.Answered.query {q : Stmt} (h : (s.query env q).Answered) : (s.answer env q).1 ≠ .error := by
  intro herr
  have := h (.query q (s.answer env q).1) (by simp)
  rw [herr] at this
  cases this

/-- A select that is answered was executed, on a table that is there. -/
theorem answer_selectFriends (h : (s.answer env (.selectFriends id)).1 ≠ .error) :
    (s.answer env (.selectFriends id)).1 = .ok ∧ 0 ≤ id := by
  unfold answer at h ⊢
  split
  · rename_i hsql
    rw [if_pos hsql] at h
    simp only [Database.exec] at h ⊢
    split
    · rename_i htab
      obtain ⟨t, ht⟩ := Option.isSome_iff_exists.1 htab
      exact ⟨rfl, Database.table_nonneg ht⟩
    · rename_i htab
      rw [if_neg htab] at h
      exact absurd rfl h
  · rename_i hsql
    rw [if_neg hsql] at h
    exact absurd rfl h

/-- An insert that is answered takes effect exactly when its row is not there. -/
theorem takes_iff {a b : Int} (h : (s.answer env (.insertFriend a b)).1 ≠ .error) :
    Takes env s.log s.db a b ↔ b ∉ s.db.friends a := by
  constructor
  · rintro ⟨-, t, ht, hb⟩
    rwa [Database.friends_some ht]
  · intro hb
    unfold answer at h
    by_cases hsql : env.sql s.log (.insertFriend a b) = true
    swap
    · rw [if_neg hsql] at h
      exact absurd rfl h
    rw [if_pos hsql] at h
    cases ht : s.db.table a with
    | none =>
      simp only [Database.exec, ht] at h
      exact absurd rfl h
    | some t =>
      rw [Database.friends_some ht] at hb
      exact ⟨hsql, t, ht, hb⟩

/-! ## What a client ought to see -/

/-- The friends of the user on `fd` that are online. -/
def Server.Visible (s : Server) (fd : Int) (x : OnlineNode) : Prop :=
  ∃ u ∈ s.pOnline.nodes, u.sockfd = fd ∧ x.id ∈ s.db.friends u.id ∧ x ∈ s.pOnline.contents

/-- The changes sent to `fd` between `s` and `s'` take a list of what the client ought to see
in `s` to one of what it ought to see in `s'`. -/
def Server.TracksTo (s s' : Server) (fd : Int) : Prop :=
  Tracks OnlineNode.id (s.Visible fd) ((sent fd (s.news s')).filterMap Msg.change) (s'.Visible fd)

theorem mem_contents {l : OnlineList} : x ∈ l.contents ↔ ∃ m ∈ l.nodes, m.toOnlineNode = x := List.mem_map

theorem visible_session (h : Sessions s.pOnline) (hn : n ∈ s.pOnline.nodes) :
    s.Visible n.sockfd x ↔ x.id ∈ s.db.friends n.id ∧ x ∈ s.pOnline.contents := by
  constructor
  · rintro ⟨u, hu, hfd, hx⟩
    rw [h.fds.eq hu hn hfd] at hx
    exact hx
  · intro hx
    exact ⟨n, hn, rfl, hx⟩

theorem not_visible (hfd : ∀ n ∈ s.pOnline.nodes, n.sockfd ≠ fd) : ¬ s.Visible fd x := by
  rintro ⟨u, hu, heq, -⟩
  exact hfd u hu heq

/-- Friendship is mutual, and nobody is its own friend. -/
structure Database.Friendly (db : Database) : Prop where
  symmetric : db.Symmetric
  irreflexive : ∀ x, x ∉ db.friends x

theorem Database.Friendly.congr {db db' : Database} (h : db.Friendly) (hf : db'.friends = db.friends) : db'.Friendly :=
  ⟨fun a b => by rw [hf]; exact h.symmetric a b, fun x => by rw [hf]; exact h.irreflexive x⟩

/-- Nothing has to be told to a connection whose user sees the same people as before. -/
theorem tracks_same (hp : s'.pOnline = s.pOnline)
    (hf : ∀ n ∈ s.pOnline.nodes, n.sockfd = fd → ∀ m ∈ s.pOnline.nodes,
      (m.id ∈ s'.db.friends n.id ↔ m.id ∈ s.db.friends n.id))
    (hnews : (sent fd (s.news s')).filterMap Msg.change = []) : s.TracksTo s' fd := by
  unfold TracksTo
  rw [hnews]
  refine Tracks.nil fun x => ?_
  unfold Visible
  rw [hp]
  constructor
  · rintro ⟨u, hu, hfd, hx, hmem⟩
    obtain ⟨m, hm, rfl⟩ := mem_contents.1 hmem
    exact ⟨u, hu, hfd, (hf u hu hfd m hm).1 hx, hmem⟩
  · rintro ⟨u, hu, hfd, hx, hmem⟩
    obtain ⟨m, hm, rfl⟩ := mem_contents.1 hmem
    exact ⟨u, hu, hfd, (hf u hu hfd m hm).2 hx, hmem⟩

/-- An action that changes neither sessions nor friends, and tells nothing. -/
theorem tracks_idle (hp : s'.pOnline = s.pOnline) (hf : s'.db.friends = s.db.friends) (ht : Tells (fun _ => []) s s') :
    s.TracksTo s' fd :=
  tracks_same hp (fun _ _ _ _ _ => by rw [hf]) (ht.news fd)

/-! ## Teardowns -/

/-- The select of a teardown is in its log. -/
theorem offline_answered (hid : 0 ≤ id) (hans : (s.offlineAction env confd id).Answered) :
    (((s.epollDel confd).delList id).answer env (.selectFriends id)).1 = .ok := by
  have h : Cascade env (.offline confd id) s (s.offlineAction env confd id) := cascade_offlineAction
  have hcut : (cut env confd id s).log <+: (s.offlineAction env confd id).log := by
    generalize s.offlineAction env confd id = s' at h
    cases h with
    | offlineNeg hneg => omega
    | offlineRows _ _ hn hw =>
      refine (hn.log_extends.trans hw.log_extends).trans ?_
      simp only [close_log, mysqlEnd_log, List.append_assoc, List.prefix_append]
    | offlineNoDb _ _ hw =>
      refine hw.log_extends.trans ?_
      simp only [close_log, mysqlEnd_log, List.append_assoc, List.prefix_append]
  have hquery : (((s.epollDel confd).delList id).query env (.selectFriends id)).Answered := hans.before hcut
  exact (answer_selectFriends hquery.query).1

/-- **A teardown** takes its user out of the lists of its friends. -/
theorem offline_tracks (henv : env.Flawless) (h : Table s) (hdb : s.db.Friendly) (hid : 0 ≤ id)
    (hl : Linked s.pOnline confd id) (hans : (s.offlineAction env confd id).Answered)
    (hfd : fd ∈ (s.offlineAction env confd id).opened) : s.TracksTo (s.offlineAction env confd id) fd := by
  obtain ⟨hp, ho, ht⟩ := offline_tells henv hid (offline_answered hid hans)
  have hf : (s.offlineAction env confd id).db = s.db := cascade_offlineAction.db_eq
  have hne : fd ≠ confd := by
    rw [ho, List.mem_filter] at hfd
    simpa using hfd.2
  have hmem : ∀ x, x ∈ (s.offlineAction env confd id).pOnline.contents ↔ x ∈ s.pOnline.contents ∧ x.id ≠ id := by
    intro x
    rw [hp, mem_contents, mem_contents]
    constructor
    · rintro ⟨m, hm, rfl⟩
      obtain ⟨hm, hmid⟩ := h.sessions.mem_delList.1 hm
      exact ⟨⟨m, hm, rfl⟩, hmid⟩
    · rintro ⟨⟨m, hm, rfl⟩, hmid⟩
      exact ⟨m, h.sessions.mem_delList.2 ⟨hm, hmid⟩, rfl⟩
  unfold TracksTo
  rw [ht.news]
  by_cases hnode : ∃ n ∈ s.pOnline.nodes, n.sockfd = fd
  · obtain ⟨n, hn, rfl⟩ := hnode
    -- `fd` is still open, so its user is another one
    have hnid : n.id ≠ id := fun heq => hne ((hl n hn).2 heq)
    have hn' : n ∈ (s.pOnline.delList id .byId).nodes := h.sessions.mem_delList.2 ⟨hn, hnid⟩
    rw [toFriends_session h.sessions.delList hn' (s.db.friends_nodup id)]
    have hvis : ∀ x, (s.offlineAction env confd id).Visible n.sockfd x ↔ s.Visible n.sockfd x ∧ x.id ≠ id := by
      intro x
      rw [visible_session (hp ▸ h.sessions.delList) (hp ▸ hn'), visible_session h.sessions hn, hf, hmem, and_assoc]
    split
    · exact Tracks.drop hvis
    · rename_i hno
      refine Tracks.nil fun x => (hvis x).trans (and_iff_left_of_imp fun hx heq => hno ?_)
      have := ((visible_session h.sessions hn).1 hx).1
      -- by symmetry a friend would have been in the table of `id`
      rw [heq] at this
      exact (hdb.symmetric id n.id).2 this
  · have hnone : ∀ n ∈ s.pOnline.nodes, n.sockfd ≠ fd := fun n hn heq => hnode ⟨n, hn, heq⟩
    have hnone' : ∀ n ∈ (s.offlineAction env confd id).pOnline.nodes, n.sockfd ≠ fd := by
      intro n hn
      rw [hp] at hn
      exact hnone n (OnlineList.delList_sublist _ |>.subset hn)
    rw [toFriends_none (hp ▸ hnone')]
    exact Tracks.nil fun x => iff_of_false (not_visible hnone') (not_visible hnone)

/-! ## Logins -/

/-- The select of the friend table is in the log of a login. -/
theorem openSession_answered (henv : env.Flawless) {c : Option Nat} (hans : (s.openSession env confd user c).Answered) :
    ∃ addr, env.getpeername s.log confd = some addr ∧
      ((greeted env confd user addr s).answer env (.selectFriends user.id)).1 = Outcome.ok ∧ 0 ≤ user.id := by
  rcases openSession_cases env confd user c s with ⟨hnone, -⟩ | ⟨addr, haddr, hw⟩
  · exact absurd hnone (henv.getpeername s.log confd)
  · have hquery : ((greeted env confd user addr s).query env (.selectFriends user.id)).Answered :=
      hans.before hw.writes.log_extends
    exact ⟨addr, haddr, answer_selectFriends hquery.query⟩

/-- What a connection hears about the new session `t` of a user who was not online. -/
theorem join_tracks {t : OnlineNode} (h : Table s) (hdb : s.db.Friendly) (ht : Table (s.addList t))
    (hnew : ∀ n ∈ s.pOnline.nodes, n.id ≠ t.id) (hp : s'.pOnline = s.pOnline.addList t)
    (hf : s'.db.friends = s.db.friends) (hne : fd ≠ t.sockfd)
    (hnews : (sent fd (s.news s')).filterMap Msg.change =
      toFriends (s.pOnline.addList t) (s.db.friends t.id) (.add t) fd) : s.TracksTo s' fd := by
  have hmem : ∀ x, x ∈ s'.pOnline.contents ↔ x = t ∨ x ∈ s.pOnline.contents := by
    intro x
    rw [hp]
    exact List.mem_cons
  unfold TracksTo
  rw [hnews]
  by_cases hnode : ∃ n ∈ s.pOnline.nodes, n.sockfd = fd
  · obtain ⟨n, hn, rfl⟩ := hnode
    have hn' : n ∈ (s.pOnline.addList t).nodes := List.mem_cons_of_mem _ hn
    have hsess : Sessions (s.pOnline.addList t) := ht.sessions
    rw [toFriends_session hsess hn' (s.db.friends_nodup t.id)]
    have hvis : ∀ x, s'.Visible n.sockfd x ↔ (x = t ∧ t.id ∈ s.db.friends n.id) ∨ s.Visible n.sockfd x := by
      intro x
      rw [visible_session (hp ▸ ht.sessions) (hp ▸ hn'), visible_session h.sessions hn, hf, hmem]
      constructor
      · rintro ⟨hx, rfl | hx'⟩
        · exact Or.inl ⟨rfl, hx⟩
        · exact Or.inr ⟨hx, hx'⟩
      · rintro (⟨rfl, hx⟩ | ⟨hx, hx'⟩)
        · exact ⟨hx, Or.inl rfl⟩
        · exact ⟨hx, Or.inr hx'⟩
    split
    · rename_i hfriend
      refine Tracks.add (fun x hx => ?_) fun x => ?_
      · obtain ⟨-, hx⟩ := (visible_session h.sessions hn).1 hx
        obtain ⟨m, hm, rfl⟩ := mem_contents.1 hx
        exact hnew m hm
      · rw [hvis x, and_iff_left ((hdb.symmetric t.id n.id).1 hfriend)]
    · rename_i hno
      refine Tracks.nil fun x => (hvis x).trans (or_iff_right ?_)
      rintro ⟨-, hx⟩
      exact hno ((hdb.symmetric t.id n.id).2 hx)
  · have hnone : ∀ n ∈ s.pOnline.nodes, n.sockfd ≠ fd := fun n hn heq => hnode ⟨n, hn, heq⟩
    have hnone' : ∀ n ∈ (s.pOnline.addList t).nodes, n.sockfd ≠ fd := by
      intro n hn
      rcases List.mem_cons.1 hn with rfl | hn
      · exact Ne.symm hne
      · exact hnone n hn
    rw [toFriends_none hnone']
    exact Tracks.nil fun x => iff_of_false (not_visible (hp ▸ hnone')) (not_visible hnone)

/-- What the connection of the new session hears: the nodes of the friends that are online. -/
theorem joined_tracks {t : OnlineNode} (hs : ∀ n ∈ s.pOnline.nodes, n.sockfd ≠ t.sockfd) (hdb : s.db.Friendly)
    (ht : Table (s.addList t)) (hp : s'.pOnline = s.pOnline.addList t) (hf : s'.db.friends = s.db.friends)
    (hnews : (sent t.sockfd (s.news s')).filterMap Msg.change =
      exchanged (s.pOnline.addList t) (s.db.friends t.id) t t.sockfd t.sockfd) : s.TracksTo s' t.sockfd := by
  have hself : (⟨t, s.pOnline.brk⟩ : Node) ∈ (s.pOnline.addList t).nodes := List.mem_cons_self
  have hother : ∀ f ∈ s.db.friends t.id, ∀ p, (s.pOnline.addList t).searchList f .byId = some p →
      p.sockfd ≠ t.sockfd := by
    intro f hfriend p hp heq
    obtain ⟨hmem, rfl⟩ := OnlineList.searchId_some hp
    have : p = ⟨t, s.pOnline.brk⟩ := ht.sessions.fds.eq hmem hself heq
    rw [this] at hfriend
    -- the new user would be its own friend
    exact hdb.irreflexive t.id hfriend
  unfold TracksTo
  rw [hnews, exchanged_own hother]
  refine Tracks.adds ?_ (fun b _ x hx => absurd hx (not_visible hs)) fun x => ?_
  · show (((s.db.friends t.id).filterMap _).map OnlineNode.id).Nodup
    rw [List.map_filterMap]
    refine List.Nodup.filterMap (fun f f' i hi hi' => ?_) (s.db.friends_nodup t.id)
    have hid : ∀ g, i ∈ ((s.pOnline.addList t).searchList g .byId).map (fun p => p.toOnlineNode.id) → g = i := by
      intro g hg
      obtain ⟨p, hp, rfl⟩ := Option.map_eq_some_iff.1 hg
      exact (OnlineList.searchId_some hp).2.symm
    rw [Option.map_map] at hi hi'
    exact (hid f hi).trans (hid f' hi').symm
  · rw [or_iff_left (not_visible hs), List.mem_filterMap]
    have hvis : s'.Visible t.sockfd x ↔ x.id ∈ s.db.friends t.id ∧ x ∈ (s.pOnline.addList t).contents := by
      rw [← hf, ← hp]
      exact visible_session (n := ⟨t, s.pOnline.brk⟩) (hp ▸ ht.sessions) (hp ▸ hself)
    rw [hvis]
    constructor
    · rintro ⟨hx, hmem⟩
      obtain ⟨m, hm, rfl⟩ := mem_contents.1 hmem
      have hfound : (s.pOnline.addList t).searchList m.id .byId = some m := ht.sessions.ids.find?_iff.2 ⟨hm, rfl⟩
      exact ⟨m.id, hx, by rw [hfound]; rfl⟩
    · rintro ⟨f, hfriend, hx⟩
      obtain ⟨p, hp, rfl⟩ := Option.map_eq_some_iff.1 hx
      obtain ⟨hmem, rfl⟩ := OnlineList.searchId_some hp
      exact ⟨hfriend, mem_contents.2 ⟨p, hmem, rfl⟩⟩

/-- **A login** puts its user into the lists of its friends, and its friends into its own. -/
theorem login_tracks (henv : env.Flawless) (h : Table s) (hdb : s.db.Friendly) (hs : s.session confd = none)
    (he : confd ∈ s.epfd) (hans : (s.loginAction env confd user).Answered) (fd : Int) :
    s.TracksTo (s.loginAction env confd user) fd := by
  have hf : (s.loginAction env confd user).db.friends = s.db.friends := loginAction_friends
  rcases loginAction_walk env confd user s with hw | ⟨had, -, heq⟩
  -- a refused login tells nobody
  · obtain ⟨hp, -, -⟩ := hw.flawless henv fun _ _ ho => ho
    refine tracks_idle hp hf (hw.tells_nothing henv (fun _ _ ho => ho) ?_)
    rintro fd m ⟨-, flag, rfl, -⟩
    rfl
  rw [heq] at hans hf ⊢
  obtain ⟨addr, haddr, hok, hpos⟩ := openSession_answered henv hans
  obtain ⟨hp, -, -, ht⟩ := open_tells (c := some s.log.length) henv haddr hok
  have hfd : ∀ n ∈ s.pOnline.nodes, n.sockfd ≠ confd := session_none.1 hs
  have hid : ∀ n ∈ s.pOnline.nodes, n.id ≠ user.id := OnlineList.searchId_none.1 had.2
  have htable : Table (s.addList ⟨user.id, confd, addr⟩) := h.addList hid hfd hpos (h.registered confd he) he
  have hrows : (lookedUp env user s.log.length s).db.friends user.id = s.db.friends user.id :=
    congrArg (fun db : Database => db.friends user.id) query_selectUser_db
  rw [hrows] at ht
  have hnews := (ht.after (s := s) [.query (.selectUser user.id) (s.answer env (.selectUser user.id)).1,
    .fetchRow (some s.log.length)] (by simp [lookedUp]) rfl).news fd
  by_cases hne : fd = confd
  · subst hne
    exact joined_tracks (t := ⟨user.id, fd, addr⟩) hfd hdb htable hp hf hnews
  · rw [exchanged_elsewhere hne] at hnews
    exact join_tracks (t := ⟨user.id, confd, addr⟩) h hdb htable hid hp hf hne hnews

/-! ## Approvals -/

/-- The answer to the requester changes no list. -/
theorem answerRequest_tells (henv : env.Flawless) (psrc : Option Node) (src dst v : Int) (s : Server) :
    (s.answerRequest env psrc src dst v).pOnline = s.pOnline ∧
      Tells (fun _ => []) s (s.answerRequest env psrc src dst v) := by
  unfold answerRequest
  split
  · exact ⟨rfl, Tells.refl⟩
  rename_i p
  obtain ⟨b, hb⟩ := deref_fst s env p
  dsimp only
  rw [henv.writeServer, hb]
  have ht := (Tells.write (s.deref env p).2.sockfd (.allowAddf src dst v) (s.emit (.deref p.ref b))).after (s := s)
    [.deref p.ref b] rfl rfl
  exact ⟨rfl, ht.congr fun fd => by simp [Msg.change]⟩

/-- When both inserts are answered, each takes effect if the two were no friends. -/
theorem approve_takes (hne : src ≠ dst) (hdb : s.db.Friendly) (hans : (bothInserts env src dst s).Answered) :
    (Takes env s.log s.db src dst ↔ dst ∉ s.db.friends src) ∧
      (Takes env (firstInsert env src dst s).log s.db dst src ↔ dst ∉ s.db.friends src) := by
  have hfirst : (firstInsert env src dst s).Answered := hans.before ⟨_, rfl⟩
  have h₁ : Takes env s.log s.db src dst ↔ dst ∉ s.db.friends src := takes_iff (Answered.query hfirst)
  have h₂ : Takes env (firstInsert env src dst s).log (firstInsert env src dst s).db dst src ↔
      src ∉ (firstInsert env src dst s).db.friends dst := takes_iff (Answered.query hans)
  -- the first insert is into the other table
  have hkeep : src ∈ (firstInsert env src dst s).db.friends dst ↔ src ∈ s.db.friends dst := by
    by_cases ht : Takes env s.log s.db src dst
    · have hins := (query_insert ht).2 dst src
      exact hins.trans (or_iff_left fun h => hne h.2)
    · have hins := (query_insert_fails ht).2
      exact iff_of_eq (congrArg (fun db : Database => src ∈ db.friends dst) hins)
  refine ⟨h₁, ?_⟩
  have hlacks : Takes env (firstInsert env src dst s).log (firstInsert env src dst s).db dst src ↔
      Takes env (firstInsert env src dst s).log s.db dst src := and_congr_right fun _ => lacks_firstInsert hne
  rw [← hlacks, h₂, hkeep, hdb.symmetric src dst]

/-- The inserts of an approval are in its log. -/
theorem approve_answered (hans : (s.allowAddfAction env src dst 1).Answered) :
    (bothInserts env src dst s).Answered := by
  rcases approve_cases env src dst s with ⟨-, c, heq⟩ | ⟨-, c, heq⟩
  · rw [heq] at hans
    refine hans.before (List.IsPrefix.trans ?_ (Writes.mysqlEnd introduce_writes c).log_extends)
    exact answerRequest_writes.log_extends
  · rw [heq] at hans
    exact hans.before (Writes.mysqlEnd answerRequest_writes c).log_extends

/-- The two are friends behind an approval, and nothing else has changed. -/
theorem approved_friends (hne : src ≠ dst) (hdb : s.db.Friendly) (hans : (s.allowAddfAction env src dst 1).Answered)
    (x y : Int) : y ∈ (s.allowAddfAction env src dst 1).db.friends x ↔
      y ∈ s.db.friends x ∨ (x = src ∧ y = dst) ∨ (x = dst ∧ y = src) := by
  obtain ⟨h₁, h₂⟩ := approve_takes hne hdb (approve_answered hans)
  rw [approve_friends hne, h₁, h₂]
  constructor
  · rintro (h | ⟨-, h⟩ | ⟨-, h⟩)
    · exact Or.inl h
    · exact Or.inr (Or.inl h)
    · exact Or.inr (Or.inr h)
  · rintro (h | ⟨rfl, rfl⟩ | ⟨rfl, rfl⟩)
    · exact Or.inl h
    · by_cases hmem : y ∈ s.db.friends x
      · exact Or.inl hmem
      · exact Or.inr (Or.inl ⟨hmem, rfl, rfl⟩)
    · by_cases hmem : x ∈ s.db.friends y
      · exact Or.inl ((hdb.symmetric y x).1 hmem)
      · exact Or.inr (Or.inr ⟨hmem, rfl, rfl⟩)

/-- An approval keeps friendship mutual and irreflexive. -/
theorem approve_friendly (hne : src ≠ dst) (hdb : s.db.Friendly) (hans : (s.allowAddfAction env src dst 1).Answered) :
    (s.allowAddfAction env src dst 1).db.Friendly := by
  refine ⟨fun x y => ?_, fun x => ?_⟩
  · rw [approved_friends hne hdb hans, approved_friends hne hdb hans, hdb.symmetric x y]
    tauto
  · rw [approved_friends hne hdb hans]
    rintro (h | ⟨rfl, rfl⟩ | ⟨rfl, rfl⟩)
    · exact hdb.irreflexive x h
    · exact hne rfl
    · exact hne rfl

/-- One side of an approval gets the node of the other. -/
theorem gain_tracks {m : Node} (h : Table s) (hn : n ∈ s.pOnline.nodes) (hm : m ∈ s.pOnline.nodes)
    (hnew : m.id ∉ s.db.friends n.id) (hp : s'.pOnline = s.pOnline)
    (hf : ∀ y, y ∈ s'.db.friends n.id ↔ y ∈ s.db.friends n.id ∨ y = m.id)
    (hnews : (sent n.sockfd (s.news s')).filterMap Msg.change = [.add m.toOnlineNode]) :
    s.TracksTo s' n.sockfd := by
  unfold TracksTo
  rw [hnews]
  refine Tracks.add (fun x hx heq => ?_) fun x => ?_
  · have := ((visible_session h.sessions hn).1 hx).1
    rw [heq] at this
    exact hnew this
  · rw [visible_session (hp ▸ h.sessions) (hp ▸ hn), visible_session h.sessions hn, hf, hp]
    constructor
    · rintro ⟨hx | hx, hmem⟩
      · exact Or.inr ⟨hx, hmem⟩
      · obtain ⟨k, hk, rfl⟩ := mem_contents.1 hmem
        -- ids are distinct, so the new friend is seen through this node only
        rw [h.sessions.ids.eq hk hm hx]
        exact Or.inl rfl
    · rintro (rfl | ⟨hx, hmem⟩)
      · exact ⟨Or.inr rfl, mem_contents.2 ⟨m, hm, rfl⟩⟩
      · exact ⟨Or.inl hx, hmem⟩

/-- Two users who are online become friends. -/
theorem meet_tracks {psrc pdst : Node} (h : Table s) (hsrc : psrc ∈ s.pOnline.nodes) (hdst : pdst ∈ s.pOnline.nodes)
    (hne : psrc.id ≠ pdst.id) (hnot : pdst.id ∉ s.db.friends psrc.id) (hnot' : psrc.id ∉ s.db.friends pdst.id)
    (hp : s'.pOnline = s.pOnline)
    (hf : ∀ x y, y ∈ s'.db.friends x ↔ y ∈ s.db.friends x ∨ (x = psrc.id ∧ y = pdst.id) ∨ (x = pdst.id ∧ y = psrc.id))
    (hnews : (sent fd (s.news s')).filterMap Msg.change = (if fd = psrc.sockfd then [.add pdst.toOnlineNode] else []) ++
      (if fd = pdst.sockfd then [.add psrc.toOnlineNode] else [])) : s.TracksTo s' fd := by
  have hfds : psrc.sockfd ≠ pdst.sockfd := by
    intro heq
    exact hne (by rw [h.sessions.fds.eq hsrc hdst heq])
  by_cases hs : fd = psrc.sockfd
  · subst hs
    rw [if_pos rfl, if_neg hfds, List.append_nil] at hnews
    refine gain_tracks h hsrc hdst hnot hp (fun y => ?_) hnews
    rw [hf, and_iff_right rfl]
    exact or_congr_right (or_iff_left fun heq => hne heq.1)
  by_cases hd : fd = pdst.sockfd
  · subst hd
    rw [if_neg hs, if_pos rfl, List.nil_append] at hnews
    refine gain_tracks h hdst hsrc hnot' hp (fun y => ?_) hnews
    rw [hf]
    refine or_congr_right ((or_iff_right fun heq => hne heq.1.symm).trans ?_)
    exact and_iff_right rfl
  rw [if_neg hs, if_neg hd] at hnews
  -- the friend tables of everybody else stay
  refine tracks_same hp (fun n hn hfd m _ => ?_) hnews
  rw [hf]
  refine or_iff_left ?_
  rintro (⟨heq, -⟩ | ⟨heq, -⟩)
  · exact hs (hfd ▸ congrArg (fun k : Node => k.sockfd) (h.sessions.ids.eq hn hsrc heq))
  · exact hd (hfd ▸ congrArg (fun k : Node => k.sockfd) (h.sessions.ids.eq hn hdst heq))

/-- **An approval** puts each side into the list of the other. -/
theorem approve_tracks (henv : env.Flawless) (h : Table s) (hdb : s.db.Friendly) (hne : src ≠ dst)
    (hans : (s.allowAddfAction env src dst 1).Answered) (fd : Int) :
    s.TracksTo (s.allowAddfAction env src dst 1) fd := by
  have hf := approved_friends hne hdb hans
  obtain ⟨htakes₁, htakes₂⟩ := approve_takes hne hdb (approve_answered hans)
  have hins : Tells (fun _ => []) s (bothInserts env src dst s) :=
    Tells.quiet [.query (.insertFriend src dst) (s.answer env (.insertFriend src dst)).1,
      .query (.insertFriend dst src) ((firstInsert env src dst s).answer env (.insertFriend dst src)).1]
      (by simp [bothInserts, firstInsert]) rfl
  have hcases := approve_cases env src dst s
  generalize s.allowAddfAction env src dst 1 = s' at hf hcases ⊢
  rcases hcases with ⟨⟨hok, -⟩, c, rfl⟩ | ⟨hno, c, rfl⟩
  · have hnot : dst ∉ s.db.friends src := by
      by_contra hmem
      exact (query_insert_fails fun htake => htakes₁.1 htake hmem).1 hok
    obtain ⟨hp, ht⟩ := answerRequest_tells henv (s.pOnline.searchList src .byId) src dst 1 (bothInserts env src dst s)
    generalize
      (bothInserts env src dst s).answerRequest env (s.pOnline.searchList src .byId) src dst 1 = s₁ at hp ht hf ⊢
    have ht₁ : Tells (fun _ => []) s s₁ := hins.trans ht
    have hp₁ : s₁.pOnline = s.pOnline := hp
    -- when one of the two is not online, there is nobody new to see
    have hidle : (∀ n ∈ s.pOnline.nodes, ∀ m ∈ s.pOnline.nodes, n.id = src → m.id ≠ dst) →
        (∀ x y, y ∈ s₁.db.friends x ↔ y ∈ s.db.friends x ∨ (x = src ∧ y = dst) ∨ (x = dst ∧ y = src)) →
        s.TracksTo (s₁.mysqlEnd c) fd := by
      intro hone hf₁
      refine tracks_same hp₁ (fun n hn _ m hm => (hf₁ n.id m.id).trans (or_iff_left ?_)) ((ht₁.mysqlEnd c).news fd)
      rintro (⟨hsrc, hdst⟩ | ⟨hdst, hsrc⟩)
      · exact hone n hn m hm hsrc hdst
      · exact hone m hm n hn hsrc hdst
    cases hsrc : s.pOnline.searchList src .byId with
    | none =>
      rw [hsrc] at hf
      exact hidle (fun n hn _ _ heq => absurd heq (OnlineList.searchId_none.1 hsrc n hn)) hf
    | some psrc =>
      cases hdst : s.pOnline.searchList dst .byId with
      | none =>
        rw [hsrc, hdst] at hf
        exact hidle (fun _ _ m hm _ => OnlineList.searchId_none.1 hdst m hm) hf
      | some pdst =>
        obtain ⟨hsmem, rfl⟩ := OnlineList.searchId_some hsrc
        obtain ⟨hdmem, rfl⟩ := OnlineList.searchId_some hdst
        rw [hsrc, hdst] at hf
        obtain ⟨hp₂, -, ht₂⟩ := introduce_tells (s := s₁) henv (hp₁ ▸ hsmem) (hp₁ ▸ hdmem)
        have hnot' : psrc.id ∉ s.db.friends pdst.id := fun hmem => hnot ((hdb.symmetric _ _).2 hmem)
        exact meet_tracks h hsmem hdmem hne hnot hnot' (hp₂.trans hp₁) hf (((ht₁.trans ht₂).mysqlEnd c).news fd)
  · -- the two were friends already
    have hmem : dst ∈ s.db.friends src := by
      by_contra hnot
      have h₁ := htakes₁.2 hnot
      have h₂ : Takes env (firstInsert env src dst s).log (firstInsert env src dst s).db dst src :=
        ⟨(htakes₂.2 hnot).1, (lacks_firstInsert hne).2 (htakes₂.2 hnot).2⟩
      exact hno ⟨(query_insert h₁).1, (query_insert h₂).1⟩
    obtain ⟨hp, ht⟩ := answerRequest_tells henv (s.pOnline.searchList src .byId) src dst 3 (bothInserts env src dst s)
    refine tracks_same hp (fun n _ _ m _ => (hf n.id m.id).trans (or_iff_left_of_imp ?_))
      (((hins.trans ht).mysqlEnd c).news fd)
    rintro (⟨hsrc, hdst⟩ | ⟨hdst, hsrc⟩)
    · rw [hsrc, hdst]
      exact hmem
    · rw [hsrc, hdst]
      exact (hdb.symmetric src dst).1 hmem

end UnixNote
