import UnixNote.Chat.Action
import UnixNote.Proof.Sessions

/-!
# Who is removed by a teardown, and who is told

`offline_cascade`: `offline_action(confd, id)` for a node of the online list ends; it
removes the user `id` and exactly those users on whose socket a write failed on
the way; and every user that is left got one `OP_OFFLINE` for each removed user
that lists it as a friend, and none for anybody else.

The induction carries `Account`, the same statement for each of the three calls
of the recursion, with what the call itself still has to tell (`Call.tells`).
-/

namespace UnixNote

open Server

/-- Whether some `Write` on `fd` failed. -/
def writeFailed (fd : Int) (evs : List Event) : Bool :=
  evs.any fun e => match e with
    | .write fd' _ false => fd' = fd
    | _ => false

/-- The number of times `OP_OFFLINE` with id `x` was sent on `fd`. -/
def toldOffline (fd x : Int) (evs : List Event) : Nat := evs.count (.write fd (.offline x) true)

/-- `u` has to hear that `x` left: `x` was removed between `s` and `s'` and lists `u`. -/
def Leaves (s s' : Server) (u : Node) (x : Int) : Prop :=
  ∃ r ∈ s.pOnline.nodes, r ∉ s'.pOnline.nodes ∧ r.id = x ∧ u.id ∈ s.db.friends r.id

instance (s s' : Server) (u : Node) (x : Int) : Decidable (Leaves s s' u x) := by
  unfold Leaves; infer_instance

variable {env : Env} {s s' s₁ s₂ : Server} {fd id confd x : Int} {u : Node} {evs evs' : List Event}

@[simp] theorem writeFailed_nil : writeFailed fd [] = false := rfl

@[simp] theorem writeFailed_append :
    writeFailed fd (evs ++ evs') = (writeFailed fd evs || writeFailed fd evs') := List.any_append

@[simp] theorem toldOffline_nil : toldOffline fd x [] = 0 := rfl

@[simp] theorem toldOffline_append :
    toldOffline fd x (evs ++ evs') = toldOffline fd x evs + toldOffline fd x evs' := List.count_append

/-- Every friend table a teardown reads is there, and reading it succeeds. -/
structure Readable (env : Env) (s : Server) : Prop where
  sessions : Sessions s.pOnline
  tables : ∀ n ∈ s.pOnline.nodes, (s.db.table n.id).isSome
  sql : ∀ log id, env.sql log (.selectFriends id) = true

theorem Readable.sublist (h : Readable env s) (hs : s'.pOnline.nodes.Sublist s.pOnline.nodes)
    (hdb : s'.db = s.db) : Readable env s' :=
  ⟨h.sessions.sublist hs, fun n hn => by rw [hdb]; exact h.tables n (hs.subset hn), h.sql⟩

/-- The select of the friend table of a listed user succeeds. -/
theorem Readable.cutConn (h : Readable env s) {n : Node} (hn : n ∈ s.pOnline.nodes) :
    UnixNote.cutConn env confd n.id s ≠ none := by
  have htab := h.tables n hn
  have hok : (((s.epollDel confd).delList n.id).answer env (.selectFriends n.id)).1 = .ok := by
    unfold answer Database.exec
    rw [if_pos (h.sql _ _)]
    simp only [delList_db, epollDel_db, htab, if_true]
  unfold UnixNote.cutConn mysqlGo
  rw [if_pos hok]; exact Option.some_ne_none _

/-- With distinct ids, who leaves on two stretches leaves on one of them. -/
theorem leaves_trans (h : Sessions s.pOnline) (h₁ : s₁.pOnline.nodes.Sublist s.pOnline.nodes)
    (h₂ : s₂.pOnline.nodes.Sublist s₁.pOnline.nodes) (hdb : s₁.db = s.db) :
    (if Leaves s s₂ u x then 1 else 0) =
      (if Leaves s s₁ u x then 1 else 0) + (if Leaves s₁ s₂ u x then 1 else 0) := by
  have hor : Leaves s s₂ u x ↔ Leaves s s₁ u x ∨ Leaves s₁ s₂ u x := by
    constructor
    · rintro ⟨r, hr, hr₂, hx, hf⟩
      by_cases hr₁ : r ∈ s₁.pOnline.nodes
      · exact Or.inr ⟨r, hr₁, hr₂, hx, by rwa [hdb]⟩
      · exact Or.inl ⟨r, hr, hr₁, hx, hf⟩
    · rintro (⟨r, hr, hr₁, hx, hf⟩ | ⟨r, hr₁, hr₂, hx, hf⟩)
      · exact ⟨r, hr, fun hr₂ => hr₁ (h₂.subset hr₂), hx, hf⟩
      · exact ⟨r, h₁.subset hr₁, hr₂, hx, by rwa [hdb] at hf⟩
  have hnot : ¬ (Leaves s s₁ u x ∧ Leaves s₁ s₂ u x) := by
    rintro ⟨⟨r, hr, hr₁, hx, -⟩, ⟨r', hr', -, hx', -⟩⟩
    have : r = r' := h.ids.eq hr (h₁.subset hr') (hx.trans hx'.symm)
    exact hr₁ (this ▸ hr')
  by_cases h1 : Leaves s s₁ u x <;> by_cases h2 : Leaves s₁ s₂ u x
  · exact absurd ⟨h1, h2⟩ hnot
  · rw [if_pos (hor.2 (Or.inl h1)), if_pos h1, if_neg h2]
  · rw [if_pos (hor.2 (Or.inr h2)), if_neg h1, if_pos h2]
  · rw [if_neg (fun h => (hor.1 h).elim h1 h2), if_neg h1, if_neg h2]

/-- Nobody leaves while the list stays. -/
theorem not_leaves (h : s'.pOnline.nodes = s.pOnline.nodes) : ¬ Leaves s s' u x := by
  rintro ⟨r, hr, hr', -⟩
  exact hr' (h ▸ hr)

/-! ## The account of a call -/

/-- What a call may assume about the state it starts in. -/
def Call.Pre : Call → Server → Prop
  | .offline confd id, s => Linked s.pOnline confd id ∧ (0 ≤ id → ∃ n ∈ s.pOnline.nodes, n.id = id)
  | .notify _ _ rows, _ => rows.Nodup
  | .write _ _, _ => True

/-- The user a call removes whatever the writes do. -/
def Call.removes : Call → Int → Bool
  | .offline _ id, x => x = id
  | _, _ => false

/-- What a call itself tells `u`, the teardowns nested in it apart. -/
def Call.tells : Call → Node → Int → Prop
  | .offline _ _, _, _ => False
  | .notify id _ rows, u, x => x = id ∧ u.id ∈ rows
  | .write fd m, u, x => u.sockfd = fd ∧ m = .offline x

instance (c : Call) (u : Node) (x : Int) : Decidable (c.tells u x) := by
  cases c <;> unfold Call.tells <;> infer_instance

/-- The account of a call that appended `evs`: who is left, and what each of them was told. -/
structure Account (c : Call) (s s' : Server) (evs : List Event) : Prop where
  log : s'.log = s.log ++ evs
  nodes : s'.pOnline.nodes = s.pOnline.nodes.filter fun n => !c.removes n.id && !writeFailed n.sockfd evs
  told : ∀ u ∈ s'.pOnline.nodes, ∀ x,
    toldOffline u.sockfd x evs = (if Leaves s s' u x then 1 else 0) + (if c.tells u x then 1 else 0)

/-- Events other than writes neither fail nor tell. -/
theorem writeFailed_quiet (h : evs.all Event.quiet = true) : writeFailed fd evs = false := by
  unfold writeFailed
  rw [List.any_eq_false]
  intro e he
  have := List.all_eq_true.1 h e he
  cases e <;> simp_all [Event.quiet]

theorem toldOffline_quiet (h : evs.all Event.quiet = true) : toldOffline fd x evs = 0 := by
  unfold toldOffline
  rw [List.count_eq_zero]
  intro he
  have := List.all_eq_true.1 h _ he
  simp [Event.quiet] at this

namespace Account

variable {c : Call} {m : Msg}

theorem sublist (h : Account c s s' evs) : s'.pOnline.nodes.Sublist s.pOnline.nodes := by
  rw [h.nodes]; exact List.filter_sublist

/-- A successful write tells its message. -/
theorem writeOk : Account (.write fd m) s (s.emit (.write fd m true)) [.write fd m true] where
  log := rfl
  nodes := by simp [Call.removes, writeFailed]
  told := by
    intro u _ x
    have hno : ¬ Leaves s (s.emit (.write fd m true)) u x := not_leaves rfl
    rw [if_neg hno, Nat.zero_add]
    unfold toldOffline
    by_cases h : Call.tells (.write fd m) u x
    · rw [if_pos h]
      obtain ⟨rfl, rfl⟩ := h
      exact List.count_singleton_self
    · rw [if_neg h, List.count_eq_zero]
      intro hm
      cases List.mem_singleton.1 hm
      exact h ⟨rfl, rfl⟩

/-- A failed write is the teardown of the node on its descriptor. -/
theorem writeFail (hs : Sessions s.pOnline)
    (h : Account (.offline fd (s.sessionId fd)) (s.emit (.write fd m false)) s' evs) :
    Account (.write fd m) s s' (.write fd m false :: evs) where
  log := by rw [h.log]; simp
  nodes := by
    rw [h.nodes]
    refine List.filter_congr fun n hn => ?_
    -- `fd` is the descriptor of exactly the user that is torn down
    have hl : n.sockfd = fd ↔ n.id = s.sessionId fd := hs.linked_sessionId n hn
    have hcons : writeFailed n.sockfd (.write fd m false :: evs) =
        (decide (fd = n.sockfd) || writeFailed n.sockfd evs) := rfl
    rw [hcons]
    by_cases he : n.sockfd = fd
    · simp [Call.removes, he, hl.1 he]
    · have hid : n.id ≠ s.sessionId fd := fun h => he (hl.2 h)
      simp [Call.removes, hid, Ne.symm he]
  told := by
    intro u hu x
    have hne : ¬ Call.tells (.write fd m) u x := by
      rintro ⟨rfl, -⟩
      have hsub := h.sublist.subset hu
      rw [h.nodes, List.mem_filter] at hu
      have hid : u.id = s.sessionId u.sockfd := (hs.linked_sessionId u hsub).1 rfl
      simp [Call.removes, hid] at hu
    have hcons : toldOffline u.sockfd x (.write fd m false :: evs) = toldOffline u.sockfd x evs := by
      unfold toldOffline
      exact List.count_cons_of_ne (by simp)
    rw [hcons, h.told u hu x, if_neg hne]
    rfl

/-- Quiet calls around a call leave its account as it is. -/
theorem quiet {before after : List Event} {s₀ s₀' : Server} (h : Account c s s' evs)
    (hb : before.all Event.quiet = true) (ha : after.all Event.quiet = true)
    (hpre : s.pOnline = s₀.pOnline ∧ s.db = s₀.db ∧ s.log = s₀.log ++ before)
    (hpost : s₀'.pOnline = s'.pOnline ∧ s₀'.log = s'.log ++ after) :
    Account c s₀ s₀' (before ++ evs ++ after) := by
  obtain ⟨hl, hdb, hlog⟩ := hpre
  obtain ⟨hl', hlog'⟩ := hpost
  refine ⟨?_, ?_, ?_⟩
  · rw [hlog', h.log, hlog]; simp
  · rw [hl', h.nodes, hl]
    simp only [writeFailed_append, writeFailed_quiet hb, writeFailed_quiet ha, Bool.false_or, Bool.or_false]
  · intro u hu x
    rw [hl'] at hu
    have hleaves : Leaves s₀ s₀' u x ↔ Leaves s s' u x := by
      unfold Leaves; rw [hl, hl', hdb]
    simp only [toldOffline_append, toldOffline_quiet hb, toldOffline_quiet ha, Nat.zero_add, Nat.add_zero,
      hleaves]
    exact h.told u hu x

/-- Two calls in a row, neither of which removes anybody whatever the writes do. -/
theorem seq {c₁ c₂ : Call} (hs : Sessions s.pOnline) (hdb : s₁.db = s.db) (h₁ : Account c₁ s s₁ evs)
    (h₂ : Account c₂ s₁ s₂ evs') (hr₁ : ∀ y, c₁.removes y = false) (hr₂ : ∀ y, c₂.removes y = false) :
    s₂.log = s.log ++ (evs ++ evs') ∧
      (s₂.pOnline.nodes = s.pOnline.nodes.filter fun n => !writeFailed n.sockfd (evs ++ evs')) ∧
      ∀ u ∈ s₂.pOnline.nodes, ∀ x, toldOffline u.sockfd x (evs ++ evs') =
        (if Leaves s s₂ u x then 1 else 0) +
          ((if c₁.tells u x then 1 else 0) + (if c₂.tells u x then 1 else 0)) := by
  refine ⟨by rw [h₂.log, h₁.log, List.append_assoc], ?_, ?_⟩
  · rw [h₂.nodes, h₁.nodes, List.filter_filter]
    refine List.filter_congr fun n _ => ?_
    simp only [hr₁, hr₂, writeFailed_append, Bool.not_false, Bool.true_and, Bool.not_or]
    exact Bool.and_comm _ _
  · intro u hu x
    have hu₁ := h₂.sublist.subset hu
    rw [toldOffline_append, h₁.told u hu₁ x, h₂.told u hu x, leaves_trans hs h₁.sublist h₂.sublist hdb]
    omega

/-- The same account for a call that removes and tells the same. -/
theorem congr {c' : Call} (h : Account c s s' evs) (hr : ∀ y, c'.removes y = c.removes y)
    (ht : ∀ u ∈ s'.pOnline.nodes, ∀ x, c'.tells u x ↔ c.tells u x) : Account c' s s' evs where
  log := h.log
  nodes := by simp only [h.nodes, hr]
  told := by
    intro u hu x
    rw [h.told u hu x]
    simp only [ht u hu x]

variable {conn : Nat} {f : Int} {rows : List Int} {p : Node}

theorem notifyEnd : Account (.notify id conn []) s (s.emit (.fetchRow (some conn))) [.fetchRow (some conn)] where
  log := rfl
  nodes := by simp [Call.removes, writeFailed]
  told := by
    intro u _ x
    have hno : ¬ Leaves s (s.emit (.fetchRow (some conn))) u x := not_leaves rfl
    rw [if_neg hno, if_neg (by simp [Call.tells])]
    exact toldOffline_quiet rfl

/-- A friend that is not online is passed over. -/
theorem notifySkip (hf : s.pOnline.searchList f .byId = none)
    (h : Account (.notify id conn rows) (s.emit (.fetchRow (some conn))) s' evs) :
    Account (.notify id conn (f :: rows)) s s' ([.fetchRow (some conn)] ++ evs ++ []) := by
  have hq : Account (.notify id conn rows) s s' ([.fetchRow (some conn)] ++ evs ++ []) :=
    h.quiet rfl rfl ⟨rfl, rfl, rfl⟩ ⟨rfl, (List.append_nil _).symm⟩
  refine hq.congr (fun _ => rfl) fun u hu x => ?_
  have hne : u.id ≠ f := OnlineList.searchId_none.1 hf u (h.sublist.subset hu)
  simp [Call.tells, hne]

/-- A friend that is online is told, then the rest of the rows. -/
theorem notifySend (hs : Sessions s.pOnline) (hrows : (f :: rows).Nodup) (hp : s.pOnline.searchList f .byId = some p)
    (hdb : s₁.db = s.db)
    (h₁ : Account (.write p.sockfd (.offline id))
      ((s.emit (.fetchRow (some conn))).emit (.deref p.ref true)) s₁ evs)
    (h₂ : Account (.notify id conn rows) s₁ s' evs') :
    Account (.notify id conn (f :: rows)) s s' ([.fetchRow (some conn), .deref p.ref true] ++ evs ++ [] ++ evs') := by
  have h₁' : Account (.write p.sockfd (.offline id)) s s₁
      ([.fetchRow (some conn), .deref p.ref true] ++ evs ++ []) :=
    h₁.quiet rfl rfl ⟨rfl, rfl, by simp⟩ ⟨rfl, (List.append_nil _).symm⟩
  obtain ⟨hlog, hnodes, htold⟩ := seq hs hdb h₁' h₂ (fun _ => rfl) (fun _ => rfl)
  obtain ⟨hmem, rfl⟩ := OnlineList.searchId_some hp
  obtain ⟨hnot, -⟩ := List.nodup_cons.1 hrows
  refine ⟨hlog, by simpa [Call.removes] using hnodes, fun u hu x => ?_⟩
  have hum := h₁'.sublist.subset (h₂.sublist.subset hu)
  rw [htold u hu x]
  -- `u` is `p`, or one of the rest, and `p` is not in the rest
  have hup : u.sockfd = p.sockfd ↔ u.id = p.id := hs.linked hmem u hum
  simp only [Call.tells, Msg.offline.injEq, List.mem_cons, hup]
  by_cases hx : x = id
  · subst hx
    by_cases he : u.id = p.id
    · simp [he, hnot]
    · simp [he]
  · simp [hx, Ne.symm hx]

theorem offlineNeg (hs : Sessions s.pOnline) (hid : id < 0) :
    Account (.offline confd id) s ((s.epollDel confd).close confd) [.epollDel confd, .close confd] where
  log := by simp
  nodes := by
    refine (List.filter_eq_self.2 fun n hn => ?_).symm
    have := hs.nonneg n hn
    have hq : writeFailed n.sockfd [.epollDel confd, .close confd] = false := writeFailed_quiet rfl
    simp only [Call.removes, hq, Bool.not_false,
      Bool.and_true, Bool.not_eq_true', decide_eq_false_iff_not]
    omega
  told := by
    intro u _ x
    have hno : ¬ Leaves s ((s.epollDel confd).close confd) u x := not_leaves rfl
    rw [if_neg hno, if_neg (by simp [Call.tells])]
    exact toldOffline_quiet rfl

/-- Removing `id` from the list makes it leave for those it lists. -/
theorem leaves_cut (hs : Sessions s.pOnline) (hid : ∃ n ∈ s.pOnline.nodes, n.id = id) :
    Leaves s (cut env confd id s) u x ↔ x = id ∧ u.id ∈ s.db.friends id := by
  constructor
  · rintro ⟨r, hr, hr', rfl, hf⟩
    have hrid : r.id = id := by
      by_contra hne
      exact hr' (by rw [cut_pOnline]; exact hs.mem_delList.2 ⟨hr, hne⟩)
    exact ⟨hrid, hrid ▸ hf⟩
  · rintro ⟨rfl, hf⟩
    obtain ⟨n, hn, rfl⟩ := hid
    refine ⟨n, hn, ?_, rfl, hf⟩
    rw [cut_pOnline]
    exact fun hm => (hs.mem_delList.1 hm).2 rfl

/-- The teardown of a listed user: it is cut out, its friends are told, then its own
connection is told and closed. -/
theorem offlineRows (hs : Sessions s.pOnline) (hid : ∃ n ∈ s.pOnline.nodes, n.id = id) (hdb : s₁.db = s.db)
    (h₁ : Account (.notify id conn (s.db.friends id)) (cut env confd id s) s₁ evs)
    (h₂ : Account (.write confd .allowDisconnect) s₁ s₂ evs') :
    ∃ evs'', Account (.offline confd id) s ((s₂.mysqlEnd (some conn)).close confd) evs'' := by
  have hs₀ : Sessions (cut env confd id s).pOnline := hs.delList
  obtain ⟨hlog, hnodes, htold⟩ := seq hs₀ (hdb.trans cut_db.symm) h₁ h₂ (fun _ => rfl) (fun _ => rfl)
  set q : Event := .query (.selectFriends id) (((s.epollDel confd).delList id).answer env (.selectFriends id)).1
  have hb : [.epollDel confd, q].all Event.quiet = true := rfl
  have ha : [.freeResult (some conn), .mysqlClose (some conn), .close confd].all Event.quiet = true := rfl
  refine ⟨[.epollDel confd, q] ++ (evs ++ evs') ++
    [.freeResult (some conn), .mysqlClose (some conn), .close confd], ?_, ?_, ?_⟩
  · have hcut : (cut env confd id s).log = s.log ++ [.epollDel confd, q] := by
      show (((s.epollDel confd).delList id).query env (.selectFriends id)).log = _
      simp [q]
    simp only [close_log, mysqlEnd_log, hlog, hcut, List.append_assoc, List.cons_append, List.nil_append]
  · simp only [close_pOnline, mysqlEnd_pOnline, hnodes, cut_pOnline, hs.delList_nodes, List.filter_filter]
    refine List.filter_congr fun n _ => ?_
    simp only [writeFailed_append, writeFailed_quiet hb, writeFailed_quiet ha, Bool.false_or, Bool.or_false,
      Call.removes, ne_eq, decide_not]
    exact Bool.and_comm _ _
  · intro u hu x
    simp only [close_pOnline, mysqlEnd_pOnline] at hu
    have hsub := h₂.sublist.trans h₁.sublist
    have hleaves : Leaves s ((s₂.mysqlEnd (some conn)).close confd) u x ↔ Leaves s s₂ u x := Iff.rfl
    simp only [toldOffline_append, toldOffline_quiet hb, toldOffline_quiet ha, Nat.zero_add, Nat.add_zero]
    have hsum := htold u hu x
    rw [toldOffline_append] at hsum
    have hcut : (cut env confd id s).pOnline.nodes.Sublist s.pOnline.nodes := OnlineList.delList_sublist _
    rw [hsum, if_congr hleaves rfl rfl, leaves_trans hs hcut hsub cut_db,
      if_congr (leaves_cut hs hid) rfl rfl, if_neg (by simp [Call.tells] : ¬ Call.tells (.offline confd id) u x),
      if_neg (by simp [Call.tells] : ¬ Call.tells (.write confd .allowDisconnect) u x)]
    simp only [Call.tells]
    omega

end Account

/-- **Every call of the teardown has its account.** -/
theorem Cascade.account {c : Call} (h : Cascade env c s s') (hr : Readable env s) (hpre : c.Pre s) :
    ∃ evs, Account c s s' evs := by
  induction h with
  | offlineNeg hid => exact ⟨_, .offlineNeg hr.sessions hid⟩
  | offlineRows hid hc hn hw ih₁ ih₂ =>
    rename_i confd id _ s s₁ _
    have hcut : Readable env (cut env confd id s) := hr.sublist (OnlineList.delList_sublist _) cut_db
    have hrows : (s.db.friends id).Nodup := by
      unfold Database.friends
      cases s.db.table id with
      | none => exact List.nodup_nil
      | some t => exact t.primary
    obtain ⟨evs, h₁⟩ := ih₁ hcut hrows
    obtain ⟨evs', h₂⟩ := ih₂ (hcut.sublist hn.sublist hn.db_eq) trivial
    exact Account.offlineRows hr.sessions (hpre.2 hid) (hn.db_eq.trans cut_db) h₁ h₂
  | offlineNoDb hid hc _ _ =>
    -- the friend table of a listed user can be read
    obtain ⟨n, hn, rfl⟩ := hpre.2 hid
    exact absurd hc (hr.cutConn hn)
  | notifyEnd => exact ⟨_, .notifyEnd⟩
  | notifySkip hf _ ih =>
    obtain ⟨evs, h⟩ := ih (hr.sublist (List.Sublist.refl _) rfl) (List.nodup_cons.1 hpre).2
    exact ⟨_, h.notifySkip hf⟩
  | notifySend hp hw _ ih₁ ih₂ =>
    obtain ⟨evs, h₁⟩ := ih₁ (hr.sublist (List.Sublist.refl _) rfl) trivial
    obtain ⟨evs', h₂⟩ := ih₂ (hr.sublist hw.sublist hw.db_eq) (List.nodup_cons.1 hpre).2
    exact ⟨_, .notifySend hr.sessions hpre hp hw.db_eq h₁ h₂⟩
  | writeOk _ => exact ⟨_, .writeOk⟩
  | writeFail _ _ ih =>
    obtain ⟨evs, h⟩ := ih (hr.sublist (List.Sublist.refl _) rfl)
      ⟨hr.sessions.linked_sessionId, Sessions.sessionId_mem⟩
    exact ⟨_, .writeFail hr.sessions h⟩

/-- **The offline cascade.** For a node of an online list with distinct ids and
descriptors, with readable friend tables and whatever writes fail, `offline_action`
returns; who is left is who is neither `id` nor had a write fail on its socket, in the
old order; and each of them was told once about every removed user that lists it, and
about nobody else. -/
theorem offline_cascade (hids : (s.pOnline.nodes.map (·.id)).Nodup) (hfds : (s.pOnline.nodes.map (·.sockfd)).Nodup)
    (hpos : ∀ n ∈ s.pOnline.nodes, 0 ≤ n.id) (htab : ∀ n ∈ s.pOnline.nodes, (s.db.table n.id).isSome)
    (hsql : ∀ log id, env.sql log (.selectFriends id) = true)
    (hnode : ∃ n ∈ s.pOnline.nodes, n.id = id ∧ n.sockfd = confd) :
    ∃ s' evs,
      (∀ fuel, s.pOnline.nodes.length + 2 ≤ fuel → offlineFuel env fuel confd id s = some s') ∧
      s'.log = s.log ++ evs ∧
      (s'.pOnline.nodes = s.pOnline.nodes.filter fun n => n.id ≠ id && !writeFailed n.sockfd evs) ∧
      ∀ u ∈ s'.pOnline.nodes, ∀ x,
        toldOffline u.sockfd x evs =
          if ∃ r ∈ s.pOnline.nodes, r ∉ s'.pOnline.nodes ∧ r.id = x ∧ u.id ∈ s.db.friends r.id then 1 else 0 := by
  have hs : Sessions s.pOnline := ⟨hids, hfds, hpos⟩
  obtain ⟨n, hn, rfl, rfl⟩ := hnode
  have hc : Cascade env (.offline n.sockfd n.id) s (s.offlineAction env n.sockfd n.id) := cascade_offlineAction
  obtain ⟨evs, h⟩ := hc.account ⟨hs, htab, hsql⟩ ⟨hs.linked hn, fun _ => ⟨n, hn, rfl⟩⟩
  refine ⟨_, evs, fun fuel hf => offlineFuel_eq (Nat.le_trans depth_le hf), h.log, ?_, fun u hu x => ?_⟩
  · rw [h.nodes]
    refine List.filter_congr fun m _ => ?_
    simp [Call.removes]
  · rw [h.told u hu x, if_neg (by simp [Call.tells] : ¬ Call.tells (.offline n.sockfd n.id) u x), Nat.add_zero]
    rfl

/-- Users 1, 2 and 3 are online, all of them friends of each other. -/
def trio : Server where
  pOnline := ((OnlineList.create.addList ⟨1, 5, ⟨0, 0⟩⟩).addList ⟨2, 6, ⟨0, 0⟩⟩).addList ⟨3, 7, ⟨0, 0⟩⟩
  db.user := []
  db.nextId := 4
  db.tables n :=
    if n = 1 then some ⟨[2, 3], by decide⟩
    else if n = 2 then some ⟨[1, 3], by decide⟩
    else if n = 3 then some ⟨[1, 2], by decide⟩
    else none
  opened := [7, 6, 5]
  epfd := [7, 6, 5]
  log := []

/-- Every write on descriptor 6 fails. -/
def brokenPipe : Env := { calm with write := fun _ fd _ => fd ≠ 6 }

/-- User 1 leaves while the connection of user 2 is broken. -/
theorem offline_cascade_trio :
    ∃ s', (∀ fuel, 5 ≤ fuel → offlineFuel brokenPipe fuel 5 1 trio = some s') ∧
      ∀ u ∈ s'.pOnline.nodes, u.id ≠ 1 := by
  have hsql : ∀ log id, brokenPipe.sql log (.selectFriends id) = true := fun _ _ => rfl
  have hnode : ∃ n ∈ trio.pOnline.nodes, n.id = 1 ∧ n.sockfd = 5 := by decide
  obtain ⟨s', evs, hfuel, -, hnodes, -⟩ :=
    offline_cascade (by decide) (by decide) (by decide) (by decide) hsql hnode
  refine ⟨s', hfuel, fun u hu => ?_⟩
  rw [hnodes, List.mem_filter] at hu
  simp only [Bool.and_eq_true, decide_eq_true_eq] at hu
  exact hu.2.1

end UnixNote
