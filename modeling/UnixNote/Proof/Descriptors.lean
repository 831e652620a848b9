import UnixNote.Proof.Handles

/-!
# Descriptors are closed once

Every call of `offline_action` closes its descriptor, and there is one such call for every `Write`
that fails, beside the one that a handler makes itself. A teardown whose farewell fails closes
twice (`torn_twice`), so what can happen on an event is settled by the state before it: **it is tidy
whatever fails exactly where no session can be torn down** (`inert_iff`).
-/

namespace UnixNote

open Server

/-- The calls on the descriptor `fd`. -/
def Event.on (fd : Int) : Event → Bool
  | .epollDel x => x = fd
  | .close x => x = fd
  | .write x _ _ => x = fd
  | _ => false

/-- Behind `close(fd)` there is no further call on `fd`. -/
def Tidy (evs : List Event) : Prop := ∀ fd, evs.Pairwise fun e e' => e = .close fd → e'.on fd = false

variable {env : Env} {c : Call} {s s' t t' s₁ s₂ : Server} {fd x id confd src dst : Int} {m : Msg} {e : Event}
  {q : Stmt} {evs X Y past : List Event} {p : Node} {user : User}

theorem tidy_append :
    Tidy (X ++ Y) ↔ Tidy X ∧ Tidy Y ∧ ∀ fd, .close fd ∈ X → ∀ e ∈ Y, e.on fd = false := by
  unfold Tidy
  constructor
  · intro h
    refine ⟨fun fd => (List.pairwise_append.1 (h fd)).1, fun fd => (List.pairwise_append.1 (h fd)).2.1, ?_⟩
    exact fun fd hfd e he => (List.pairwise_append.1 (h fd)).2.2 _ hfd e he rfl
  · rintro ⟨hX, hY, hXY⟩ fd
    refine List.pairwise_append.2 ⟨hX fd, hY fd, ?_⟩
    rintro e he e' he' rfl
    exact hXY fd he e' he'

/-- Nothing is closed. -/
theorem tidy_of_open (h : ∀ fd, .close fd ∉ X) : Tidy X := by
  intro fd
  refine List.Pairwise.imp_of_mem (R := fun _ _ => True) ?_ (List.pairwise_of_forall fun _ _ => trivial)
  rintro e e' he - - rfl
  exact absurd he (h fd)

/-- Quiet calls close nothing. -/
theorem not_close_of_quiet (h : ∀ e ∈ evs, ∀ x, e.on x = false) (x : Int) : .close x ∉ evs := by
  intro hmem
  have hon := h _ hmem x
  simp [Event.on] at hon

/-! ## Stretches of a handling -/

/-- Between `s` and `s'` the calls are tidy. -/
def Tidied (s s' : Server) : Prop := ∃ evs, s'.log = s.log ++ evs ∧ Tidy evs

/-- Between `s` and `s'` there is no call on a descriptor, and the list stays. -/
def Quietly (s s' : Server) : Prop :=
  s'.pOnline = s.pOnline ∧ ∃ evs, s'.log = s.log ++ evs ∧ ∀ e ∈ evs, ∀ x, e.on x = false

/-- Between `s` and `s'` nothing is closed, and the list stays. -/
def Calmly (s s' : Server) : Prop := s'.pOnline = s.pOnline ∧ ∃ evs, s'.log = s.log ++ evs ∧ ∀ x, .close x ∉ evs

theorem Tidied.iff (h : s.log <+: s'.log) : Tidied s s' ↔ Tidy (s.news s') := by
  obtain ⟨evs, hl⟩ := h
  have hnews : s.news s' = evs := by
    unfold Server.news
    rw [← hl, List.drop_left]
  rw [hnews]
  constructor
  · rintro ⟨evs', hl', h⟩
    rwa [← List.append_cancel_left (hl.trans hl')] at h
  · exact fun h => ⟨evs, hl.symm, h⟩

/-- A stretch of a tidy one. -/
theorem Tidied.mid (h : Tidied s t) (h₀ : s.log <+: s₁.log) (h₁ : s₁.log <+: s₂.log) (h₂ : s₂.log <+: t.log) :
    Tidied s₁ s₂ := by
  obtain ⟨evs, hl, htidy⟩ := h
  obtain ⟨X, hX⟩ := h₀
  obtain ⟨Y, hY⟩ := h₁
  obtain ⟨Z, hZ⟩ := h₂
  have hevs : X ++ (Y ++ Z) = evs := by
    refine (List.append_right_inj s.log).1 ?_
    rw [← hl, ← hZ, ← hY, ← hX]
    simp only [List.append_assoc]
  rw [← hevs, tidy_append, tidy_append] at htidy
  exact ⟨Y, hY.symm, htidy.2.1.1⟩

namespace Quietly

theorem refl : Quietly s s := ⟨rfl, [], (List.append_nil _).symm, fun _ h => absurd h List.not_mem_nil⟩

theorem trans (h₁ : Quietly s s₁) (h₂ : Quietly s₁ s₂) : Quietly s s₂ := by
  obtain ⟨hp₁, X, hl₁, hX⟩ := h₁
  obtain ⟨hp₂, Y, hl₂, hY⟩ := h₂
  refine ⟨hp₂.trans hp₁, X ++ Y, by rw [hl₂, hl₁, List.append_assoc], fun e he => ?_⟩
  exact (List.mem_append.1 he).elim (hX e) (hY e)

theorem emit (h : Quietly s s₁) (he : ∀ x, e.on x = false) : Quietly s (s₁.emit e) := by
  refine h.trans ⟨rfl, [e], rfl, fun e' he' => ?_⟩
  rw [List.mem_singleton.1 he']
  exact he

theorem query (h : Quietly s s₁) (env : Env) (q : Stmt) : Quietly s (s₁.query env q) := by
  refine h.trans ⟨rfl, [.query q (s₁.answer env q).1], rfl, fun e he => ?_⟩
  rw [List.mem_singleton.1 he]
  exact fun _ => rfl

theorem deref (h : Quietly s s₁) (env : Env) (p : Node) : Quietly s (s₁.deref env p).1 := by
  obtain ⟨b, hb⟩ := deref_fst s₁ env p
  rw [hb]
  exact h.emit fun _ => rfl

theorem mysqlEnd (h : Quietly s s₁) (conn : Option Nat) : Quietly s (s₁.mysqlEnd conn) :=
  (h.emit (e := .freeResult conn) fun _ => rfl).emit (e := .mysqlClose conn) fun _ => rfl

theorem log_extends (h : Quietly s s') : s.log <+: s'.log := by
  obtain ⟨-, evs, hl, -⟩ := h
  exact ⟨evs, hl.symm⟩

theorem calmly (h : Quietly s s') : Calmly s s' := by
  obtain ⟨hp, evs, hl, hevs⟩ := h
  exact ⟨hp, evs, hl, not_close_of_quiet hevs⟩

end Quietly

namespace Calmly

theorem trans (h₁ : Calmly s s₁) (h₂ : Calmly s₁ s₂) : Calmly s s₂ := by
  obtain ⟨hp₁, X, hl₁, hX⟩ := h₁
  obtain ⟨hp₂, Y, hl₂, hY⟩ := h₂
  refine ⟨hp₂.trans hp₁, X ++ Y, by rw [hl₂, hl₁, List.append_assoc], fun x hmem => ?_⟩
  exact (List.mem_append.1 hmem).elim (hX x) (hY x)

/-- A message that goes out. -/
theorem sent (h : Calmly s s₁) (fd : Int) (m : Msg) : Calmly s (s₁.emit (.write fd m true)) :=
  h.trans ⟨rfl, [.write fd m true], rfl, by simp⟩

theorem log_extends (h : Calmly s s') : s.log <+: s'.log := by
  obtain ⟨-, evs, hl, -⟩ := h
  exact ⟨evs, hl.symm⟩

theorem tidied (h : Calmly s s') : Tidied s s' := by
  obtain ⟨-, evs, hl, hevs⟩ := h
  exact ⟨evs, hl, tidy_of_open hevs⟩

/-- What comes behind a calm stretch. -/
theorem before (h : Calmly s s₁) (ht : Tidied s₁ s₂) : Tidied s s₂ := by
  obtain ⟨-, X, hl₁, hX⟩ := h
  obtain ⟨Y, hl₂, hY⟩ := ht
  exact ⟨X ++ Y, by rw [hl₂, hl₁, List.append_assoc],
    tidy_append.2 ⟨tidy_of_open hX, hY, fun fd hfd => absurd hfd (hX fd)⟩⟩

end Calmly

/-- A stretch without calls on descriptors at the end. -/
theorem Tidied.quietly (h : Tidied s s₁) (hq : Quietly s₁ s₂) : Tidied s s₂ := by
  obtain ⟨X, hl₁, hX⟩ := h
  obtain ⟨-, Y, hl₂, hY⟩ := hq
  refine ⟨X ++ Y, by rw [hl₂, hl₁, List.append_assoc], tidy_append.2 ⟨hX, ?_, fun fd _ e he => hY e he fd⟩⟩
  exact tidy_of_open (not_close_of_quiet hY)

/-! ## One `Write` -/

/-- Between `s` and `s'` there is one call of `Write_server`, on `x`, that may fail. -/
def OneWrite (env : Env) (x : Int) (s s' : Server) : Prop :=
  ∃ t m, Calmly s t ∧ m ≠ .allowDisconnect ∧ Quietly (t.writeServer env x m).1 s'

/-- Where there is no session, one call is tidy. -/
theorem OneWrite.tidied_neg (h : OneWrite env x s s') (hx : s.sessionId x < 0) : Tidied s s' := by
  obtain ⟨t, m, hcalm, -, hend⟩ := h
  refine (hcalm.before ?_).quietly hend
  cases hw : env.write t.log x m with
  | true =>
    rw [writeServer_true hw]
    exact ⟨[.write x m true], rfl, tidy_of_open (by simp)⟩
  | false =>
    have hneg : t.sessionId x < 0 := by
      unfold sessionId at hx ⊢
      rwa [hcalm.1]
    rw [writeServer_false hw, offlineAction_neg hneg]
    refine ⟨[.write x m false, .epollDel x, .close x], by simp, ?_⟩
    rw [show [.write x m false, .epollDel x, .close x] = [.write x m false, .epollDel x] ++ [Event.close x] from rfl,
      tidy_append]
    exact ⟨tidy_of_open (by simp), fun fd => List.pairwise_singleton .., by simp⟩

/-- A call of `offline_action` ends with its `close`. -/
theorem Cascade.closes_own (h : Cascade env (.offline confd id) s s') :
    ∃ t : Server, s.log <+: t.log ∧ s' = t.close confd := by
  have hcut : s.log <+: (cut env confd id s).log := cut_extends
  cases h with
  | offlineNeg _ => exact ⟨_, ⟨_, rfl⟩, rfl⟩
  | offlineRows _ _ hn hw =>
    exact ⟨_, ((hcut.trans hn.log_extends).trans hw.log_extends).trans ⟨_, (mysqlEnd_log ..).symm⟩, rfl⟩
  | offlineNoDb _ _ hw => exact ⟨_, (hcut.trans hw.log_extends).trans ⟨_, (mysqlEnd_log ..).symm⟩, rfl⟩

/-- A call behind a `close`. -/
theorem not_tidied (h₁ : s.log <+: s₁.log) (h₂ : (s₁.close fd).log <+: s₂.log) (hlast : s'.log = s₂.log ++ [e])
    (he : e.on fd = true) : ¬ Tidied s s' := by
  rintro ⟨evs, hl, htidy⟩
  obtain ⟨X, hX⟩ := h₁
  obtain ⟨Y, hY⟩ := h₂
  have hevs : (X ++ [.close fd]) ++ (Y ++ [e]) = evs := by
    refine (List.append_right_inj s.log).1 ?_
    rw [← hl, hlast, ← hY, close_log, ← hX]
    simp only [List.append_assoc]
  rw [← hevs, tidy_append] at htidy
  have hno := htidy.2.2 fd (by simp) e (by simp)
  rw [he] at hno
  cases hno

/-- Every message is lost, and statements are refused or not. -/
def lost (sql : Bool) : Env := { calm with write := fun _ _ _ => false, sql := fun _ _ => sql }

theorem answer_lost : s.answer (lost false) q = (.error, s.db) := if_neg Bool.false_ne_true

/-- **A session is torn down twice**: the farewell fails, and `Write_server` calls `offline_action` again. -/
theorem torn_twice {sql : Bool} (hid : 0 ≤ id) : ¬ Tidied s (s.offlineAction (lost sql) confd id) := by
  have h : Cascade (lost sql) (.offline confd id) s (s.offlineAction (lost sql) confd id) := cascade_offlineAction
  generalize s.offlineAction (lost sql) confd id = s' at h
  have hbye : ∀ {s₁ s₂ : Server} {k : Option Nat}, s.log <+: s₁.log →
      Cascade (lost sql) (.write confd .allowDisconnect) s₁ s₂ → ¬ Tidied s ((s₂.mysqlEnd k).close confd) := by
    intro s₁ s₂ k hext hw
    cases hw with
    | writeOk hsent => cases hsent
    | writeFail _ hoff =>
      obtain ⟨t, hlog, rfl⟩ := hoff.closes_own
      have hemit : s₁.log <+: (s₁.emit (.write confd .allowDisconnect false)).log := ⟨_, rfl⟩
      exact not_tidied ((hext.trans hemit).trans hlog) ⟨_, (mysqlEnd_log ..).symm⟩ rfl (by simp [Event.on])
  have hcut : s.log <+: (cut (lost sql) confd id s).log := cut_extends
  cases h with
  | offlineNeg hneg => omega
  | offlineRows _ _ hn hw => exact hbye (hcut.trans hn.log_extends) hw
  | offlineNoDb _ _ hw => exact hbye hcut hw

/-- A lost message to a session. -/
theorem OneWrite.torn_twice {sql : Bool} (h : OneWrite (lost sql) x s s') (hx : 0 ≤ s.sessionId x) : ¬ Tidied s s' := by
  obtain ⟨t, m, hcalm, -, hend⟩ := h
  have hpos : 0 ≤ t.sessionId x := by
    unfold sessionId at hx ⊢
    rwa [hcalm.1]
  intro htidy
  rw [writeServer_false (show (lost sql).write t.log x m = false from rfl)] at hend
  have hext : t.log <+: (t.emit (.write x m false)).log := ⟨_, rfl⟩
  exact UnixNote.torn_twice hpos
    (htidy.mid (hcalm.log_extends.trans hext) cascade_offlineAction.log_extends hend.log_extends)

/-! ## Handlers with one `Write` -/

/-- **`register_action`** crashes, or answers its connection. -/
theorem registerAction_once (env : Env) (confd : Int) (user : User) (s : Server) :
    Quietly s (s.registerAction env confd user) ∨ OneWrite env confd s (s.registerAction env confd user) := by
  have hreply : ∀ {t : Server} {id : Int} {k : Option Nat}, Quietly s t →
      OneWrite env confd s (t.registerReply env confd id k) :=
    fun ht => ⟨_, _, ht.calmly, Msg.noConfusion, Quietly.refl.mysqlEnd _⟩
  have hselect : Quietly s ((s.query env (.insertUser user.username user.password)).query env .selectMaxUser) :=
    (Quietly.refl.query env _).query env _
  unfold registerAction mysqlGo
  dsimp only
  split
  · exact Or.inr (hreply hselect)
  rename_i c _
  have hrow := hselect.emit (e := .fetchRow (some c)) fun _ => rfl
  split
  · exact Or.inl (hrow.emit fun _ => rfl)
  split
  · exact Or.inr (hreply (hrow.query env _))
  · exact Or.inr (hreply (hrow.query env _))

/-- Without a database it answers. -/
theorem registerAction_lost (confd : Int) (user : User) (s : Server) :
    OneWrite (lost false) confd s (s.registerAction (lost false) confd user) :=
  ⟨(s.query (lost false) (.insertUser user.username user.password)).query (lost false) .selectMaxUser, _,
    ((Quietly.refl.query _ _).query _ _).calmly, Msg.noConfusion, Quietly.refl.mysqlEnd none⟩

theorem lookedUp_quietly (env : Env) (user : User) (s : Server) : Quietly s (lookedUp env user s.log.length s) :=
  (Quietly.refl.query env _).emit fun _ => rfl

/-- **`login_action`** that opens no session. -/
theorem loginAction_once (h : ¬ (s.Admits user ∧ (s.answer env (.selectUser user.id)).1 = .ok)) :
    OneWrite env confd s (s.loginAction env confd user) := by
  rcases @loginAction_refused env s confd user h with ⟨-, heq⟩ | ⟨-, flag, heq⟩
  · rw [heq]
    exact ⟨_, _, (Quietly.refl.query env _).calmly, Msg.noConfusion, Quietly.refl.mysqlEnd _⟩
  · rw [heq]
    exact ⟨_, _, (lookedUp_quietly env user s).calmly, Msg.noConfusion, Quietly.refl.mysqlEnd _⟩

/-- **`add_friend_action`** answers its connection, or writes to the user it names. -/
theorem addFriendAction_once (env : Env) (confd src dst : Int) (s : Server) :
    ∃ x, OneWrite env x s (s.addFriendAction env confd src dst) ∧
      (x = confd ∨ ∃ p, s.pOnline.searchList dst .byId = some p ∧ (s.db.table src).isSome ∧ dst ∉ s.db.friends src ∧
        x = p.sockfd) := by
  have hquery : ∀ conn, Quietly s ((s.query env (.selectFriend src dst)).emit (.fetchRow conn)) :=
    fun conn => (Quietly.refl.query env _).emit fun _ => rfl
  have hdb : (s.query env (.selectFriend src dst)).db = s.db := by
    show (s.answer env _).2 = s.db
    unfold answer Database.exec
    split
    · dsimp only
      split <;> rfl
    · rfl
  unfold addFriendAction mysqlGo
  dsimp only
  by_cases hok : (s.answer env (.selectFriend src dst)).1 = .ok
  swap
  · rw [if_neg hok]
    exact ⟨confd, ⟨_, _, (hquery _).calmly, Msg.noConfusion, .refl⟩, Or.inl rfl⟩
  have htable : (s.db.table src).isSome := by
    unfold answer Database.exec at hok
    split at hok
    · dsimp only at hok
      split at hok
      · assumption
      · cases hok
    · cases hok
  rw [if_pos hok, emit_db, hdb]
  dsimp only
  split
  · exact ⟨confd, ⟨_, _, (hquery _).calmly, Msg.noConfusion, .refl⟩, Or.inl rfl⟩
  rename_i hnew
  cases hp : s.pOnline.searchList dst .byId with
  | none => exact ⟨confd, ⟨_, _, (hquery _).calmly, Msg.noConfusion, .refl⟩, Or.inl rfl⟩
  | some p =>
    have hmem : p ∈ ((s.query env (.selectFriend src dst)).emit (.fetchRow (some s.log.length))).pOnline.nodes :=
      (OnlineList.searchId_some hp).1
    simp only [deref_live env hmem]
    exact ⟨p.sockfd, ⟨_, _, ((hquery _).emit fun _ => rfl).calmly, Msg.noConfusion, .refl⟩,
      Or.inr ⟨p, rfl, htable, hnew, rfl⟩⟩

/-- The answer to a requester who is online. -/
theorem answerRequest_once {v : Int} (hp : p ∈ s₁.pOnline.nodes) (h : Quietly s s₁) :
    OneWrite env p.sockfd s (s₁.answerRequest env (some p) src dst v) := by
  unfold answerRequest
  simp only [deref_live env hp]
  exact ⟨_, _, (h.emit fun _ => rfl).calmly, Msg.noConfusion, .refl⟩

theorem bothInserts_quietly (env : Env) (src dst : Int) (s : Server) : Quietly s (bothInserts env src dst s) :=
  (Quietly.refl.query env _).query env _

theorem OneWrite.mysqlEnd (h : OneWrite env x s s') (k : Option Nat) : OneWrite env x s (s'.mysqlEnd k) := by
  obtain ⟨t, m, hcalm, hm, hend⟩ := h
  exact ⟨t, m, hcalm, hm, hend.mysqlEnd k⟩

/-- **`allow_addf_action`** that introduces nobody: with the requester offline it writes nothing. -/
theorem allowAddfAction_once {v : Int}
    (h : v = 1 → BothOk env src dst s → s.pOnline.searchList src .byId = none ∨ s.pOnline.searchList dst .byId = none) :
    Quietly s (s.allowAddfAction env src dst v) ∨
      ∃ p, s.pOnline.searchList src .byId = some p ∧ (v = 0 ∨ v = 1) ∧
        OneWrite env p.sockfd s (s.allowAddfAction env src dst v) := by
  have hanswer : ∀ {s₁ : Server} {w : Int}, Quietly s s₁ →
      Quietly s (s₁.answerRequest env (s.pOnline.searchList src .byId) src dst w) ∨
        ∃ p, s.pOnline.searchList src .byId = some p ∧
          OneWrite env p.sockfd s (s₁.answerRequest env (s.pOnline.searchList src .byId) src dst w) := by
    intro s₁ w hq
    cases hp : s.pOnline.searchList src .byId with
    | none => exact Or.inl hq
    | some p =>
      have hmem : p ∈ s₁.pOnline.nodes := by
        rw [hq.1]
        exact (OnlineList.searchId_some hp).1
      exact Or.inr ⟨p, rfl, answerRequest_once hmem hq⟩
  by_cases hv : v = 1
  · subst hv
    rcases approve_cases env src dst s with ⟨hboth, k, heq⟩ | ⟨-, k, heq⟩
    · rw [heq, introduce_none (h rfl hboth)]
      refine (hanswer (bothInserts_quietly env src dst s)).imp (fun hq => hq.mysqlEnd k) ?_
      rintro ⟨p, hp, hw⟩
      exact ⟨p, hp, Or.inr rfl, hw.mysqlEnd k⟩
    · rw [heq]
      refine (hanswer (bothInserts_quietly env src dst s)).imp (fun hq => hq.mysqlEnd k) ?_
      rintro ⟨p, hp, hw⟩
      exact ⟨p, hp, Or.inr rfl, hw.mysqlEnd k⟩
  · unfold allowAddfAction
    dsimp only
    rw [if_neg hv]
    split
    · rename_i hv₀
      refine (hanswer .refl).imp_right ?_
      rintro ⟨p, hp, hw⟩
      exact ⟨p, hp, Or.inl hv₀, hw⟩
    · exact Or.inl .refl

/-! ## Whatever fails -/

/-- Both inserts of an approval can take effect. -/
def Database.Pairs (db : Database) (src dst : Int) : Prop := src ≠ dst ∧ db.Lacks src dst ∧ db.Lacks dst src

/-- No session can be torn down by the handler: there is none on the connections it writes to, and it
ends none itself. -/
def Server.Inert (s : Server) : Act → Prop
  | .hangup fd => s.sessionId fd < 0
  | .frame _ (.offline id) => id < 0
  | .frame fd (.register _) => s.sessionId fd < 0
  | .frame fd (.login user) => s.sessionId fd < 0 ∧ ¬ s.Admits user
  | .frame fd (.addFriend src dst) => s.sessionId fd < 0 ∧
      ∀ p, s.pOnline.searchList dst .byId = some p → (s.db.table src).isSome → dst ∉ s.db.friends src →
        s.sessionId p.sockfd < 0
  | .frame _ (.allowAddf src dst v) => v = 0 ∨ v = 1 → ∀ p, s.pOnline.searchList src .byId = some p →
      s.sessionId p.sockfd < 0 ∧ (v = 1 → s.pOnline.searchList dst .byId = none ∨ ¬ s.db.Pairs src dst)
  | _ => True

theorem bothOk_pairs (h : BothOk env src dst s) : s.db.Pairs src dst := by
  have htakes : ∀ {s : Server} {a b : Int}, (s.answer env (.insertFriend a b)).1 = .ok → Takes env s.log s.db a b :=
    fun hok => by_contra fun hno => (query_insert_fails hno).1 hok
  have hfirst := htakes h.1
  have hsecond := htakes h.2
  have hne : src ≠ dst := by
    rintro rfl
    -- the first insert has put the row there
    obtain ⟨t, ht, hlacks⟩ := hsecond.2
    have hmem := ((query_insert hfirst).2 src src).2 (Or.inr ⟨rfl, rfl⟩)
    have hrows : (s.query env (.insertFriend src src)).db.friends src = t.rows := Database.friends_some ht
    rw [hrows] at hmem
    exact hlacks hmem
  exact ⟨hne, hfirst.2, (lacks_firstInsert hne).1 hsecond.2⟩

theorem pairs_bothOk (hsql : ∀ log q, env.sql log q = true) (h : s.db.Pairs src dst) : BothOk env src dst s :=
  ⟨(query_insert ⟨hsql _ _, h.2.1⟩).1, (query_insert ⟨hsql _ _, (lacks_firstInsert h.1).2 h.2.2⟩).1⟩

/-- **Where nothing can be torn down**, every pattern of failures is tidy. -/
theorem inert_tidied (env : Env) (s : Server) {a : Act} (h : s.Inert a) : Tidied s (s.act env a) := by
  have hoff : ∀ {fd id : Int}, id < 0 → Tidied s (s.offlineAction env fd id) := by
    intro fd id hid
    rw [offlineAction_neg hid]
    refine ⟨[.epollDel fd] ++ [.close fd], by simp, tidy_append.2 ⟨tidy_of_open (by simp), ?_, by simp⟩⟩
    exact fun _ => List.pairwise_singleton ..
  have hquiet : ∀ {s' : Server}, Quietly s s' → Tidied s s' := fun h => h.calmly.tidied
  cases a with
  | accept fd => exact ⟨[.accept fd], rfl, tidy_of_open (by simp)⟩
  | hangup fd => exact hoff h
  | frame fd f =>
    cases f with
    | register user =>
      rcases registerAction_once env fd user s with hq | hw
      · exact hquiet hq
      · exact hw.tidied_neg h
    | login user => exact (loginAction_once fun had => h.2 had.1).tidied_neg h.1
    | heartbeat id => exact hquiet .refl
    | offline id => exact hoff h
    | addFriend src dst =>
      obtain ⟨x, hw, rfl | ⟨p, hp, htable, hnew, rfl⟩⟩ := addFriendAction_once env fd src dst s
      · exact hw.tidied_neg h.1
      · exact hw.tidied_neg (h.2 p hp htable hnew)
    | allowAddf src dst v =>
      have hnobody : v = 1 → BothOk env src dst s →
          s.pOnline.searchList src .byId = none ∨ s.pOnline.searchList dst .byId = none := by
        intro hv hboth
        cases hp : s.pOnline.searchList src .byId with
        | none => exact Or.inl rfl
        | some p => exact Or.inr (((h (Or.inr hv) p hp).2 hv).resolve_right fun hno => hno (bothOk_pairs hboth))
      rcases allowAddfAction_once hnobody with hq | ⟨p, hp, hv, hw⟩
      · exact hquiet hq
      · exact hw.tidied_neg (h hv p hp).1
    | other op => exact hquiet .refl

/-- A login that opens a session, when every message is lost. -/
theorem login_torn (had : s.Admits user) : ¬ Tidied s (s.loginAction (lost true) fd user) := by
  intro htidy
  have hopen : s.loginAction (lost true) fd user =
      (lookedUp (lost true) user s.log.length s).openSession (lost true) fd user (some s.log.length) :=
    loginAction_admitted rfl had
  rw [hopen] at htidy
  have hlook := (lookedUp_quietly (lost true) user s).log_extends
  generalize lookedUp (lost true) user s.log.length s = s₁ at hlook htidy
  -- the confirmation is lost
  have hadd : s₁.log <+: (withSession fd user ⟨0, 0⟩ s₁).log := ⟨[.getpeername fd true], rfl⟩
  have hgreet : greeted (lost true) fd user ⟨0, 0⟩ s₁ = (((withSession fd user ⟨0, 0⟩ s₁).emit
      (.write fd (.loginFeedback 0) false)).offlineAction (lost true) fd
        ((withSession fd user ⟨0, 0⟩ s₁).sessionId fd)) := by
    unfold greeted
    rw [writeServer_false rfl]
  have hemit : s.log <+: ((withSession fd user ⟨0, 0⟩ s₁).emit (.write fd (.loginFeedback 0) false)).log :=
    (hlook.trans hadd).trans ⟨_, rfl⟩
  have hsession : (withSession fd user ⟨0, 0⟩ s₁).sessionId fd = user.id := by
    simp [sessionId, withSession, OnlineList.searchList, Flag.field]
  rw [hsession] at hgreet
  by_cases hid : 0 ≤ user.id
  · -- the session is torn down there
    have hrest : (greeted (lost true) fd user ⟨0, 0⟩ s₁).log <+:
        (s₁.openSession (lost true) fd user (some s.log.length)).log := by
      rcases openSession_cases (lost true) fd user (some s.log.length) s₁ with ⟨hnone, -⟩ | ⟨addr, haddr, hw⟩
      · cases hnone
      · cases haddr
        exact query_log_extends.trans hw.passes.log_extends
    rw [hgreet] at hrest
    exact torn_twice hid (htidy.mid hemit cascade_offlineAction.log_extends hrest)
  · -- its descriptor is closed there, and again because there is no friend table
    have hneg : user.id < 0 := by omega
    have hno : ((greeted (lost true) fd user ⟨0, 0⟩ s₁).answer (lost true) (.selectFriends user.id)).1 ≠ .ok := by
      unfold answer Database.exec Database.table
      rw [if_pos (show (lost true).sql _ _ = true from rfl)]
      dsimp only
      rw [if_neg hid]
      exact Outcome.noConfusion
    rw [openSession_friendless (some s.log.length) (rfl : _ = some (⟨0, 0⟩ : SockAddr)) hno,
      offlineAction_neg hneg] at htidy
    rw [offlineAction_neg hneg] at hgreet
    have hgreeted : s.log <+: (greeted (lost true) fd user ⟨0, 0⟩ s₁).log := by
      rw [hgreet]
      refine hemit.trans ?_
      rw [close_log, epollDel_log, List.append_assoc]
      exact List.prefix_append ..
    have hquery : (greeted (lost true) fd user ⟨0, 0⟩ s₁).log <+:
        ((greeted (lost true) fd user ⟨0, 0⟩ s₁).query (lost true) (.selectFriends user.id)).log := query_log_extends
    have hdel : s.log <+:
        (((withSession fd user ⟨0, 0⟩ s₁).emit (.write fd (.loginFeedback 0) false)).epollDel fd).log :=
      hemit.trans ⟨[.epollDel fd], rfl⟩
    have hon : Event.on fd (.epollDel fd) = true := by simp [Event.on]
    refine not_tidied hdel ?_ (epollDel_log ..) hon
      (htidy.mid (List.prefix_refl _) (hgreeted.trans (hquery.trans ⟨[.epollDel fd], rfl⟩)) ?_)
    · rw [← hgreet]
      exact hquery
    · rw [mysqlEnd_log, close_log, List.append_assoc]
      exact List.prefix_append ..

/-- The first message of an introduction. -/
theorem introduce_begins {pdst : Node} (hp : p ∈ s.pOnline.nodes) (hd : pdst ∈ s.pOnline.nodes) :
    ((((s.emit (.deref p.ref true)).emit (.deref pdst.ref true)).writeServer env p.sockfd
      (.online pdst.toOnlineNode)).1).log <+: (s.introduce env (some p) (some pdst)).log := by
  have hd' : pdst ∈ (s.emit (.deref p.ref true)).pOnline.nodes := hd
  unfold introduce
  dsimp only
  rw [deref_live _ hp]
  dsimp only
  rw [deref_live _ hd']
  exact ((deref_extends ..).trans (deref_extends ..)).trans (writeServer_extends ..)

/-- An approval that takes effect, when every message is lost and no session is torn down: the requester is
written to again. -/
theorem approval_torn {pdst : Node} (hpairs : s.db.Pairs src dst) (hp : s.pOnline.searchList src .byId = some p)
    (hd : s.pOnline.searchList dst .byId = some pdst) (hneg : s.sessionId p.sockfd < 0) :
    ¬ Tidied s (s.allowAddfAction (lost true) src dst 1) := by
  intro htidy
  have hboth : BothOk (lost true) src dst s := pairs_bothOk (fun _ _ => rfl) hpairs
  obtain ⟨k, heq⟩ := ((approve_cases (lost true) src dst s).resolve_right fun h => h.1 hboth).2
  rw [heq, hp, hd] at htidy
  have hins := bothInserts_quietly (lost true) src dst s
  generalize bothInserts (lost true) src dst s = s₁ at hins htidy
  have hmem : p ∈ s₁.pOnline.nodes := by
    rw [hins.1]
    exact (OnlineList.searchId_some hp).1
  have hmem' : pdst ∈ s₁.pOnline.nodes := by
    rw [hins.1]
    exact (OnlineList.searchId_some hd).1
  -- the answer is lost, and the descriptor is closed
  have hanswer : s₁.answerRequest (lost true) (some p) src dst 1 =
      (((s₁.emit (.deref p.ref true)).emit (.write p.sockfd (.allowAddf src dst 1) false)).epollDel p.sockfd).close
        p.sockfd := by
    have hneg' : (s₁.emit (.deref p.ref true)).sessionId p.sockfd < 0 := by
      unfold sessionId at hneg ⊢
      rwa [emit_pOnline, hins.1]
    unfold answerRequest
    dsimp only
    rw [deref_live _ hmem, writeServer_false rfl, offlineAction_neg hneg']
  have hext : s.log <+: (((s₁.emit (.deref p.ref true)).emit (.write p.sockfd (.allowAddf src dst 1) false)).epollDel
      p.sockfd).log := by
    refine hins.log_extends.trans ?_
    simp only [epollDel_log, emit_log, List.append_assoc]
    exact List.prefix_append ..
  have hnodes : ((((s₁.emit (.deref p.ref true)).emit (.write p.sockfd (.allowAddf src dst 1) false)).epollDel
      p.sockfd).close p.sockfd).pOnline = s₁.pOnline := rfl
  rw [hanswer] at htidy
  generalize ((s₁.emit (.deref p.ref true)).emit (.write p.sockfd (.allowAddf src dst 1) false)).epollDel p.sockfd = s₂
    at hext htidy hnodes
  rw [← hnodes] at hmem hmem'
  -- its node is still listed, and so is written to
  have hstart : (s₂.close p.sockfd).log <+:
      (((s₂.close p.sockfd).emit (.deref p.ref true)).emit (.deref pdst.ref true)).log := by
    simp only [emit_log, List.append_assoc]
    exact List.prefix_append ..
  have hagain : ((((s₂.close p.sockfd).emit (.deref p.ref true)).emit (.deref pdst.ref true)).emit
      (.write p.sockfd (.online pdst.toOnlineNode) false)).log <+:
        (((s₂.close p.sockfd).introduce (lost true) (some p) (some pdst)).mysqlEnd k).log := by
    exact (writeServer_begins (lost true) ..).trans ((introduce_begins hmem hmem').trans ⟨_, (mysqlEnd_log ..).symm⟩)
  have hon : Event.on p.sockfd (.write p.sockfd (.online pdst.toOnlineNode) false) = true := by simp [Event.on]
  refine not_tidied hext hstart rfl hon (htidy.mid (List.prefix_refl _) ?_ hagain)
  exact (hext.trans ⟨_, (close_log ..).symm⟩).trans (hstart.trans ⟨_, rfl⟩)

theorem refuse_eq : s.allowAddfAction env src dst 0 = s.answerRequest env (s.pOnline.searchList src .byId) src dst 0 :=
  rfl

/-- An answer to a friend request, without a database. -/
theorem allowAddf_lost {v : Int} (hv : v = 0 ∨ v = 1) (hp : s.pOnline.searchList src .byId = some p) :
    OneWrite (lost false) p.sockfd s (s.allowAddfAction (lost false) src dst v) := by
  have hno : ¬ BothOk (lost false) src dst s := by
    rintro ⟨hok, -⟩
    rw [answer_lost] at hok
    cases hok
  have hmem := (OnlineList.searchId_some hp).1
  rcases hv with rfl | rfl
  · rw [refuse_eq, hp]
    exact answerRequest_once hmem .refl
  · obtain ⟨k, heq⟩ := ((approve_cases (lost false) src dst s).resolve_left fun h => hno h.1).2
    have hmem' : p ∈ (bothInserts (lost false) src dst s).pOnline.nodes := hmem
    rw [heq, hp]
    exact (answerRequest_once hmem' (bothInserts_quietly ..)).mysqlEnd k

/-- An answer to a friend request. -/
theorem allowAddf_inert {v fd : Int} (h : ∀ env, Tidied s (s.allowAddfAction env src dst v)) :
    s.Inert (.frame fd (.allowAddf src dst v)) := by
  intro hv p hp
  have hneg : s.sessionId p.sockfd < 0 :=
    Int.not_le.1 fun hpos => (allowAddf_lost hv hp).torn_twice hpos (h (lost false))
  refine ⟨hneg, fun hv => ?_⟩
  subst hv
  cases hd : s.pOnline.searchList dst .byId with
  | none => exact Or.inl rfl
  | some pdst => exact Or.inr fun hpairs => approval_torn hpairs hp hd hneg (h (lost true))

/-- A friend request. -/
theorem addFriend_inert (h : ∀ env, Tidied s (s.addFriendAction env confd src dst)) :
    s.Inert (.frame confd (.addFriend src dst)) := by
  constructor
  · have hask : OneWrite (lost false) confd s (s.addFriendAction (lost false) confd src dst) := by
      unfold addFriendAction mysqlGo
      dsimp only
      rw [answer_lost, if_neg Outcome.noConfusion]
      exact ⟨_, _, ((Quietly.refl.query _ _).emit fun _ => rfl).calmly, Msg.noConfusion, .refl⟩
    exact Int.not_le.1 fun hpos => hask.torn_twice hpos (h _)
  · intro p hp htable hnew
    have hok : s.answer (lost true) (.selectFriend src dst) = (.ok, s.db) := by
      unfold answer Database.exec
      rw [if_pos (show (lost true).sql _ _ = true from rfl)]
      dsimp only
      rw [if_pos htable]
    have hdb : (s.query (lost true) (.selectFriend src dst)).db = s.db := congrArg Prod.snd hok
    have hmem :
        p ∈ ((s.query (lost true) (.selectFriend src dst)).emit (.fetchRow (some s.log.length))).pOnline.nodes :=
      (OnlineList.searchId_some hp).1
    have hforward : OneWrite (lost true) p.sockfd s (s.addFriendAction (lost true) confd src dst) := by
      unfold addFriendAction mysqlGo
      dsimp only
      rw [hok, if_pos rfl, emit_db, hdb]
      dsimp only
      rw [if_neg hnew, hp]
      simp only [deref_live _ hmem]
      exact ⟨_, _, (((Quietly.refl.query _ _).emit fun _ => rfl).emit fun _ => rfl).calmly, Msg.noConfusion, .refl⟩
    exact Int.not_le.1 fun hpos => hforward.torn_twice hpos (h (lost true))

/-- **Whatever fails, an event is tidy** exactly where nothing can be torn down. -/
theorem inert_iff {a : Act} : (∀ env, Tidied s (s.act env a)) ↔ s.Inert a := by
  refine ⟨fun h => ?_, fun h env => inert_tidied env s h⟩
  cases a with
  | accept fd => trivial
  | hangup fd => exact Int.not_le.1 fun hpos => torn_twice hpos (h (lost true))
  | frame fd f =>
    cases f with
    | register user =>
      exact Int.not_le.1 fun hpos => (registerAction_lost fd user s).torn_twice hpos (h (lost false))
    | login user =>
      have hno : ¬ (s.Admits user ∧ (s.answer (lost false) (.selectUser user.id)).1 = .ok) := by
        rintro ⟨-, hok⟩
        rw [answer_lost] at hok
        cases hok
      refine ⟨Int.not_le.1 fun hpos => ?_, fun had => login_torn had (h (lost true))⟩
      exact OneWrite.torn_twice (loginAction_once hno) hpos (h (lost false))
    | heartbeat id => trivial
    | offline id => exact Int.not_le.1 fun hpos => torn_twice hpos (h (lost true))
    | addFriend src dst => exact addFriend_inert h
    | allowAddf src dst v => exact allowAddf_inert h
    | other op => trivial

end UnixNote
