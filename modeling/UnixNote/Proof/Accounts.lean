import UnixNote.Proof.Registration
import UnixNote.Proof.Terminals

/-!
# Rows of the table `user`

* `typed_register`: the id that a process is told is that of the row with what was typed into its form.
* `friends_registered`: whoever is in a friend table has a row.
-/

namespace UnixNote

open Server
open Socket (Received Transfer)

variable {env : Env} {s : Server} {confd x y src dst id : Int} {user : User} {db : Database}

/-! ## The row of a registration -/

/-- No insert of a registration has failed. -/
def Server.Registers (s : Server) : Prop := ∀ username password, .query (.insertUser username password) .error ∉ s.log

theorem Server.Answered.registers (h : s.Answered) : s.Registers :=
  fun _ _ hmem => Bool.false_ne_true (h _ hmem)

/-- The row of an insert has the greatest id. -/
theorem Database.maxUser_insert {username password : CStr} (h : db.Increasing) (hv : Sql.Verbatim username password)
    (hok : (db.exec (.insertUser username password)).1 = .ok) :
    (db.exec (.insertUser username password)).2.maxUser = some ⟨db.nextId, username, password⟩ := by
  have hlast : (db.exec (.insertUser username password)).2.user = db.user ++ [⟨db.nextId, username, password⟩] := by
    rw [(exec_verbatim hv hok).2, addRow]
  exact maxUser_last (exec_increasing _ _ h) hlast

/-- The insert of a registration that did not fail was executed. -/
theorem register_inserts (h : (s.registerAction env confd user).Registers) :
    (s.db.exec (.insertUser user.username user.password)).1 = .ok ∧
      (s.query env (.insertUser user.username user.password)).db =
        (s.db.exec (.insertUser user.username user.password)).2 := by
  have hlog := (registerAction_behind env confd user s).passes.log_extends
  have hmem : Event.query (.insertUser user.username user.password)
      (s.answer env (.insertUser user.username user.password)).1 ∈ (s.registerAction env confd user).log :=
    hlog.subset (by simp)
  show _ ∧ (s.answer env _).2 = _
  unfold answer at hmem ⊢
  split
  · rename_i hsql
    rw [if_pos hsql] at hmem
    refine ⟨?_, rfl⟩
    rcases Database.exec_insertUser user.username user.password s.db with herr | ⟨-, -, heq⟩
    · rw [herr] at hmem
      exact absurd hmem (h _ _)
    · rw [heq]
  · rename_i hsql
    rw [if_neg hsql] at hmem
    exact absurd hmem (h _ _)

/-- **The row stays.** -/
theorem register_row (hdb : s.db.Increasing) (hv : Sql.Verbatim user.username user.password)
    (h : (s.registerAction env confd user).Registers) :
    (s.registerAction env confd user).db.selectUser s.db.nextId =
      some ⟨s.db.nextId, user.username, user.password⟩ := by
  refine (registerAction_behind env confd user s).db (fun q db => Database.exec_selectUser q db) ?_
  obtain ⟨hok, hrun⟩ := register_inserts h
  rw [hrun]
  exact Database.selectUser_insert hdb.below hv hok

namespace Writes

variable {s' : Server} {P : Int → Msg → Prop}

theorem emit {e : Event} (h : Writes P s s') (he : e.quiet = true) : Writes P s (s'.emit e) :=
  h.trans (quiet [e] rfl (by simpa using he))

theorem query (h : Writes P s s') (env : Env) (q : Stmt) : Writes P s (s'.query env q) :=
  h.trans (quiet [.query q (s'.answer env q).1] rfl rfl)

end Writes

/-- **The client is told the id of that row**, or -1. -/
theorem register_tells (hdb : s.db.Increasing) (hv : Sql.Verbatim user.username user.password)
    (h : (s.registerAction env confd user).Registers) :
    Writes (fun _ m => ∀ id, m = .registerSuccess id → id = -1 ∨ id = s.db.nextId) s
      (s.registerAction env confd user) := by
  obtain ⟨hok, hrun⟩ := register_inserts h
  have hmax := Database.maxUser_insert hdb hv hok
  rw [← hrun] at hmax
  have hreply : ∀ {t : Server} {id : Int} {c : Option Nat}, (id = -1 ∨ id = s.db.nextId) →
      Writes (fun _ m => ∀ id, m = .registerSuccess id → id = -1 ∨ id = s.db.nextId) t
        (t.registerReply env confd id c) := by
    intro t id c hid
    refine (writeServer_writes.mono fun fd m hm id' heq => ?_).mysqlEnd c
    rcases hm with ⟨-, rfl⟩ | hm
    · cases heq
      exact hid
    · rw [heq] at hm
      cases hm
  have hselect : Writes (fun _ m => ∀ id, m = .registerSuccess id → id = -1 ∨ id = s.db.nextId) s
      ((s.query env (.insertUser user.username user.password)).query env .selectMaxUser) :=
    (Writes.refl.query env _).query env _
  have hsame : ((s.query env (.insertUser user.username user.password)).query env .selectMaxUser).db =
      (s.query env (.insertUser user.username user.password)).db := by
    rw [Register.query_send]
    cases env.sql (s.query env (.insertUser user.username user.password)).log .selectMaxUser <;> rfl
  unfold registerAction mysqlGo
  dsimp only
  split
  · exact hselect.trans (hreply (Or.inl rfl))
  rename_i c _
  rw [emit_db, hsame, hmax]
  have hcreate := (hselect.emit (e := .fetchRow (some c)) rfl).query env (.createTable s.db.nextId)
  dsimp only
  split
  · exact hcreate.trans (hreply (Or.inr rfl))
  · exact hcreate.trans (hreply (Or.inl rfl))

/-! ## Registrations in the system -/

/-- The row `id` is that of `user`, if the fields denote themselves. -/
def Database.Stores (db : Database) (user : User) (id : Int) : Prop :=
  Sql.Verbatim user.username user.password → db.selectUser id = some ⟨id, user.username, user.password⟩

/-- At the welcome menu nothing is on its way. -/
theorem Stage.welIface {inn : List Frame} {rs : List Msg} {o : Option Int} (h : Stage .welIface inn rs o) :
    inn = [] ∧ rs = [] := by
  cases h with
  | welcome => exact ⟨rfl, rfl⟩

namespace System

variable {σ : System} {tr : List (System × Act)} {fd : Int} {f : Frame}

/-- The frame `f` is the last one that the client on `fd` has sent since it was accepted. -/
def LastSent (tr : List (System × Act)) (fd : Int) (f : Frame) : Prop :=
  ∃ before σ after, tr = before ++ (σ, .send fd f) :: after ∧
    ∀ σ' a, (σ', a) ∈ after → a ≠ .connect fd ∧ ∀ g, a ≠ .send fd g

theorem LastSent.concat {a : Act} (h : LastSent tr fd f) (hc : a ≠ .connect fd) (hs : ∀ g, a ≠ .send fd g)
    (σ : System) : LastSent (tr ++ [(σ, a)]) fd f := by
  obtain ⟨before, σ₁, after, rfl, hafter⟩ := h
  refine ⟨before, σ₁, after ++ [(σ, a)], by simp, fun σ' b hmem => ?_⟩
  rcases List.mem_append.1 hmem with hmem | hmem
  · exact hafter σ' b hmem
  · cases List.mem_singleton.1 hmem
    exact ⟨hc, hs⟩

/-- A client that waits for the answer to a registration: of its user, whose frame may be on its way, and if the
answer is there and names a row, it is the row of that user. -/
structure Registering (tr : List (System × Act)) (σ : System) (fd : Int) (user : User) : Prop where
  last : LastSent tr fd (.register user)
  up : ∀ f ∈ σ.toServer fd, f = .register user
  down : ∀ id, .registerSuccess id ∈ σ.toClient fd → id = -1 ∨ σ.server.db.Stores user id

/-- A client comes to wait for a registration where it sends one, at the welcome menu. -/
theorem send_phase {c : Client} (hs : c.Sends f) (h : (c.send f).phase = .registerSent) :
    c.phase = .welIface ∧ ∃ user, f = .register user := by
  obtain ⟨phase, list, asked⟩ := c
  cases f with
  | register user =>
    refine ⟨?_, user, rfl⟩
    cases phase with
    | welIface => rfl
    | _ => exact hs.elim
  | login user => cases h
  | _ =>
    -- any other frame leaves the phase, and is not sent there
    cases (show phase = .registerSent from h)
    exact hs.elim

/-- A client that has read does not wait for a registration. -/
theorem recv_phase (c : Client) (m : Msg) : (c.recv m).phase ≠ .registerSent := by
  obtain ⟨phase, list, asked⟩ := c
  cases phase with
  | registerSent =>
    show Client.registerIfaceMgmt m ≠ _
    unfold Client.registerIfaceMgmt
    split
    · split <;> exact Phase.noConfusion
    · exact Phase.noConfusion
  | loginSent id =>
    show Client.loginIfaceMgmt id m ≠ _
    unfold Client.loginIfaceMgmt
    split
    · repeat' split
      all_goals exact Phase.noConfusion
    · exact Phase.noConfusion
  | operaIface id => cases m <;> exact Phase.noConfusion
  | _ => exact Phase.noConfusion

/-- A step that sends nothing on `fd` and does not accept it: what is on its way there shrinks, and what arrives
names the row. -/
theorem Registering.keep {a : Act} (h : Registering tr σ fd user) (hc : a ≠ .connect fd) (hs : ∀ g, a ≠ .send fd g)
    (hup : ∀ f ∈ (σ.act env a).toServer fd, f ∈ σ.toServer fd)
    (hdown : ∀ id, .registerSuccess id ∈ (σ.act env a).toClient fd → .registerSuccess id ∈ σ.toClient fd ∨ id = -1 ∨
      (σ.act env a).server.db.Stores user id) :
    Registering (tr ++ [(σ, a)]) (σ.act env a) fd user where
  last := h.last.concat hc hs σ
  up f hf := h.up f (hup f hf)
  down id hid := by
    rcases hdown id hid with hold | hnew
    · exact (h.down id hold).imp_right fun hrow hv => act_db (fun q db => Database.exec_selectUser q db) a (hrow hv)
    · exact hnew

/-- What the server tells a connection about registrations comes from the frame of one. -/
theorem told_registering {a : Server.Act} (hdb : σ.server.db.Increasing) (ht : Table σ.server)
    (hins : (σ.server.act env a).Registers)
    (hup : ∀ f, a = .frame fd f → f.opening = true → f = .register user)
    (hid : .registerSuccess id ∈ sent fd (σ.server.news (σ.server.act env a))) :
    id = -1 ∨ (σ.server.act env a).db.Stores user id := by
  have haddr : Writes (σ.server.Addressed a) σ.server (σ.server.act env a) := act_addressed ht a
  obtain ⟨f, rfl, hopen⟩ : ∃ f, a = .frame fd f ∧ f.opening = true := (haddr.sent hid).1 rfl
  obtain rfl := hup f rfl hopen
  by_cases hv : Sql.Verbatim user.username user.password
  · refine ((register_tells hdb hv hins).sent hid id rfl).imp_right ?_
    rintro rfl -
    exact register_row hdb hv hins
  · exact Or.inr fun h => absurd h hv

/-- Ids stay increasing. -/
theorem run_increasing {C : System → Act → Prop}
    (hr : ((lts env).startingIn fun σ => σ.server.db.Numbered ∧ σ.server.db.Increasing).Run C tr σ) :
    σ.server.db.Increasing := by
  refine hr.invariant (I := fun σ => σ.server.db.Increasing) ?_ ?_
  · rintro σ ⟨-, -, h⟩
    exact h
  · rintro σ a σ' h - ⟨-, rfl⟩
    exact act_db (fun q db => Database.exec_increasing q db) a h

/-- **A client that waits for a registration** is told about its own. -/
theorem run_registering (hr : ((lts env).startingIn fun σ => σ.server.db.Numbered ∧ σ.server.db.Increasing).Run
      (fun σ a => (σ.act env a).server.Registers) tr σ) (hphase : (σ.client fd).phase = .registerSent) :
    ∃ user, Registering tr σ fd user := by
  induction hr with
  | start hi =>
    obtain ⟨⟨db, rfl⟩, -⟩ := hi
    cases hphase
  | @next tr σ σ' a hrun hins hst ih =>
    obtain ⟨hen, rfl⟩ := hst
    have hcoh := (run_coherent ((hrun.mono fun _ _ _ => trivial).startingIn fun _ h => h.1)).1
    cases a with
    | connect fd' =>
      by_cases hfd : fd = fd'
      · subst hfd
        replace hphase : (Function.update σ.client fd .fresh fd).phase = .registerSent := hphase
        rw [Function.update_self] at hphase
        cases hphase
      replace hphase : (Function.update σ.client fd' .fresh fd).phase = .registerSent := hphase
      rw [Function.update_of_ne hfd] at hphase
      obtain ⟨user, h⟩ := ih hphase
      refine ⟨user, h.keep (fun heq => hfd (Act.connect.inj heq).symm) nofun (fun f hf => ?_) fun id hid => Or.inl ?_⟩
      · replace hf : f ∈ Function.update σ.toServer fd' [] fd := hf
        rwa [Function.update_of_ne hfd] at hf
      · replace hid : Msg.registerSuccess id ∈ Function.update σ.toClient fd' [] fd := hid
        rwa [Function.update_of_ne hfd] at hid
    | send fd' g =>
      by_cases hfd : fd = fd'
      · subst hfd
        obtain ⟨hopen, hsends⟩ := hen
        replace hphase : (Function.update σ.client fd ((σ.client fd).send g) fd).phase = .registerSent := hphase
        rw [Function.update_self] at hphase
        have hstage := (hcoh.links fd hopen).stage
        obtain ⟨hwel, user, rfl⟩ := send_phase hsends hphase
        rw [hwel] at hstage
        obtain ⟨hinn, hrs⟩ := hstage.welIface
        refine ⟨user, ⟨tr, σ, [], rfl, fun _ _ hmem => absurd hmem List.not_mem_nil⟩, fun f hf => ?_, fun id hid => ?_⟩
        · replace hf : f ∈ Function.update σ.toServer fd (σ.toServer fd ++ [.register user]) fd := hf
          rw [Function.update_self, hinn] at hf
          exact List.mem_singleton.1 hf
        · -- no answer was on its way
          have hreply : Msg.registerSuccess id ∈ replies (σ.toClient fd) := List.mem_filter.2 ⟨hid, rfl⟩
          rw [hrs] at hreply
          cases hreply
      replace hphase : (Function.update σ.client fd' ((σ.client fd').send g) fd).phase = .registerSent := hphase
      rw [Function.update_of_ne hfd] at hphase
      obtain ⟨user, h⟩ := ih hphase
      refine ⟨user, h.keep nofun (fun g' heq => hfd (Act.send.inj heq).1.symm) (fun f hf => ?_)
        fun id hid => Or.inl hid⟩
      replace hf : f ∈ Function.update σ.toServer fd' (σ.toServer fd' ++ [g]) fd := hf
      rwa [Function.update_of_ne hfd] at hf
    | recv fd' =>
      obtain ⟨m, ms, hms⟩ := enabled_recv hen
      have hfd : fd ≠ fd' := by
        rintro rfl
        rw [act_recv env hms] at hphase
        replace hphase : (Function.update σ.client fd ((σ.client fd).recv m) fd).phase = .registerSent := hphase
        rw [Function.update_self] at hphase
        exact recv_phase _ _ hphase
      rw [act_recv env hms] at hphase
      replace hphase : (Function.update σ.client fd' ((σ.client fd').recv m) fd).phase = .registerSent := hphase
      rw [Function.update_of_ne hfd] at hphase
      obtain ⟨user, h⟩ := ih hphase
      refine ⟨user, h.keep nofun nofun (fun f hf => ?_) fun id hid => Or.inl ?_⟩
      · rw [act_recv env hms] at hf
        exact hf
      · rw [act_recv env hms] at hid
        replace hid : Msg.registerSuccess id ∈ Function.update σ.toClient fd' ms fd := hid
        rwa [Function.update_of_ne hfd] at hid
    | serve fd' =>
      obtain ⟨g, gs, hto, -⟩ := enabled_serve hen
      rw [act_serve env hto] at hphase
      obtain ⟨user, h⟩ := ih hphase
      refine ⟨user, h.keep nofun nofun (fun f hf => ?_) fun id hid => ?_⟩
      · rw [act_serve env hto] at hf
        replace hf : f ∈ Function.update σ.toServer fd' gs fd := hf
        rw [Function.update_apply] at hf
        split at hf
        · rename_i hfd
          subst hfd
          exact hto ▸ List.mem_cons_of_mem g hf
        · exact hf
      · rw [act_serve env hto] at hid hins ⊢
        rcases List.mem_append.1 hid with hid | hid
        · exact Or.inl hid
        · refine Or.inr (told_registering (a := .frame fd' g) (run_increasing hrun) hcoh.table hins ?_ hid)
          rintro f hf -
          cases hf
          exact h.up g (hto ▸ List.mem_cons_self)
    | hangup fd' =>
      obtain ⟨user, h⟩ := ih hphase
      refine ⟨user, h.keep nofun nofun (fun _ hf => hf) fun id hid => ?_⟩
      rcases List.mem_append.1 hid with hid | hid
      · exact Or.inl hid
      · exact Or.inr (told_registering (run_increasing hrun) hcoh.table hins nofun hid)

end System

/-! ## Rows behind friend tables -/

/-- Whoever is in a friend table is not its owner, and both have a row. -/
def Database.Closed (db : Database) : Prop :=
  ∀ x, ∀ y ∈ db.friends x, x ≠ y ∧ (db.selectUser x).isSome ∧ (db.selectUser y).isSome

theorem Database.exec_known (q : Stmt) (db : Database) (h : (db.selectUser id).isSome) :
    ((db.exec q).2.selectUser id).isSome := by
  obtain ⟨row, hrow⟩ := Option.isSome_iff_exists.1 h
  rw [exec_selectUser q db hrow]
  rfl

namespace System

variable {σ : System} {tr : List (System × Act)} {fd : Int} {C : System → Act → Prop}

/-- Who is online has a row. -/
theorem run_known (hr : ((lts env).startingIn fun σ => σ.server.db.Numbered).Run (fun _ _ => True) tr σ)
    (hs : σ.server.session fd = some id) : (σ.server.db.selectUser id).isSome := by
  obtain ⟨n, hn, -, rfl⟩ := (session_some (run_coherent hr).1.table.sessions).1 hs
  obtain ⟨-, row, -, -, hrow, -⟩ := run_logged_in hr hn
  exact Option.isSome_iff_exists.2 ⟨row, hrow⟩

/-- Who has asked for a friend has a row. -/
theorem run_asked (hr : ((lts env).startingIn fun σ => σ.server.db.Numbered).Run (fun _ _ => True) tr σ)
    (h : Asked tr src dst) : (σ.server.db.selectUser src).isSome := by
  induction hr with
  | start _ =>
    obtain ⟨_, _, hmem, -⟩ := h
    exact absurd hmem List.not_mem_nil
  | @next tr σ σ' a hrun _ hst ih =>
    obtain ⟨-, rfl⟩ := hst
    refine act_db (fun q db => Database.exec_known q db) a ?_
    obtain ⟨σ₁, a₁, hmem, hreq⟩ := h
    rcases List.mem_append.1 hmem with hmem | hmem
    · exact ih ⟨σ₁, a₁, hmem, hreq⟩
    · cases List.mem_singleton.1 hmem
      obtain ⟨fd, fs, -, -, hs⟩ := hreq
      exact run_known hrun hs

/-- **A new row of a friend table** names a user that was asked by another. -/
theorem run_closed (hr : ((lts env).startingIn fun σ => σ.server.db.Numbered ∧ σ.server.db.Closed).Run C tr σ) :
    σ.server.db.Closed := by
  induction hr with
  | start hi => exact hi.2.2
  | @next tr σ σ' a hrun _ hst ih =>
    obtain ⟨hen, rfl⟩ := hst
    have hkeep : ∀ {id : Int}, (σ.server.db.selectUser id).isSome → ((σ.act env a).server.db.selectUser id).isSome :=
      fun h => act_db (fun q db => Database.exec_known q db) a h
    intro x y hy
    by_cases hold : y ∈ σ.server.db.friends x
    · obtain ⟨hne, hx, hy⟩ := ih x y hold
      exact ⟨hne, hkeep hx, hkeep hy⟩
    have hrun' : ((lts env).startingIn fun σ => σ.server.db.Numbered).Run (fun _ _ => True) tr σ :=
      (hrun.mono fun _ _ _ => trivial).startingIn fun _ h => h.1
    obtain ⟨fd, fs, src, dst, rfl, hto, hpair⟩ := act_gains hen hold hy
    obtain ⟨hcoh, -⟩ := run_coherent hrun'
    have hopen : fd ∈ σ.server.opened := by
      obtain ⟨f, fs', hto', hen⟩ := enabled_serve hen
      exact hcoh.table.registered fd hen.2
    have hback : Requested (Asked tr) (σ.server.session fd) src dst :=
      (hcoh.links fd hopen).frames (.allowAddf src dst 1) (hto ▸ List.mem_cons_self)
    obtain ⟨hsession, hasked, hne⟩ := hback
    have hsrc := hkeep (run_asked hrun' hasked)
    have hdst := hkeep (run_known hrun' hsession)
    rcases hpair with ⟨rfl, rfl⟩ | ⟨rfl, rfl⟩
    · exact ⟨hne, hsrc, hdst⟩
    · exact ⟨hne.symm, hdst, hsrc⟩

end System

namespace Wire

variable {rest : List Event → Rest} {w : Wire} {a : Act} {tr : List (Wire × Act)} {fd : Int}

/-- Since it connected, the process on `fd` typed this name and this password into the form of `Register_Iface_mgmt`,
and nothing that was typed later has reached the server. -/
def TypedForm (tr : List (Wire × Act)) (fd : Int) (name pwd : CStr) : Prop :=
  ∃ before w m keys after, tr = before ++ (w, .ui fd m) :: after ∧
    (∀ w' keys', (w', .connect fd keys') ∉ after) ∧
    (∀ w' m' c p, (w', .ui fd m') ∈ after → (w'.process fd).ui m' = some (c, some p) → fd ∉ w'.server.opened) ∧
    (w.process fd).place = .registerIface ∧ Process.form m (w.process fd).keys = some (name, pwd, keys)

/-- A registration comes from the form. -/
theorem Matches.registers (h : Matches w a (.send fd (.register user))) :
    ∃ m name pwd keys, a = .ui fd m ∧ (w.process fd).place = .registerIface ∧
      Process.form m (w.process fd).keys = some (name, pwd, keys) ∧ user = ⟨0, storedName name pwd, pwd⟩ := by
  generalize hb : System.Act.send fd (.register user) = b at h
  cases h with
  | @ui fd m c p f _ hsays =>
    cases hb
    generalize hf : Frame.register user = f at hsays
    cases hsays with
    | register hplace hform =>
      cases hf
      exact ⟨m, _, _, _, rfl, hplace, hform, rfl⟩
    | _ => cases hf
  | answer _ _ => cases hb
  | _ => cases hb

/-- A process that waits for a registration has a client that does. -/
theorem Abstracts.registerSent {σ : System} (h : Abstracts w σ) (hplace : (w.process fd).place = .registerSent) :
    (σ.client fd).phase = .registerSent := by
  have hat := (h.runs fd).stands
  rw [hplace] at hat
  generalize (σ.client fd).phase = phase at hat
  cases hat with
  | registerSent _ => rfl

/-- **The id after a registration is that of its row.** When a process behind a registration reads
`OP_REGISTER_SUCCESS` with an id other than -1, the row with this id has what the process has last typed: the name as
it is stored, and the password, if both denote themselves in the statement. -/
theorem typed_register (henv : env.Fits)
    (hr : ((lts env rest).startingIn fun w => w.server.db.Fits ∧ w.server.db.Numbered ∧ w.server.db.Increasing).Run
      (fun w a => Regular w a ∧ ∀ w', w.act env rest a = .ok w' → w'.server.Registers) tr w)
    (hplace : (w.process fd).place = .registerSent) {t : Transfer} {got : Received} {stream : List UInt8}
    (ht : Complete t (w.down fd)) (hread : Socket.read t (w.down fd) = some (got, stream))
    (hop : got.optype = OP_REGISTER_SUCCESS) (hload : loadInt got.buf 0 = .ok id) (hid : id ≠ -1) :
    ∃ name pwd, TypedForm tr fd name pwd ∧ (Sql.Verbatim (storedName name pwd) pwd →
      w.server.db.selectUser id = some ⟨id, storedName name pwd, pwd⟩) := by
  obtain ⟨tr', σ, hrun, habs, hb⟩ := simulated (J := fun db => db.Numbered ∧ db.Increasing)
    (K := Server.Registers) henv hr
  obtain ⟨user, ⟨pre', σ₁, post', hsplit, hlast⟩, -, hdown⟩ :=
    System.run_registering hrun (habs.registerSent hplace)
  -- the bytes are those of the first message
  obtain ⟨p, msg, ms, rest', hms, ⟨hfits, r, rfl⟩, hread', -⟩ := (habs.down fd).read ht
  rw [hread] at hread'
  obtain ⟨rfl, -⟩ := Prod.mk.inj (Option.some.inj hread')
  obtain rfl : msg = .registerSuccess id := by
    rw [Process.received_optype] at hop
    cases msg with
    | registerSuccess id' =>
      have hload' : loadInt (Msg.package r (.registerSuccess id')).received.buf 0 = .ok id' :=
        Process.loadInt_ints [] [] hfits
      rw [hload] at hload'
      rw [Except.ok.inj hload']
    | _ =>
      unfold Process.optype at hop
      dsimp only at hop
      exact absurd hop (by decide)
  have hrow := (hdown id (hms ▸ List.mem_cons_self)).resolve_left hid
  rw [habs.server] at hrow
  -- the form, and what has happened since
  obtain ⟨pre, post, w₁, a₁, rfl, ⟨-, hmatch, -⟩, -, hafter⟩ := hb.back hsplit
  obtain ⟨m, name, pwd, keys, rfl, hregister, hform, rfl⟩ := hmatch.registers
  refine ⟨name, pwd, ⟨pre, w₁, m, keys, post, rfl, fun w' keys' hmem => ?_, fun w' m' c p hmem hui => ?_, hregister,
    hform⟩, hrow⟩
  · rcases hafter.mem hmem with hsilent | ⟨σ', b, hmem', -, hmatch', -⟩
    · exact hsilent.elim
    · cases hmatch' with
      | connect => exact (hlast σ' _ hmem').1 rfl
  · rcases hafter.mem hmem with (⟨c', hui'⟩ | hclosed) | ⟨σ', b, hmem', -, hmatch', -⟩
    · rw [hui] at hui'
      cases hui'
    · exact hclosed
    · cases hmatch' with
      | ui _ _ => exact absurd rfl ((hlast σ' _ hmem').2 _)

/-- The name "ab" and the password "x", and the answer that is on its way. -/
def typedRegistration : List Act :=
  -- `R`, newline, the name, newline, the password, newline
  [.connect 5 [82, 10, 97, 98, 10, 120, 10], .ui 5 zeroed, .ui 5 zeroed, .serve 5 (whole 24)]

/-- What was typed into the form. -/
theorem typedRegistration_form {name pwd : CStr}
    (h : TypedForm (Lts.steps (next calm cleared) (boot pairDb) typedRegistration) 5 name pwd) :
    name = [97, 98] ∧ pwd = [120] := by
  obtain ⟨before, w, m, keys, after, htr, -, -, hplace, hform⟩ := h
  have hmem : (w, .ui 5 m) ∈ Lts.steps (next calm cleared) (boot pairDb) typedRegistration := by
    rw [htr]
    exact List.mem_append_right _ List.mem_cons_self
  have hmenu : ((([.connect 5 [82, 10, 97, 98, 10, 120, 10]] : List Act).foldl (next calm cleared)
      (boot pairDb)).process 5).place ≠ .registerIface := by decide +kernel
  have htyped : Process.form zeroed ((([.connect 5 [82, 10, 97, 98, 10, 120, 10], .ui 5 zeroed] : List Act).foldl
      (next calm cleared) (boot pairDb)).process 5).keys = some ([97, 98], [120], []) := by decide +kernel
  simp only [typedRegistration, Lts.steps, List.mem_cons, Prod.mk.injEq, reduceCtorEq, and_false, false_or,
    List.not_mem_nil, or_false, Act.ui.injEq, true_and] at hmem
  rcases hmem with ⟨rfl, -⟩ | ⟨rfl, rfl⟩
  · exact absurd hplace hmenu
  · have heq := htyped.symm.trans hform
    simp only [Option.some.injEq, Prod.mk.injEq] at heq
    exact ⟨heq.1.symm, heq.2.1.symm⟩

/-- Its row is that of user 3. -/
theorem typed_register_ab :
    ∃ name pwd, TypedForm (Lts.steps (next calm cleared) (boot pairDb) typedRegistration) 5 name pwd ∧
      (typedRegistration.foldl (next calm cleared) (boot pairDb)).server.db.selectUser 3 =
        some ⟨3, storedName name pwd, pwd⟩ := by
  have hr : ((lts calm cleared).startingIn fun w => w.server.db.Fits ∧ w.server.db.Numbered ∧
      w.server.db.Increasing).Run (fun w a => Regular w a ∧ Answered calm cleared w a)
      (Lts.steps (next calm cleared) (boot pairDb) typedRegistration)
      (typedRegistration.foldl (next calm cleared) (boot pairDb)) :=
    script_run calm cleared ⟨pairDb_fits, ⟨by decide, by decide⟩, by decide, by decide⟩ typedRegistration
      (by decide +kernel)
  have hfacts : ((typedRegistration.foldl (next calm cleared) (boot pairDb)).process 5).place = .registerSent ∧
      (typedRegistration.foldl (next calm cleared) (boot pairDb)).down 5 =
        (Msg.package (cleared []) (.registerSuccess 3)).frame := by decide +kernel
  generalize typedRegistration.foldl (next calm cleared) (boot pairDb) = w at hr hfacts ⊢
  obtain ⟨hplace, hdown⟩ := hfacts
  have ht : Complete (whole 4) (w.down 5) := by
    rw [hdown]
    decide
  have hread : Socket.read (whole 4) (w.down 5) =
      some ((Msg.package (cleared []) (.registerSuccess 3)).received, []) := by
    rw [hdown]
    decide
  have hload : loadInt (Msg.package (cleared []) (.registerSuccess 3)).received.buf 0 = .ok 3 := by decide
  obtain ⟨name, pwd, hform, hrow⟩ := typed_register calm_fits
    (hr.mono fun _ _ h => ⟨h.1, fun w' hact => (h.2 w' hact).registers⟩) hplace ht hread (by decide) hload (by decide)
  refine ⟨name, pwd, hform, hrow ?_⟩
  obtain ⟨rfl, rfl⟩ := typedRegistration_form hform
  decide

/-- **Friends have rows.** Whatever is typed, whoever is in a friend table is not its owner, and both are rows of the
table `user`. -/
theorem friends_registered (henv : env.Fits)
    (hr : ((lts env rest).startingIn fun w => w.server.db.Fits ∧ w.server.db.Numbered ∧ w.server.db.Closed).Run
      Regular tr w) : w.server.db.Closed := by
  obtain ⟨tr', σ, hrun, habs, -⟩ := simulated (J := fun db => db.Numbered ∧ db.Closed) (K := fun _ => True) henv
    (hr.mono fun _ _ h => ⟨h, fun _ _ => trivial⟩)
  rw [← habs.server]
  exact System.run_closed hrun

/-- Users 1 and 2, once they are friends. -/
theorem friends_registered_friends :
    (typedFriends.foldl (next calm cleared) (boot pairDb)).server.db.Closed ∧
      2 ∈ (typedFriends.foldl (next calm cleared) (boot pairDb)).server.db.friends 1 := by
  have hclosed : pairDb.Closed := by
    intro x y hy
    have hnone : pairDb.friends x = [] := by
      unfold Database.friends Database.table pairDb
      dsimp only
      split
      · split <;> rfl
      · rfl
    rw [hnone] at hy
    cases hy
  have hr : ((lts calm cleared).startingIn fun w => w.server.db.Fits ∧ w.server.db.Numbered ∧
      w.server.db.Closed).Run Regular (Lts.steps (next calm cleared) (boot pairDb) typedFriends)
      (typedFriends.foldl (next calm cleared) (boot pairDb)) :=
    script_run calm cleared ⟨pairDb_fits, ⟨by decide, by decide⟩, hclosed⟩ typedFriends (by decide +kernel)
  exact ⟨friends_registered calm_fits hr, by decide +kernel⟩

end Wire

end UnixNote
