import UnixNote.Chat.Register
import UnixNote.Proof.Database
import UnixNote.Proof.Replies

/-!
# Registrations that run at the same time

`register_action` inserts a row and then asks for the maximal id, in two statements. `own_id`: in every
run, a client that is told an id is told that of its own row just when its insert was the last one that
took effect before its select. `own_id_breaks` is a run of two registrations where another insert comes
in between. That no two clients are told the same id holds in every run: the table of an id is created
once.
-/

namespace UnixNote.Register

variable {ι : Type*} {user : ι → User} {s s' : Shared ι} {p p' : Threads ι Pc (Shared ι)} {i j : ι} {a : ι × Bool}
  {id : Int} {ok : Bool} {pc pc' : Pc} {q : Stmt} {db : Database} {tr : List (Threads ι Pc (Shared ι) × (ι × Bool))}

/-- Before any request, over a database that assigns increasing ids. -/
def Fresh (s : Shared ι) : Prop := s.db.Increasing ∧ s.author = [] ∧ s.down = false

/-! ## The schedule -/

/-- The step is an insert that takes effect. -/
def Inserts (user : ι → User) (p : Threads ι Pc (Shared ι)) (a : ι × Bool) : Prop :=
  p.pc a.1 = .start ∧ (send a.2 (.insertUser (user a.1).username (user a.1).password) p.shared.db).1 = .ok

/-- The last insert that took effect was that of `i`. -/
def LastInsert (user : ι → User) (tr : List (Threads ι Pc (Shared ι) × (ι × Bool))) (i : ι) : Prop :=
  ∃ before p a after, tr = before ++ (p, a) :: after ∧ a.1 = i ∧ Inserts user p a ∧
    ∀ x ∈ after, ¬ Inserts user x.1 x.2

/-- It was when the select of `i` went through. -/
def Undisturbed (user : ι → User) (tr : List (Threads ι Pc (Shared ι) × (ι × Bool))) (i : ι) : Prop :=
  ∃ before p after, tr = before ++ (p, (i, true)) :: after ∧ p.pc i = .inserted ∧ LastInsert user before i

theorem lastInsert_nil : ¬ LastInsert user [] i := by
  rintro ⟨before, p, a, after, htr, -⟩
  simp at htr

theorem lastInsert_concat :
    LastInsert user (tr ++ [(p, a)]) i ↔
      (Inserts user p a ∧ a.1 = i) ∨ (¬ Inserts user p a ∧ LastInsert user tr i) := by
  constructor
  · rintro ⟨before, p₁, a₁, after, htr, hi, hins, hafter⟩
    rcases List.eq_nil_or_concat after with rfl | ⟨after, last, rfl⟩
    · obtain ⟨rfl, heq⟩ := List.append_inj' htr rfl
      cases heq
      exact Or.inl ⟨hins, hi⟩
    · have hsplit : tr ++ [(p, a)] = (before ++ (p₁, a₁) :: after) ++ [last] := by rw [htr]; simp
      obtain ⟨rfl, heq⟩ := List.append_inj' hsplit rfl
      cases heq
      exact Or.inr ⟨hafter (p, a) (by simp), before, p₁, a₁, after, rfl, hi, hins, fun x hx => hafter x (by simp [hx])⟩
  · rintro (⟨hins, hi⟩ | ⟨hnot, before, p₁, a₁, after, rfl, hi, hins, hafter⟩)
    · exact ⟨tr, p, a, [], rfl, hi, hins, fun x hx => absurd hx List.not_mem_nil⟩
    · refine ⟨before, p₁, a₁, after ++ [(p, a)], by simp, hi, hins, fun x hx => ?_⟩
      rcases List.mem_append.1 hx with hx | hx
      · exact hafter x hx
      · rw [List.mem_singleton.1 hx]
        exact hnot

theorem undisturbed_nil : ¬ Undisturbed user [] i := by
  rintro ⟨before, p, after, htr, -⟩
  simp at htr

theorem undisturbed_concat :
    Undisturbed user (tr ++ [(p, a)]) i ↔
      (a = (i, true) ∧ p.pc i = .inserted ∧ LastInsert user tr i) ∨ Undisturbed user tr i := by
  constructor
  · rintro ⟨before, p₁, after, htr, hpc, hlast⟩
    rcases List.eq_nil_or_concat after with rfl | ⟨after, last, rfl⟩
    · obtain ⟨rfl, heq⟩ := List.append_inj' htr rfl
      cases heq
      exact Or.inl ⟨rfl, hpc, hlast⟩
    · have hsplit : tr ++ [(p, a)] = (before ++ (p₁, (i, true)) :: after) ++ [last] := by rw [htr]; simp
      obtain ⟨rfl, -⟩ := List.append_inj' hsplit rfl
      exact Or.inr ⟨before, p₁, after, rfl, hpc, hlast⟩
  · rintro (⟨rfl, hpc, hlast⟩ | ⟨before, p₁, after, rfl, hpc, hlast⟩)
    · exact ⟨tr, p, [], rfl, hpc, hlast⟩
    · exact ⟨before, p₁, after ++ [(p, a)], by simp, hpc, hlast⟩

/-! ## One statement -/

theorem send_cases (ok : Bool) (q : Stmt) (db : Database) :
    send ok q db = db.exec q ∨ ((send ok q db).1 = .error ∧ (send ok q db).2 = db) := by
  unfold send
  split
  · exact Or.inl rfl
  · exact Or.inr ⟨rfl, rfl⟩

/-- What every statement keeps, a statement that may be refused keeps. -/
theorem send_db {I : Database → Prop} (hexec : ∀ q db, I db → I (db.exec q).2) (h : I db) : I (send ok q db).2 := by
  rcases send_cases ok q db with heq | ⟨-, heq⟩
  · rw [heq]
    exact hexec q db h
  · rw [heq]
    exact h

/-- A statement that is no insert leaves the table `user` alone. -/
theorem send_user (hq : ∀ u p, q ≠ .insertUser u p) : (send ok q db).2.user = db.user := by
  rcases send_cases ok q db with heq | ⟨-, heq⟩
  · rw [heq]
    rcases Database.exec_user q db with ⟨hu, -⟩ | ⟨u, p, hins, -⟩
    · exact hu
    · exact absurd hins (hq u p)
  · rw [heq]

/-- The insert: refused, or the rows of the text are there and the last one is `i`'s. -/
theorem send_insert (u : User) (i : ι) :
    (send ok (.insertUser u.username u.password) db).1 ≠ .ok ∧ (send ok (.insertUser u.username u.password) db).2 = db ∨
      (send ok (.insertUser u.username u.password) db).1 = .ok ∧
        ∃ x rest, inserted db (send ok (.insertUser u.username u.password) db).2 i = (x, i) :: rest := by
  rcases send_cases ok (.insertUser u.username u.password) db with heq | ⟨herr, hdb⟩
  · rw [heq]
    rcases Database.exec_insertUser u.username u.password db with herr | ⟨hne, -, heq⟩
    · rw [herr]
      exact Or.inl ⟨Outcome.noConfusion, rfl⟩
    · rw [heq]
      refine Or.inr ⟨rfl, ?_⟩
      obtain ⟨new, hnew, hlen⟩ := Database.addRows_user (db.rows u.username u.password) db
      have hnil : new ≠ [] := by
        rintro rfl
        exact hne (List.eq_nil_of_length_eq_zero hlen.symm)
      obtain ⟨init, last, rfl⟩ := (List.eq_nil_or_concat new).resolve_left hnil
      refine ⟨last.id, (init.map fun row => (row.id, i)).reverse, ?_⟩
      unfold inserted
      rw [hnew, List.drop_left]
      simp
  · exact Or.inl ⟨by rw [herr]; exact Outcome.noConfusion, hdb⟩

/-- Nobody inserts anything where the table stays. -/
theorem inserted_same {db' : Database} (h : db'.user = db.user) : inserted db db' i = [] := by
  unfold inserted
  rw [h, List.drop_length]
  rfl

/-! ## The rows -/

/-- The rows since the start are those of the registrations, in their order; a row whose fields denote
themselves is what its request carried. -/
structure Rows (user : ι → User) (s : Shared ι) : Prop where
  increasing : s.db.Increasing
  ids : ∃ old, s.db.user.map User.id = old ++ (s.author.map Prod.fst).reverse
  row : ∀ x i, (x, i) ∈ s.author → Sql.Verbatim (user i).username (user i).password →
    s.db.selectUser x = some ⟨x, (user i).username, (user i).password⟩

/-- The last row comes first. -/
theorem Rows.sorted (h : Rows user s) : (s.author.map Prod.fst).Pairwise (· > ·) := by
  obtain ⟨old, hids⟩ := h.ids
  have hall : (s.db.user.map User.id).Pairwise (· < ·) := List.pairwise_map.2 h.increasing.sorted
  rw [hids, List.pairwise_append] at hall
  exact List.pairwise_reverse.1 hall.2.1

/-- The row with the greatest id is that of `i` just when the last insert was. -/
theorem Rows.max_iff (h : Rows user s) {row : User} (hmax : s.db.maxUser = some row) :
    (row.id, i) ∈ s.author ↔ ∃ x rest, s.author = (x, i) :: rest := by
  obtain ⟨old, hids⟩ := h.ids
  have hsorted := h.sorted
  cases hauthor : s.author with
  | nil => simp
  | cons y rest =>
    obtain ⟨y, j⟩ := y
    rw [hauthor] at hids hsorted
    rw [List.map_cons, List.reverse_cons, ← List.append_assoc] at hids
    -- the row of the head is the last one
    obtain ⟨us, u, hu, -, hy⟩ := List.map_eq_append_iff.1 hids
    obtain ⟨u, rfl, rfl⟩ := List.map_eq_singleton_iff.1 hy
    rw [Database.maxUser_last h.increasing hu] at hmax
    cases hmax
    constructor
    · intro hmem
      rcases List.mem_cons.1 hmem with heq | hmem
      · cases heq
        exact ⟨_, rest, rfl⟩
      · have hlt := (List.pairwise_cons.1 hsorted).1 _ (List.mem_map_of_mem (f := Prod.fst) hmem)
        exact absurd hlt (Int.lt_irrefl _)
    · rintro ⟨x, rest', heq⟩
      cases heq
      exact List.mem_cons_self

/-- A statement that is no insert. -/
theorem Rows.send (h : Rows user s) (hq : ∀ u p, q ≠ .insertUser u p) :
    Rows user { s with db := (Register.send ok q s.db).2 } where
  increasing := send_db Database.exec_increasing h.increasing
  ids := by
    show ∃ old, (Register.send ok q s.db).2.user.map User.id = _
    rw [send_user hq]
    exact h.ids
  row x i hmem hv :=
    send_db (I := fun db => db.selectUser x = some _) (fun q db => Database.exec_selectUser q db) (h.row x i hmem hv)

/-- **An insert** of registration `i`. -/
theorem Rows.insert (h : Rows user s) (i : ι) (ok : Bool) :
    Rows user { s with
      db := (Register.send ok (.insertUser (user i).username (user i).password) s.db).2
      author := inserted s.db (Register.send ok (.insertUser (user i).username (user i).password) s.db).2 i ++
        s.author } where
  increasing := send_db Database.exec_increasing h.increasing
  ids := by
    obtain ⟨old, hids⟩ := h.ids
    obtain ⟨new, hnew⟩ : ∃ new, (Register.send ok (.insertUser (user i).username (user i).password) s.db).2.user =
        s.db.user ++ new := by
      rcases send_cases ok (.insertUser (user i).username (user i).password) s.db with heq | ⟨-, heq⟩
      · rw [heq]
        rcases Database.exec_user (.insertUser (user i).username (user i).password) s.db with ⟨hu, -⟩ | ⟨u, p, -, heq⟩
        · exact ⟨[], by rw [hu, List.append_nil]⟩
        · rw [heq]
          obtain ⟨new, hnew, -⟩ := Database.addRows_user (s.db.rows u p) s.db
          exact ⟨new, hnew⟩
      · exact ⟨[], by rw [heq, List.append_nil]⟩
    refine ⟨old, ?_⟩
    unfold inserted
    dsimp only
    rw [hnew, List.drop_left, List.map_append, hids]
    simp [Function.comp_def]
  row x j hmem hv := by
    rcases List.mem_append.1 hmem with hmem | hmem
    · rcases send_cases ok (.insertUser (user i).username (user i).password) s.db with heq | ⟨-, heq⟩
      · dsimp only
        rw [heq] at hmem ⊢
        obtain rfl : j = i := by
          obtain ⟨row, -, heq⟩ := List.mem_map.1 (List.mem_reverse.1 hmem)
          exact (Prod.mk.inj heq).2.symm
        -- the fields denote themselves, so the text has one row
        rcases Database.exec_insertUser (user j).username (user j).password s.db with herr | ⟨-, -, hrun⟩
        · rw [herr, inserted_same rfl] at hmem
          cases hmem
        · have hsel := Database.selectUser_insert h.increasing.below hv (by rw [hrun])
          rw [hrun, Database.rows_verbatim hv] at hmem
          unfold inserted at hmem
          rw [List.foldl_cons, List.foldl_nil, Database.addRow, List.drop_left] at hmem
          obtain ⟨rfl, -⟩ := Prod.mk.inj (List.mem_singleton.1 hmem)
          exact hsel
      · rw [heq, inserted_same rfl] at hmem
        cases hmem
    · exact send_db (I := fun db => db.selectUser x = some _) (fun q db => Database.exec_selectUser q db)
        (h.row x j hmem hv)

/-! ## One step -/

/-- What a step of registration `i` is. -/
inductive Moves (user : ι → User) (i : ι) (ok : Bool) (s : Shared ι) : Pc → Pc → Shared ι → Prop
  | insert : Moves user i ok s .start .inserted { s with
      db := (send ok (.insertUser (user i).username (user i).password) s.db).2
      author := inserted s.db (send ok (.insertUser (user i).username (user i).password) s.db).2 i ++ s.author }
  | empty : ok = true → s.db.maxUser = none → Moves user i ok s .inserted .inserted { s with down := true }
  | select {row : User} : ok = true → s.db.maxUser = some row → Moves user i ok s .inserted (.selected row.id) s
  | refused : ok = false → Moves user i ok s .inserted (.answering (-1)) s
  | create {id : Int} : (s.db.exec (.createTable id)).1 = .ok →
      Moves user i ok s (.selected id) (.answering id) { s with db := (s.db.exec (.createTable id)).2 }
  | failed {id : Int} : Moves user i ok s (.selected id) (.answering (-1)) s
  | answer {id : Int} : Moves user i ok s (.answering id) (.told id) s

theorem step_moves (hstep : registerStep user i ok pc s = some (pc', s')) : Moves user i ok s pc pc' s' := by
  unfold registerStep at hstep
  split at hstep
  · cases hstep
  cases pc with
  | start =>
    cases hstep
    exact .insert
  | inserted =>
    cases ok with
    | true =>
      have hselect : send true .selectMaxUser s.db = (.ok, s.db) := rfl
      dsimp only at hstep
      rw [hselect, if_pos rfl] at hstep
      cases hmax : s.db.maxUser with
      | none =>
        rw [hmax] at hstep
        cases hstep
        exact .empty rfl hmax
      | some row =>
        rw [hmax] at hstep
        cases hstep
        exact .select rfl hmax
    | false =>
      cases hstep
      exact .refused rfl
  | selected x =>
    dsimp only at hstep
    have hcreate : (s.db.exec (.createTable x)).1 ≠ .ok → (s.db.exec (.createTable x)).2 = s.db := by
      simp only [Database.exec]
      split
      · exact fun h => absurd rfl h
      · exact fun _ => rfl
    cases ok with
    | true =>
      have hsend : send true (.createTable x) s.db = s.db.exec (.createTable x) := rfl
      rw [hsend] at hstep
      split at hstep
      · rename_i hok
        cases hstep
        exact .create hok
      · rename_i hok
        rw [hcreate hok] at hstep
        cases hstep
        exact .failed
    | false =>
      cases hstep
      exact .failed
  | answering x =>
    cases hstep
    exact .answer
  | told x => cases hstep

/-! ## One registration alone -/

section Solo

open Server

variable {s₀ s₁ s₂ : Server} {e : Event}

/-- The first statement is the one that the handler sends. -/
theorem query_send (env : Env) (q : Stmt) (s : Server) : (s.query env q).db = (send (env.sql s.log q) q s.db).2 := rfl

theorem mem_news (h : s₀.log <+: s₁.log) (hend : (s₁.emit e).log <+: s₂.log) : e ∈ s₀.news s₂ := by
  obtain ⟨evs, hl⟩ := h
  obtain ⟨evs', hl'⟩ := hend
  have hlog : s₂.log = s₀.log ++ (evs ++ e :: evs') := by
    rw [← hl', emit_log, ← hl, List.append_assoc, List.append_assoc, List.singleton_append]
  rw [news_of_log hlog]
  exact List.mem_append_right _ List.mem_cons_self

/-- `register_action` ends with the id for its client, and leaves the database as it is. -/
theorem registerReply_told (env : Env) (confd id : Int) (conn : Option Nat) (h : s₀.log <+: s₁.log) :
    (s₁.registerReply env confd id conn).db = s₁.db ∧
      ∃ ok, .write confd (.registerSuccess id) ok ∈ s₀.news (s₁.registerReply env confd id conn) := by
  have hend : (s₁.writeServer env confd (.registerSuccess id)).1.log <+:
      (s₁.registerReply env confd id conn).log := ⟨_, (mysqlEnd_log _ _).symm⟩
  exact ⟨cascade_writeServer.db_eq, _, mem_news h ((writeServer_begins env confd (.registerSuccess id) s₁).trans hend)⟩

/-- The insert. -/
theorem step_start (user : ι → User) (i : ι) (ok : Bool) (db : Database) (author : List (Int × ι)) :
    ∃ author', registerStep user i ok .start ⟨db, author, false⟩ =
      some (.inserted, ⟨(send ok (.insertUser (user i).username (user i).password) db).2, author', false⟩) :=
  ⟨_, rfl⟩

/-- The select, with and without a row. -/
theorem step_select (user : ι → User) (i : ι) (db : Database) (author : List (Int × ι)) :
    registerStep user i true .inserted ⟨db, author, false⟩ =
      match db.maxUser with
      | none => some (.inserted, ⟨db, author, true⟩)
      | some row => some (.selected row.id, ⟨db, author, false⟩) := rfl

/-- The table. -/
theorem step_create (user : ι → User) (i : ι) (ok : Bool) (x : Int) (db : Database) (author : List (Int × ι)) :
    registerStep user i ok (.selected x) ⟨db, author, false⟩ =
      some (.answering (if (send ok (.createTable x) db).1 = .ok then x else -1),
        ⟨(send ok (.createTable x) db).2, author, false⟩) := by
  unfold registerStep
  dsimp only
  rw [if_neg Bool.false_ne_true]
  split
  · rfl
  · rfl

/-- **A registration that is not interrupted** is the handler `register_action`: with the answers that
the database gives there it takes the same steps, and tells its client the same id. -/
theorem registerAction_solo (env : Env) (confd : Int) (u : User) (s : Server) :
    ∃ pc sh, (program fun _ : Unit => u).Solo () (.start, ⟨s.db, [], false⟩) (pc, sh) ∧
      sh.db = (s.registerAction env confd u).db ∧
      ((sh.down = true ∧ .crash ∈ s.news (s.registerAction env confd u)) ∨
        ∃ id ok, pc = .told id ∧ .write confd (.registerSuccess id) ok ∈ s.news (s.registerAction env confd u)) := by
  have hext : ∀ (s : Server) (q : Stmt), s.log <+: (s.query env q).log := fun _ _ => ⟨_, rfl⟩
  have hrow : ∀ (s : Server) (c : Nat), s.log <+: (s.emit (.fetchRow (some c))).log := fun _ _ => ⟨_, rfl⟩
  have h₁ := hext s (.insertUser u.username u.password)
  have hdb₁ := query_send env (.insertUser u.username u.password) s
  obtain ⟨author, hstart⟩ :=
    step_start (fun _ : Unit => u) () (env.sql s.log (.insertUser u.username u.password)) s.db []
  rw [← hdb₁] at hstart
  unfold registerAction mysqlGo
  dsimp only
  generalize s.query env (.insertUser u.username u.password) = s₁ at h₁ hstart ⊢
  have h₂ := h₁.trans (hext s₁ .selectMaxUser)
  have hdb₂ : (s₁.query env .selectMaxUser).db = s₁.db := by
    rw [query_send]
    cases env.sql s₁.log .selectMaxUser <;> rfl
  cases hsel : env.sql s₁.log .selectMaxUser with
  | false =>
    have hans : (s₁.answer env .selectMaxUser).1 ≠ .ok := by
      unfold answer
      rw [hsel]
      exact Outcome.noConfusion
    obtain ⟨hdb, ok, hm⟩ := registerReply_told env confd (-1) none h₂
    rw [if_neg hans]
    refine ⟨.told (-1), ⟨s₁.db, author, false⟩, ?_, (hdb.trans hdb₂).symm, Or.inr ⟨-1, ok, rfl, hm⟩⟩
    exact .head _ hstart (.head false rfl (.last false rfl))
  | true =>
    have hans : (s₁.answer env .selectMaxUser).1 = .ok := by
      unfold answer
      rw [hsel]
      rfl
    rw [if_pos hans]
    dsimp only
    have h₃ := h₂.trans (hrow _ s₁.log.length)
    have hdb₃ : ((s₁.query env .selectMaxUser).emit (.fetchRow (some s₁.log.length))).db = s₁.db := hdb₂
    generalize (s₁.query env .selectMaxUser).emit (.fetchRow (some s₁.log.length)) = s₃ at h₃ hdb₃ ⊢
    have hselect := step_select (fun _ : Unit => u) () s₁.db author
    rw [hdb₃]
    cases hmax : s₁.db.maxUser with
    | none =>
      -- no row at all
      rw [hmax] at hselect
      refine ⟨.inserted, ⟨s₁.db, author, true⟩, ?_, hdb₃.symm, Or.inl ⟨rfl, mem_news h₃ (List.prefix_refl _)⟩⟩
      exact .head _ hstart (.last true hselect)
    | some row =>
      rw [hmax] at hselect
      have h₄ := h₃.trans (hext s₃ (.createTable row.id))
      have hdb₄ := query_send env (.createTable row.id) s₃
      have hcreate := step_create (fun _ : Unit => u) () (env.sql s₃.log (.createTable row.id)) row.id s₁.db author
      have hanswer : s₃.answer env (.createTable row.id) =
          send (env.sql s₃.log (.createTable row.id)) (.createTable row.id) s₁.db := by
        rw [← hdb₃]
        rfl
      rw [← hanswer] at hcreate
      refine ⟨.told (if (s₃.answer env (.createTable row.id)).1 = .ok then row.id else -1),
        ⟨(s₃.query env (.createTable row.id)).db, author, false⟩, ?_, ?_⟩
      · exact .head _ hstart (.head true hselect (.head _ hcreate (.last true rfl)))
      · dsimp only
        by_cases hok : (s₃.answer env (.createTable row.id)).1 = .ok
        · rw [if_pos hok, if_pos hok]
          obtain ⟨hdb, ok, hm⟩ := registerReply_told env confd row.id (some s₃.log.length) h₄
          exact ⟨hdb.symm, Or.inr ⟨row.id, ok, rfl, hm⟩⟩
        · rw [if_neg hok, if_neg hok]
          obtain ⟨hdb, ok, hm⟩ := registerReply_told env confd (-1) (some s₁.log.length) h₄
          exact ⟨hdb.symm, Or.inr ⟨-1, ok, rfl, hm⟩⟩

end Solo

/-! ## Runs -/

/-- What is known of registration `i` where it stands: before its select goes through it is not
`Undisturbed`, afterwards it is just when the id it has is that of its row. -/
def Knows (user : ι → User) (tr : List (Threads ι Pc (Shared ι) × (ι × Bool))) (i : ι) (pc : Pc) (s : Shared ι) :
    Prop :=
  match pc with
  | .start => ¬ Undisturbed user tr i
  | .inserted => ¬ Undisturbed user tr i
  | .selected id => (id, i) ∈ s.author ↔ Undisturbed user tr i
  | .answering id => 0 ≤ id → ((id, i) ∈ s.author ↔ Undisturbed user tr i) ∧ (s.db.table id).isSome
  | .told id => 0 ≤ id → ((id, i) ∈ s.author ↔ Undisturbed user tr i) ∧ (s.db.table id).isSome

theorem Knows.keep {tr' : List (Threads ι Pc (Shared ι) × (ι × Bool))} (h : Knows user tr i pc s)
    (hsame : Undisturbed user tr' i ↔ Undisturbed user tr i) (hauthor : ∀ x, (x, i) ∈ s'.author ↔ (x, i) ∈ s.author)
    (htable : ∀ id, (s.db.table id).isSome → (s'.db.table id).isSome) : Knows user tr' i pc s' := by
  cases pc with
  | start => exact mt hsame.1 h
  | inserted => exact mt hsame.1 h
  | selected id => exact (hauthor id).trans (Iff.trans h hsame.symm)
  | answering id => exact fun hid => ⟨(hauthor id).trans ((h hid).1.trans hsame.symm), htable id (h hid).2⟩
  | told id => exact fun hid => ⟨(hauthor id).trans ((h hid).1.trans hsame.symm), htable id (h hid).2⟩

/-- The id has come back from `create table`. -/
def Answers (id : Int) (pc : Pc) : Prop := pc = .answering id ∨ pc = .told id

theorem Knows.answers (h : Knows user tr i pc s) (ha : Answers id pc) (hid : 0 ≤ id) :
    ((id, i) ∈ s.author ↔ Undisturbed user tr i) ∧ (s.db.table id).isSome := by
  rcases ha with rfl | rfl
  · exact h hid
  · exact h hid

namespace Moves

theorem rows (hm : Moves user i ok s pc pc' s') (h : Rows user s) : Rows user s' := by
  cases hm with
  | insert => exact h.insert i ok
  | create hok => exact @Rows.send _ user s true (.createTable _) h nofun
  | empty => exact ⟨h.increasing, h.ids, h.row⟩
  | _ => exact h

theorem table (hm : Moves user i ok s pc pc' s') (h : (s.db.table id).isSome) : (s'.db.table id).isSome := by
  cases hm with
  | insert => exact send_db (I := fun db => (db.table id).isSome) (fun q db => Database.exec_table q db) h
  | create hok => exact Database.exec_table _ _ h
  | _ => exact h

/-- Nobody inserts for another. -/
theorem author {x : Int} (hm : Moves user i ok s pc pc' s') (hj : j ≠ i) : (x, j) ∈ s'.author ↔ (x, j) ∈ s.author := by
  cases hm with
  | insert =>
    refine ⟨fun hmem => (List.mem_append.1 hmem).resolve_left fun hnew => hj ?_, List.mem_append_right _⟩
    obtain ⟨row, -, heq⟩ := List.mem_map.1 (List.mem_reverse.1 hnew)
    exact (Prod.mk.inj heq).2.symm
  | _ => exact Iff.rfl

/-- Only the insert adds to the rows. -/
theorem author_same (hm : Moves user i ok s pc pc' s') (hpc : pc ≠ .start) : s'.author = s.author := by
  cases hm with
  | insert => exact absurd rfl hpc
  | _ => rfl

end Moves

/-- The run so far: its rows, whose insert was the last, and what each registration knows. -/
structure History (user : ι → User) (tr : List (Threads ι Pc (Shared ι) × (ι × Bool)))
    (p : Threads ι Pc (Shared ι)) : Prop where
  rows : Rows user p.shared
  last : ∀ i, LastInsert user tr i ↔ ∃ x rest, p.shared.author = (x, i) :: rest
  knows : ∀ i, Knows user tr i (p.pc i) p.shared
  distinct : ∀ i j id, 0 ≤ id → Answers id (p.pc i) → Answers id (p.pc j) → i = j

theorem History.start (hpc : p.pc = fun _ => .start) (h : Fresh p.shared) : History user [] p where
  rows := by
    refine ⟨h.1, ⟨p.shared.db.user.map User.id, ?_⟩, ?_⟩
    · rw [h.2.1]
      exact (List.append_nil _).symm
    · rw [h.2.1]
      exact fun _ _ hmem => absurd hmem List.not_mem_nil
  last i := by
    rw [h.2.1]
    refine ⟨fun hlast => absurd hlast lastInsert_nil, ?_⟩
    rintro ⟨x, rest, heq⟩
    cases heq
  knows i := by
    rw [hpc]
    exact undisturbed_nil
  distinct i j id _ hi _ := by
    rw [hpc] at hi
    rcases hi with hi | hi <;> cases hi

/-- Whose insert was the last, after one more step. -/
theorem History.last_step (h : History user tr p) (hm : Moves user i ok p.shared (p.pc i) pc' s') (j : ι) :
    LastInsert user (tr ++ [(p, (i, ok))]) j ↔ ∃ x rest, s'.author = (x, j) :: rest := by
  rw [lastInsert_concat, h.last]
  by_cases hpc : p.pc i = .start
  · rw [hpc] at hm
    cases hm
    rcases @send_insert _ ok p.shared.db (user i) i with ⟨hno, hdb⟩ | ⟨hok, x, rest, hnew⟩
    · have hnot : ¬ Inserts user p (i, ok) := fun hins => hno hins.2
      simp only [hdb, inserted_same, List.nil_append, hnot, false_and, not_false_eq_true, true_and, false_or]
    · have hins : Inserts user p (i, ok) := ⟨hpc, hok⟩
      simp only [hnew, hins, true_and, not_true_eq_false, false_and, or_false]
      constructor
      · rintro rfl
        exact ⟨x, rest ++ p.shared.author, rfl⟩
      · rintro ⟨y, rest', heq⟩
        cases heq
        rfl
  · have hnot : ¬ Inserts user p (i, ok) := fun hins => hpc hins.1
    rw [hm.author_same hpc]
    simp only [hnot, false_and, not_false_eq_true, true_and, false_or]

/-- What the registration that takes the step knows then. -/
theorem History.knows_step (h : History user tr p) (hm : Moves user i ok p.shared (p.pc i) pc' s') :
    Knows user (tr ++ [(p, (i, ok))]) i pc' s' := by
  have hk := h.knows i
  have hsame : p.pc i ≠ .inserted → (Undisturbed user (tr ++ [(p, (i, ok))]) i ↔ Undisturbed user tr i) := by
    intro hpc
    rw [undisturbed_concat]
    exact or_iff_right fun hnow => hpc hnow.2.1
  -- the select, if it goes through, finds who was last
  have hnow : p.pc i = .inserted → ok = true → (Undisturbed user (tr ++ [(p, (i, ok))]) i ↔
      ∃ x rest, p.shared.author = (x, i) :: rest) := by
    intro hpc hok
    rw [hpc] at hk
    rw [undisturbed_concat, h.last]
    refine (or_iff_left hk).trans ⟨fun hl => hl.2.2, fun hl => ⟨by rw [hok], hpc, hl⟩⟩
  generalize hpc : p.pc i = pc at *
  cases hm with
  | insert => exact mt (hsame nofun).1 hk
  | empty hok hmax =>
    refine mt (hnow rfl hok).1 ?_
    rintro ⟨x, rest, hauthor⟩
    obtain ⟨old, hids⟩ := h.rows.ids
    rw [Database.maxUser_none h.rows.increasing hmax, hauthor] at hids
    simp at hids
  | select hok hmax => exact (h.rows.max_iff hmax).trans (hnow rfl hok).symm
  | refused hok => exact fun hid => absurd hid (by decide)
  | create hok => exact fun _ => ⟨Iff.trans hk (hsame nofun).symm, Database.exec_createTable hok⟩
  | failed => exact fun hid => absurd hid (by decide)
  | answer => exact fun hid => ⟨(hk hid).1.trans (hsame nofun).symm, (hk hid).2⟩

/-- Nobody else has the id that comes back. -/
theorem History.distinct_step (h : History user tr p) (hm : Moves user i ok p.shared (p.pc i) pc' s') (hid : 0 ≤ id)
    (ha : Answers id pc') (hj : Answers id (p.pc j)) : i = j := by
  generalize hpc : p.pc i = pc at hm
  cases hm with
  | create hok =>
    obtain rfl : _ = id := by
      rcases ha with heq | heq
      · exact Pc.answering.inj heq
      · cases heq
    -- the table was not there
    have hnone := (h.knows j).answers hj hid
    simp only [Database.exec] at hok
    split at hok
    · rename_i hnew
      rw [hnew.2] at hnone
      exact absurd hnone.2 Bool.false_ne_true
    · cases hok
  | answer =>
    obtain rfl : _ = id := by
      rcases ha with heq | heq
      · cases heq
      · exact Pc.told.inj heq
    exact h.distinct i j _ hid (Or.inl hpc) hj
  | refused =>
    rcases ha with heq | heq
    · cases heq
      exact absurd hid (by decide)
    · cases heq
  | failed =>
    rcases ha with heq | heq
    · cases heq
      exact absurd hid (by decide)
    · cases heq
  | _ => rcases ha with heq | heq <;> cases heq

variable [DecidableEq ι]

/-- **One step.** -/
theorem History.step (h : History user tr p) (hnext : (program user).next p a = some p') :
    History user (tr ++ [(p, a)]) p' := by
  obtain ⟨i, ok⟩ := a
  obtain ⟨pc', s', hstep, rfl, hpc, hothers⟩ := Program.next_some hnext
  have hm := step_moves hstep
  refine ⟨hm.rows h.rows, h.last_step hm, fun j => ?_, fun j k id hid hj hk => ?_⟩
  · by_cases hj : j = i
    · subst hj
      rw [hpc]
      exact h.knows_step hm
    · rw [hothers j hj]
      refine (h.knows j).keep ?_ (fun x => hm.author hj) fun id => hm.table
      rw [undisturbed_concat]
      exact or_iff_right fun hnow => hj (congrArg Prod.fst hnow.1).symm
  · by_cases hji : j = i <;> by_cases hki : k = i
    · rw [hji, hki]
    · subst hji
      rw [hpc] at hj
      rw [hothers k hki] at hk
      exact h.distinct_step hm hid hj hk
    · subst hki
      rw [hpc] at hk
      rw [hothers j hji] at hj
      exact (h.distinct_step hm hid hk hj).symm
    · rw [hothers j hji] at hj
      rw [hothers k hki] at hk
      exact h.distinct j k id hid hj hk

theorem run_history (hr : ((program user).lts Fresh).Run (fun _ _ => True) tr p) : History user tr p := by
  refine hr.history (I := History user) ?_ ?_
  · rintro p ⟨hpc, hfresh⟩
    exact History.start hpc hfresh
  · rintro tr p a p' h - hnext
    exact h.step hnext

/-- **Registration tells each client its own id** just when nobody disturbs it. In every run, for a client that was
told an id and whose fields denote themselves: the id is that of the row that this request inserted, with its user
name and its password, the friend table exists and nobody else was told the same, if and only if the select found the
insert of this request to be the last one that took effect. -/
theorem own_id (hr : ((program user).lts Fresh).Run (fun _ _ => True) tr p)
    (hv : Sql.Verbatim (user i).username (user i).password) (htold : p.pc i = .told id) (hid : 0 ≤ id) :
    ((id, i) ∈ p.shared.author ∧
      p.shared.db.selectUser id = some ⟨id, (user i).username, (user i).password⟩ ∧
      (p.shared.db.table id).isSome ∧ ∀ j, j ≠ i → p.pc j ≠ .told id) ↔ Undisturbed user tr i := by
  have h := run_history hr
  obtain ⟨hiff, htable⟩ := (h.knows i).answers (Or.inr htold) hid
  constructor
  · rintro ⟨hmem, -⟩
    exact hiff.1 hmem
  · intro hund
    have hmem := hiff.2 hund
    refine ⟨hmem, h.rows.row id i hmem hv, htable, fun j hne hj => ?_⟩
    exact hne (h.distinct j i id hid (Or.inr hj) (Or.inr htold))

/-! ## Two registrations -/

/-- Request `i` has a user name of its own. -/
def named (i : Nat) : User := ⟨0, [UInt8.ofNat (97 + i)], []⟩

/-- Nobody has asked yet. -/
def idle (db : Database) : Threads Nat Pc (Shared Nat) := ⟨fun _ => .start, ⟨db, [], false⟩⟩

/-- A database without users. -/
def emptyDb : Database where
  user := []
  nextId := 1
  tables _ := none

/-- The steps of the requests `is`, when no statement is refused. -/
def steps (is : List Nat) : List (Threads Nat Pc (Shared Nat) × (Nat × Bool)) :=
  Lts.steps (program named).act (idle emptyDb) (is.map fun i => (i, true))

/-- What they come to. -/
def after (is : List Nat) : Threads Nat Pc (Shared Nat) :=
  (is.map fun i => (i, true)).foldl (program named).act (idle emptyDb)

theorem run_after (is : List Nat) (h : Lts.Script (fun p a => ((program named).next p a).isSome) (program named).act
      (idle emptyDb) (is.map fun i => (i, true))) :
    ((program named).lts Fresh).Run (fun _ _ => True) (steps is) (after is) := by
  have hinc : emptyDb.Increasing := ⟨List.Pairwise.nil, fun _ hu => absurd hu List.not_mem_nil⟩
  exact Program.run_script (fun _ _ => trivial) (.start ⟨rfl, hinc, rfl, rfl⟩) _ h

/-- The second client gets its own id, though the first registration is still going on. -/
theorem own_id_second :
    (after [0, 0, 1, 0, 1, 0, 1, 1]).shared.db.selectUser 2 = some ⟨2, [98], []⟩ := by
  have hrun := run_after [0, 0, 1, 0, 1, 0, 1, 1] (by decide)
  have hlast : LastInsert named (steps [0, 0, 1, 0]) 1 := by
    refine ⟨steps [0, 0], after [0, 0], (1, true), [(after [0, 0, 1], (0, true))], rfl, rfl, ⟨rfl, by decide⟩, ?_⟩
    intro x hx
    obtain rfl := List.mem_singleton.1 hx
    exact fun hins => Pc.noConfusion hins.1
  have hund : Undisturbed named (steps [0, 0, 1, 0, 1, 0, 1, 1]) 1 :=
    ⟨steps [0, 0, 1, 0], after [0, 0, 1, 0], _, rfl, rfl, hlast⟩
  have htold : (after [0, 0, 1, 0, 1, 0, 1, 1]).pc 1 = .told 2 := rfl
  exact ((own_id hrun (by decide) htold (by decide)).2 hund).2.1

/-- **A client is told the id of another user**: both rows are inserted before the first request asks
for the maximal id. -/
theorem own_id_breaks :
    ∃ tr, ((program named).lts Fresh).Run (fun _ _ => True) tr (after [0, 1, 0, 0, 0]) ∧
      (after [0, 1, 0, 0, 0]).pc 0 = .told 2 ∧ (2, 0) ∉ (after [0, 1, 0, 0, 0]).shared.author ∧
      (after [0, 1, 0, 0, 0]).shared.db.selectUser 2 = some ⟨2, [98], []⟩ :=
  ⟨_, run_after [0, 1, 0, 0, 0] (by decide), rfl, by decide, rfl⟩

end UnixNote.Register
