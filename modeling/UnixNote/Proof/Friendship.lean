import UnixNote.Proof.Messages

/-!
# Symmetry of the friend tables

`allow_addf_action` makes two inserts, without a transaction around them.
`friendship_symmetric`: in every run where the two take effect together or not at all
(`Balanced`), the tables stay symmetric, and an approval reported as a database
failure has changed none. `friendship_breaks` is a run where one takes effect alone.
-/

namespace UnixNote

open Server

variable {env : Env} {s s' : Server} {db : Database} {a b x y src dst : Int} {log : List Event}

/-! ## One insert -/

/-- `b` is in table `id<a>` if and only if `a` is in table `id<b>`. -/
def Database.Symmetric (db : Database) : Prop := ∀ a b, b ∈ db.friends a ↔ a ∈ db.friends b

/-- The table is there and does not have the row yet. -/
def Database.Lacks (db : Database) (a b : Int) : Prop := ∃ t, db.table a = some t ∧ b ∉ t.rows

/-- The insert of `b` into `id<a>` takes effect: it is not refused, and nothing is in its way. -/
def Takes (env : Env) (log : List Event) (db : Database) (a b : Int) : Prop :=
  env.sql log (.insertFriend a b) = true ∧ db.Lacks a b

theorem FriendTable.insert_none {t : FriendTable} (h : t.insert b = none) : b ∈ t.rows := by
  unfold FriendTable.insert at h
  by_contra hb
  rw [dif_neg hb] at h
  cases h

theorem FriendTable.insert_rows {t t' : FriendTable} (h : t.insert b = some t') :
    b ∉ t.rows ∧ t'.rows = t.rows ++ [b] := by
  unfold FriendTable.insert at h
  by_cases hb : b ∈ t.rows
  · rw [dif_pos hb] at h
    cases h
  · rw [dif_neg hb] at h
    cases h
    exact ⟨hb, rfl⟩

/-- The tables after one of them was replaced. -/
theorem Database.table_setTable {t : FriendTable} (ha : 0 ≤ a) :
    (db.setTable a t).table x = if x = a then some t else db.table x := by
  unfold Database.table Database.setTable
  by_cases hx : x = a
  · simp [hx, ha]
  · rw [if_neg hx]
    by_cases hpos : 0 ≤ x
    · have hne : x.toNat ≠ a.toNat := by omega
      simp [hpos, hne]
    · simp [hpos]

theorem Database.friends_setTable {t : FriendTable} (ha : 0 ≤ a) :
    (db.setTable a t).friends x = if x = a then t.rows else db.friends x := by
  unfold Database.friends
  rw [Database.table_setTable ha]
  split <;> rfl

theorem Database.table_nonneg {t : FriendTable} (h : db.table a = some t) : 0 ≤ a := by
  unfold Database.table at h
  split at h
  · assumption
  · cases h

theorem Database.friends_some {t : FriendTable} (h : db.table a = some t) : db.friends a = t.rows := by
  unfold Database.friends
  rw [h]
  rfl

/-- **An insert** puts a row into a table that lacks it. -/
theorem Database.exec_insert (h : db.Lacks a b) :
    (db.exec (.insertFriend a b)).1 = .ok ∧
      ∀ x y, y ∈ (db.exec (.insertFriend a b)).2.friends x ↔ y ∈ db.friends x ∨ (x = a ∧ y = b) := by
  obtain ⟨t, ht, hb⟩ := h
  cases hins : t.insert b with
  | none => exact absurd (FriendTable.insert_none hins) hb
  | some t' =>
    have hrows := (FriendTable.insert_rows hins).2
    have hexec : db.exec (.insertFriend a b) = (.ok, db.setTable a t') := by
      simp only [Database.exec, ht, hins]
    rw [hexec]
    refine ⟨rfl, fun x y => ?_⟩
    rw [Database.friends_setTable (Database.table_nonneg ht)]
    by_cases hx : x = a
    · rw [if_pos hx, hrows, hx, Database.friends_some ht, List.mem_append, List.mem_singleton]
      simp
    · rw [if_neg hx]
      simp [hx]

/-- An insert into a table that is missing or has the row fails and changes nothing. -/
theorem Database.exec_insert_fails (h : ¬ db.Lacks a b) :
    (db.exec (.insertFriend a b)).1 ≠ .ok ∧ (db.exec (.insertFriend a b)).2 = db := by
  cases ht : db.table a with
  | none =>
    have hexec : db.exec (.insertFriend a b) = (.error, db) := by simp only [Database.exec, ht]
    rw [hexec]
    exact ⟨Outcome.noConfusion, rfl⟩
  | some t =>
    cases hins : t.insert b with
    | none =>
      have hexec : db.exec (.insertFriend a b) = (.duplicate, db) := by simp only [Database.exec, ht, hins]
      rw [hexec]
      exact ⟨Outcome.noConfusion, rfl⟩
    | some t' => exact absurd ⟨t, ht, (FriendTable.insert_rows hins).1⟩ h

/-- The insert, sent by a handler. -/
theorem query_insert (h : Takes env s.log s.db a b) :
    (s.answer env (.insertFriend a b)).1 = .ok ∧
      ∀ x y, y ∈ (s.query env (.insertFriend a b)).db.friends x ↔ y ∈ s.db.friends x ∨ (x = a ∧ y = b) := by
  have hans : s.answer env (.insertFriend a b) = s.db.exec (.insertFriend a b) := by
    unfold answer
    rw [if_pos h.1]
  have hdb : (s.query env (.insertFriend a b)).db = (s.db.exec (.insertFriend a b)).2 := by
    show (s.answer env (.insertFriend a b)).2 = _
    rw [hans]
  rw [hans, hdb]
  exact Database.exec_insert h.2

theorem query_insert_fails (h : ¬ Takes env s.log s.db a b) :
    (s.answer env (.insertFriend a b)).1 ≠ .ok ∧ (s.query env (.insertFriend a b)).db = s.db := by
  by_cases hsql : env.sql s.log (.insertFriend a b) = true
  · have hans : s.answer env (.insertFriend a b) = s.db.exec (.insertFriend a b) := by
      unfold answer
      rw [if_pos hsql]
    have hfail := Database.exec_insert_fails fun hl => h ⟨hsql, hl⟩
    refine ⟨by rw [hans]; exact hfail.1, ?_⟩
    show (s.answer env (.insertFriend a b)).2 = _
    rw [hans]
    exact hfail.2
  · have hans : s.answer env (.insertFriend a b) = (.error, s.db) := by
      unfold answer
      rw [if_neg hsql]
    refine ⟨by rw [hans]; simp, ?_⟩
    show (s.answer env (.insertFriend a b)).2 = _
    rw [hans]

/-! ## The approval -/

/-- The state between the two inserts. -/
def firstInsert (env : Env) (src dst : Int) (s : Server) : Server := s.query env (.insertFriend src dst)

/-- The state after both inserts. -/
def bothInserts (env : Env) (src dst : Int) (s : Server) : Server :=
  (firstInsert env src dst s).query env (.insertFriend dst src)

/-- Both inserts return 0. -/
def BothOk (env : Env) (src dst : Int) (s : Server) : Prop :=
  (s.answer env (.insertFriend src dst)).1 = .ok ∧
    ((firstInsert env src dst s).answer env (.insertFriend dst src)).1 = .ok

/-- **An approval** in two parts: both inserts, and then the answer, which is the database
failure unless both returned 0. -/
theorem approve_cases (env : Env) (src dst : Int) (s : Server) :
    (BothOk env src dst s ∧ ∃ c, s.allowAddfAction env src dst 1 =
      (((bothInserts env src dst s).answerRequest env (s.pOnline.searchList src .byId) src dst 1).introduce env
        (s.pOnline.searchList src .byId) (s.pOnline.searchList dst .byId)).mysqlEnd c) ∨
    (¬ BothOk env src dst s ∧ ∃ c, s.allowAddfAction env src dst 1 =
      ((bothInserts env src dst s).answerRequest env (s.pOnline.searchList src .byId) src dst 3).mysqlEnd c) := by
  unfold allowAddfAction mysqlGo
  rw [if_pos rfl]
  dsimp only
  by_cases h₁ : (s.answer env (.insertFriend src dst)).1 = .ok
  · by_cases h₂ : ((s.query env (.insertFriend src dst)).answer env (.insertFriend dst src)).1 = .ok
    · rw [if_pos h₁, if_pos h₂]
      exact Or.inl ⟨⟨h₁, h₂⟩, _, rfl⟩
    · rw [if_pos h₁, if_neg h₂]
      exact Or.inr ⟨fun h => h₂ h.2, _, rfl⟩
  · rw [if_neg h₁]
    exact Or.inr ⟨fun h => h₁ h.1, _, rfl⟩

theorem deref_db (p : Node) : (s.deref env p).1.db = s.db := by
  obtain ⟨b, hb⟩ := deref_fst s env p
  rw [hb]
  rfl

theorem answerRequest_db {psrc : Option Node} {v : Int} : (s.answerRequest env psrc src dst v).db = s.db := by
  unfold answerRequest
  split
  · rfl
  · rw [cascade_writeServer.db_eq, deref_db]

theorem introduce_db {psrc pdst : Option Node} : (s.introduce env psrc pdst).db = s.db := by
  unfold introduce
  split
  · simp only [cascade_writeServer.db_eq, deref_db]
  · rfl

/-- Nothing behind the inserts changes the database. -/
theorem approve_db : (s.allowAddfAction env src dst 1).db = (bothInserts env src dst s).db := by
  rcases approve_cases env src dst s with ⟨-, c, h⟩ | ⟨-, c, h⟩
  · rw [h, mysqlEnd_db, introduce_db, answerRequest_db]
  · rw [h, mysqlEnd_db, answerRequest_db]

/-- Any verdict but 1 leaves the database as it is. -/
theorem refuse_db {v : Int} (hv : v ≠ 1) : (s.allowAddfAction env src dst v).db = s.db := by
  unfold allowAddfAction
  dsimp only
  rw [if_neg hv]
  split
  · exact answerRequest_db
  · rfl

/-! ## Balanced approvals -/

/-- The two inserts of an approval take effect together or not at all. An approval of a user
by itself inserts nothing, unless there is nobody to report to. -/
def Server.Balanced (env : Env) (s : Server) : Act → Prop
  | .frame _ (.allowAddf src dst verdict) => verdict = 1 →
      if src = dst then s.pOnline.searchList src .byId ≠ none →
        ¬ Takes env s.log s.db src dst ∧ ¬ Takes env (firstInsert env src dst s).log s.db dst src
      else Takes env s.log s.db src dst ↔ Takes env (firstInsert env src dst s).log s.db dst src
  | _ => True

/-- The first insert does not touch the table of the second. -/
theorem lacks_firstInsert (hne : src ≠ dst) :
    (firstInsert env src dst s).db.Lacks dst src ↔ s.db.Lacks dst src := by
  have htable : (firstInsert env src dst s).db.table dst = s.db.table dst := by
    show (s.answer env (.insertFriend src dst)).2.table dst = _
    unfold answer Database.exec
    split
    · dsimp only
      split
      · rfl
      · rename_i t ht
        split
        · rfl
        · rw [Database.table_setTable (Database.table_nonneg ht), if_neg (Ne.symm hne)]
    · rfl
  unfold Database.Lacks
  rw [htable]

/-- **What an approval adds to the tables.** -/
theorem approve_friends (hne : src ≠ dst) :
    y ∈ (s.allowAddfAction env src dst 1).db.friends x ↔ y ∈ s.db.friends x ∨
      (Takes env s.log s.db src dst ∧ x = src ∧ y = dst) ∨
      (Takes env (firstInsert env src dst s).log s.db dst src ∧ x = dst ∧ y = src) := by
  rw [approve_db]
  have hsecond : Takes env (firstInsert env src dst s).log (firstInsert env src dst s).db dst src ↔
      Takes env (firstInsert env src dst s).log s.db dst src := and_congr_right fun _ => lacks_firstInsert hne
  have hfirst : ∀ x y, y ∈ (firstInsert env src dst s).db.friends x ↔
      y ∈ s.db.friends x ∨ (Takes env s.log s.db src dst ∧ x = src ∧ y = dst) := by
    intro x y
    by_cases h₁ : Takes env s.log s.db src dst
    · rw [show firstInsert env src dst s = s.query env (.insertFriend src dst) from rfl, (query_insert h₁).2]
      simp [h₁]
    · rw [show (firstInsert env src dst s).db = s.db from (query_insert_fails h₁).2]
      simp [h₁]
  by_cases h₂ : Takes env (firstInsert env src dst s).log s.db dst src
  · rw [show bothInserts env src dst s = (firstInsert env src dst s).query env (.insertFriend dst src) from rfl,
      (query_insert (hsecond.2 h₂)).2, hfirst]
    simp [h₂, or_assoc]
  · rw [show (bothInserts env src dst s).db = (firstInsert env src dst s).db from
      (query_insert_fails fun h => h₂ (hsecond.1 h)).2, hfirst]
    simp [h₂]

/-- An approval of a user by itself changes its own row only. -/
theorem approve_self (env : Env) (s : Server) (src x y : Int) :
    (y ∈ (s.allowAddfAction env src src 1).db.friends x ∧ x ≠ y) ↔ (y ∈ s.db.friends x ∧ x ≠ y) := by
  have hone : ∀ s : Server, (y ∈ (s.query env (.insertFriend src src)).db.friends x ∧ x ≠ y) ↔
      (y ∈ s.db.friends x ∧ x ≠ y) := by
    intro s
    by_cases h : Takes env s.log s.db src src
    · rw [(query_insert h).2]
      constructor
      · rintro ⟨hm | ⟨rfl, rfl⟩, hxy⟩
        · exact ⟨hm, hxy⟩
        · exact absurd rfl hxy
      · rintro ⟨hm, hxy⟩
        exact ⟨Or.inl hm, hxy⟩
    · rw [(query_insert_fails h).2]
  rw [approve_db]
  exact (hone _).trans (hone _)

/-- **A balanced approval keeps the tables symmetric.** -/
theorem approve_symmetric {fd : Int} (h : s.db.Symmetric) (hb : s.Balanced env (.frame fd (.allowAddf src dst 1))) :
    (s.allowAddfAction env src dst 1).db.Symmetric := by
  have hb := hb rfl
  intro x y
  by_cases hne : src = dst
  · subst hne
    by_cases hxy : x = y
    · rw [hxy]
    · have h₁ := approve_self env s src x y
      have h₂ := approve_self env s src y x
      have := h x y
      tauto
  · rw [if_neg hne] at hb
    rw [approve_friends hne, approve_friends hne, h x y, hb]
    tauto

/-! ## Reports -/

theorem answerRequest_writes {psrc : Option Node} {v : Int} :
    Writes (fun _ m => m = .allowAddf src dst v ∨ m.teardown = true) s (s.answerRequest env psrc src dst v) := by
  unfold answerRequest
  split
  · exact Writes.refl
  · exact (Writes.deref _).trans (writeServer_writes.mono fun _ _ h => h.imp_left And.right)

theorem introduce_writes {psrc pdst : Option Node} :
    Writes (fun _ m => (∃ n, m = .online n) ∨ m.teardown = true) s (s.introduce env psrc pdst) := by
  have hsend : ∀ (s : Server) (fd : Int) (n : OnlineNode), Writes (fun _ m => (∃ n, m = .online n) ∨ m.teardown = true)
      s (s.writeServer env fd (.online n)).1 :=
    fun s fd n => writeServer_writes.mono fun _ m h => h.imp_left fun h => ⟨n, h.2⟩
  unfold introduce
  split
  · exact ((((Writes.deref _).trans (Writes.deref _)).trans (hsend _ _ _)).trans
      ((Writes.deref _).trans (Writes.deref _))).trans (hsend _ _ _)
  · exact Writes.refl

/-- The inserts themselves write nothing. -/
theorem bothInserts_writes {P : Int → Msg → Prop} : Writes P s (bothInserts env src dst s) := by
  have h₁ : Writes P s (firstInsert env src dst s) := Writes.quiet [_] rfl rfl
  exact h₁.trans (Writes.quiet [_] rfl rfl)

/-- The handling of `a` reports a database failure to the requester. -/
def Server.Reports (env : Env) (s : Server) (a : Act) : Prop :=
  ∃ confd src dst v fd ok evs, a = .frame confd (.allowAddf src dst v) ∧ (s.act env a).log = s.log ++ evs ∧
    .write fd (.allowAddf src dst 3) ok ∈ evs

/-- An approval whose inserts both returned 0 is not reported as a failure. -/
theorem not_reported {c : Option Nat} {psrc pdst : Option Node} {evs : List Event} {fd : Int} {ok : Bool}
    (hl : ((((bothInserts env src dst s).answerRequest env psrc src dst 1).introduce env psrc pdst).mysqlEnd c).log
      = s.log ++ evs) (hm : .write fd (.allowAddf src dst 3) ok ∈ evs) : False := by
  have hw : Writes (fun _ m => (m = .allowAddf src dst 1 ∨ ∃ n, m = .online n) ∨ m.teardown = true) s
      ((((bothInserts env src dst s).answerRequest env psrc src dst 1).introduce env psrc pdst).mysqlEnd c) := by
    refine ((bothInserts_writes.trans (answerRequest_writes.mono ?_)).trans (introduce_writes.mono ?_)).trans
      (Writes.quiet [_, _] (mysqlEnd_log _ _) rfl)
    · exact fun _ m h => h.imp_left Or.inl
    · exact fun _ m h => h.imp_left Or.inr
  rcases hw.mem hl hm with (h | ⟨n, h⟩) | h
  · cases h
  · cases h
  · cases h

/-- Two inserts without effect leave the database as it is. -/
theorem bothInserts_db (h₁ : ¬ Takes env s.log s.db src dst)
    (h₂ : ¬ Takes env (firstInsert env src dst s).log s.db dst src) : (bothInserts env src dst s).db = s.db := by
  have hdb : (firstInsert env src dst s).db = s.db := (query_insert_fails h₁).2
  rw [← hdb] at h₂
  exact (query_insert_fails h₂).2.trans hdb

/-- **A reported failure changed nothing.** -/
theorem reports_db {a : Act} (hb : s.Balanced env a) (h : s.Reports env a) : (s.act env a).db = s.db := by
  obtain ⟨confd, src, dst, v, fd, ok, evs, rfl, hl, hm⟩ := h
  show (s.allowAddfAction env src dst v).db = s.db
  by_cases hv : v = 1
  swap
  · exact refuse_db hv
  subst hv
  have hb := hb rfl
  rw [approve_db]
  change (s.allowAddfAction env src dst 1).log = s.log ++ evs at hl
  rcases approve_cases env src dst s with ⟨-, c, heq⟩ | ⟨hno, c, heq⟩
  · rw [heq] at hl
    exact (not_reported hl hm).elim
  by_cases hne : src = dst
  · subst hne
    rw [if_pos rfl] at hb
    cases hp : s.pOnline.searchList src .byId with
    | none =>
      -- nobody is there to be told
      have hw : Writes (fun _ _ => False) s ((bothInserts env src src s).mysqlEnd c) :=
        bothInserts_writes.trans (Writes.quiet [_, _] (mysqlEnd_log _ _) rfl)
      rw [heq, hp] at hl
      exact (hw.mem hl hm).elim
    | some p =>
      obtain ⟨h₁, h₂⟩ := hb (by rw [hp]; exact Option.some_ne_none p)
      exact bothInserts_db h₁ h₂
  · rw [if_neg hne] at hb
    by_cases h₁ : Takes env s.log s.db src dst
    · have h₂ : Takes env (firstInsert env src dst s).log (firstInsert env src dst s).db dst src :=
        ⟨(hb.1 h₁).1, (lacks_firstInsert hne).2 (hb.1 h₁).2⟩
      exact absurd ⟨(query_insert h₁).1, (query_insert h₂).1⟩ hno
    · exact bothInserts_db h₁ fun h₂ => h₁ (hb.2 h₂)

/-! ## Runs -/

/-- A login changes no friend table. -/
theorem loginAction_friends {confd : Int} {user : User} :
    (s.loginAction env confd user).db.friends = s.db.friends := by
  rcases loginAction_walk env confd user s with hw | ⟨-, -, heq⟩
  · refine Walk.friends hw ?_
    rintro q ⟨id, rfl⟩
    rfl
  have hlook : (lookedUp env user s.log.length s).db = s.db := query_selectUser_db
  rw [heq]
  rcases openSession_walk env confd user (some s.log.length) (lookedUp env user s.log.length s) with
    hclose | ⟨addr, -, hw⟩
  · rw [hclose, mysqlEnd_db, cascade_offlineAction.db_eq, emit_db, hlook]
  · have hf := Walk.friends hw fun q hq => by rw [hq]; rfl
    rw [hf]
    exact congrArg Database.friends hlook

/-- **One action keeps the tables symmetric.** -/
theorem symmetric_act {a : Act} (h : s.db.Symmetric) (hb : s.Balanced env a) : (s.act env a).db.Symmetric := by
  have hsame : ∀ s' : Server, s'.db.friends = s.db.friends → s'.db.Symmetric := by
    intro s' hf x y
    rw [hf]
    exact h x y
  cases a with
  | accept fd => exact h
  | hangup fd => exact hsame _ (congrArg Database.friends cascade_offlineAction.db_eq)
  | frame fd f =>
    cases f with
    | register user =>
      refine hsame _ (Walk.friends registerAction_walk ?_)
      rintro q (⟨u, p, rfl⟩ | rfl | ⟨id, rfl⟩) <;> rfl
    | login user => exact hsame _ loginAction_friends
    | heartbeat id => exact h
    | offline id => exact hsame _ (congrArg Database.friends cascade_offlineAction.db_eq)
    | addFriend src dst =>
      refine hsame _ (Walk.friends addFriendAction_walk ?_)
      rintro q rfl
      rfl
    | allowAddf src dst v =>
      by_cases hv : v = 1
      · subst hv
        exact approve_symmetric h hb
      · show (s.allowAddfAction env src dst v).db.Symmetric
        rw [refuse_db hv]
        exact h
    | other op => exact h

/-- **Friendship stays symmetric** in every run from symmetric tables in which the two inserts
of every approval take effect together or not at all; and an approval then reported as a
database failure leaves the tables as they were. -/
theorem friendship_symmetric {tr : List (Server × Act)}
    (hr : ((lts env).startingIn fun s => s.db.Symmetric).Run (Balanced env) tr s) :
    s.db.Symmetric ∧ ∀ a, s.Balanced env a → s.Reports env a → (s.act env a).db = s.db := by
  refine ⟨hr.invariant (I := fun s => s.db.Symmetric) ?_ ?_, fun a hb h => reports_db hb h⟩
  · rintro s ⟨-, h⟩
    exact h
  · rintro s a s' h hb ⟨-, rfl⟩
    exact symmetric_act h hb

theorem pairDb_friends (x : Int) : pairDb.friends x = [] := by
  unfold Database.friends Database.table pairDb
  dsimp only
  split_ifs <;> rfl

theorem pairDb_symmetric : pairDb.Symmetric := by
  intro x y
  rw [pairDb_friends, pairDb_friends]
  simp

/-- User 2 approves the request of user 1. -/
theorem friendship_symmetric_pair :
    (((boot pairDb).act calm (.accept 5)).act calm (.frame 5 (.allowAddf 1 2 1))).db.Symmetric := by
  have h₀ : ((lts calm).startingIn fun s => s.db.Symmetric).Run (Balanced calm) [] (boot pairDb) :=
    .start ⟨⟨pairDb, rfl⟩, pairDb_symmetric⟩
  have hacc : Balanced calm (boot pairDb) (.accept 5) := trivial
  have h₁ := h₀.next hacc ⟨by decide, rfl⟩
  have hb : Balanced calm ((boot pairDb).act calm (.accept 5)) (.frame 5 (.allowAddf 1 2 1)) := by
    intro _
    rw [if_neg (by decide)]
    exact iff_of_true ⟨rfl, .empty, rfl, by decide⟩ ⟨rfl, .empty, rfl, by decide⟩
  exact (friendship_symmetric (h₁.next hb ⟨by decide, rfl⟩)).1

/-- **Half a friendship**: user 7 has no table, and the approval is recorded with user 1
alone. -/
theorem friendship_breaks :
    ∃ env tr s, ((lts env).startingIn fun s => s.db.Symmetric).Run (fun _ _ => True) tr s ∧ ¬ s.db.Symmetric := by
  have h₀ : ((lts calm).startingIn fun s => s.db.Symmetric).Run (fun _ _ => True) [] (boot pairDb) :=
    .start ⟨⟨pairDb, rfl⟩, pairDb_symmetric⟩
  have h₁ := h₀.next (a := .accept 5) trivial ⟨by decide, rfl⟩
  have h₂ := h₁.next (a := .frame 5 (.allowAddf 1 7 1)) trivial ⟨by decide, rfl⟩
  refine ⟨calm, _, _, h₂, fun h => ?_⟩
  exact absurd (h 1 7) (by decide)

end UnixNote
