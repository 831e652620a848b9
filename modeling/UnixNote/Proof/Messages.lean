import UnixNote.Proof.Database
import UnixNote.Proof.Cascade
import UnixNote.Proof.Walk

/-!
# What is written and what is stored

Two readings of a walk: every message it writes is one its handler sends or one a
teardown sends (`Walk.writes`), and it changes a friend table only through an
insert (`Walk.friends`).
-/

namespace UnixNote

open Server

/-- The messages `offline_action` writes. -/
def Msg.teardown : Msg → Bool
  | .offline _ => true
  | .allowDisconnect => true
  | _ => false

/-- The message a call of the recursion writes itself. -/
def Call.sends : Call → Int → Msg → Prop
  | .write fd m, fd', m' => fd' = fd ∧ m' = m
  | _, _, _ => False

variable {env : Env} {A : Allowed} {c : Call} {s s' s₁ s₂ : Server} {fd id confd : Int} {m : Msg} {q : Stmt}

/-- Between `s` and `s'` only messages in `P` were written. -/
def Writes (P : Int → Msg → Prop) (s s' : Server) : Prop :=
  ∃ evs, s'.log = s.log ++ evs ∧ ∀ fd m ok, .write fd m ok ∈ evs → P fd m

namespace Writes

variable {P Q : Int → Msg → Prop}

theorem refl : Writes P s s := ⟨[], by simp, by simp⟩

theorem trans (h₁ : Writes P s s₁) (h₂ : Writes P s₁ s₂) : Writes P s s₂ := by
  obtain ⟨evs, hl, hw⟩ := h₁
  obtain ⟨evs', hl', hw'⟩ := h₂
  refine ⟨evs ++ evs', by rw [hl', hl, List.append_assoc], fun fd m ok hm => ?_⟩
  rcases List.mem_append.1 hm with hm | hm
  · exact hw fd m ok hm
  · exact hw' fd m ok hm

theorem mono (h : Writes P s s') (hPQ : ∀ fd m, P fd m → Q fd m) : Writes Q s s' := by
  obtain ⟨evs, hl, hw⟩ := h
  exact ⟨evs, hl, fun fd m ok hm => hPQ fd m (hw fd m ok hm)⟩

/-- Calls that do not write. -/
theorem quiet (evs : List Event) (hl : s'.log = s.log ++ evs) (hq : evs.all Event.quiet = true) :
    Writes P s s' := by
  refine ⟨evs, hl, fun fd m ok hm => ?_⟩
  have := List.all_eq_true.1 hq _ hm
  simp [Event.quiet] at this

theorem mysqlEnd (h : Writes P s s') (conn : Option Nat) : Writes P s (s'.mysqlEnd conn) :=
  h.trans (quiet [.freeResult conn, .mysqlClose conn] (mysqlEnd_log s' conn) rfl)

theorem write {ok : Bool} (hP : P fd m) : Writes P s (s.emit (.write fd m ok)) := by
  refine ⟨[.write fd m ok], rfl, fun fd' m' ok' hm => ?_⟩
  cases List.mem_singleton.1 hm
  exact hP

/-- The messages among the new events are in `P`. -/
theorem mem {evs : List Event} {ok : Bool} (h : Writes P s s') (hl : s'.log = s.log ++ evs)
    (hm : .write fd m ok ∈ evs) : P fd m := by
  obtain ⟨evs', hl', hw⟩ := h
  rw [List.append_cancel_left (hl.symm.trans hl')] at hm
  exact hw fd m ok hm

theorem deref (p : Node) : Writes P s (s.deref env p).1 := by
  obtain ⟨b, hb⟩ := deref_fst s env p
  rw [hb]
  exact quiet [_] rfl rfl

theorem cut : Writes P s (cut env confd id s) := by
  refine quiet [.epollDel confd, .query (.selectFriends id)
    (((s.epollDel confd).delList id).answer env (.selectFriends id)).1] ?_ rfl
  show (s.log ++ [_]) ++ [_] = _
  rw [List.append_assoc]
  rfl

/-- The end of `offline_action`. -/
theorem release (conn : Option Nat) : Writes P s ((s.mysqlEnd conn).close confd) := by
  refine quiet [.freeResult conn, .mysqlClose conn, .close confd] ?_ rfl
  simp only [close_log, mysqlEnd_log, List.append_assoc, List.cons_append, List.nil_append]

end Writes

/-- A teardown message, written by a call that is not itself asked for. -/
theorem Writes.inner {P : Prop} (hm : m.teardown = true)
    (h : Writes (fun fd' m' => (Call.write fd m).sends fd' m' ∨ m'.teardown = true) s s') :
    Writes (fun _ m' => P ∨ m'.teardown = true) s s' := by
  refine h.mono fun fd' m' h => ?_
  rcases h with ⟨-, rfl⟩ | h
  · exact Or.inr hm
  · exact Or.inr h

/-- **A teardown writes `OP_OFFLINE` and `OP_ALLOW_DISCONNECT`**, besides the message whose
write failed. -/
theorem Cascade.writes (h : Cascade env c s s') :
    Writes (fun fd m => c.sends fd m ∨ m.teardown = true) s s' := by
  induction h with
  | @offlineNeg confd id s _ =>
    refine Writes.quiet [.epollDel confd, .close confd] ?_ rfl
    simp only [close_log, epollDel_log, List.append_assoc, List.cons_append, List.nil_append]
  | offlineRows _ _ _ _ ih₁ ih₂ => exact ((Writes.cut.trans ih₁).trans (ih₂.inner rfl)).trans (Writes.release _)
  | offlineNoDb _ _ _ ih => exact (Writes.cut.trans (ih.inner rfl)).trans (Writes.release _)
  | @notifyEnd _ c _ => exact Writes.quiet [.fetchRow (some c)] rfl rfl
  | @notifySkip _ _ c _ _ _ _ _ ih => exact (Writes.quiet [.fetchRow (some c)] rfl rfl).trans ih
  | @notifySend _ _ c _ p s _ _ _ _ _ ih₁ ih₂ =>
    have h₀ : Writes (fun _ m => False ∨ m.teardown = true) s
        ((s.emit (.fetchRow (some c))).emit (.deref p.ref true)) :=
      Writes.quiet [.fetchRow (some c), .deref p.ref true] (by simp) rfl
    exact (h₀.trans (ih₁.inner rfl)).trans ih₂
  | writeOk _ => exact Writes.write (Or.inl ⟨rfl, rfl⟩)
  | writeFail _ _ ih =>
    -- the message that failed, and then the messages of its teardown
    refine (Writes.write (Or.inl ⟨rfl, rfl⟩)).trans (ih.mono fun fd m h => ?_)
    exact h.imp_left (False.elim ·)

theorem writeServer_writes : Writes (fun fd' m' => (fd' = fd ∧ m' = m) ∨ m'.teardown = true) s
    (s.writeServer env fd m).1 := cascade_writeServer.writes

theorem offlineAction_writes : Writes (fun _ m => m.teardown = true) s (s.offlineAction env confd id) :=
  cascade_offlineAction.writes.mono fun _ _ h => h.resolve_left fun h => h

/-- A walk removes nodes, and adds none. -/
theorem Walk.sublist {A : Allowed} (h : Walk env A s s') : s'.pOnline.nodes.Sublist s.pOnline.nodes := by
  induction h with
  | refl => exact List.Sublist.refl _
  | tail _ hm ih =>
    refine List.Sublist.trans ?_ ih
    cases hm with
    | emit _ => exact List.Sublist.refl _
    | query _ => exact List.Sublist.refl _
    | write _ => exact cascade_writeServer.sublist
    | offline _ => exact cascade_offlineAction.sublist

/-- **A walk writes what its handler sends, and what teardowns send.** -/
theorem Walk.writes (h : Walk env A s s') : Writes (fun fd m => A.write fd m ∨ m.teardown = true) s s' := by
  induction h with
  | refl => exact Writes.refl
  | tail _ hm ih =>
    refine ih.trans ?_
    cases hm with
    | emit he => exact Writes.quiet [_] rfl (by simpa using he)
    | query _ => exact Writes.quiet [_] rfl rfl
    | write hw =>
      refine cascade_writeServer.writes.mono fun fd m h => ?_
      rcases h with ⟨rfl, rfl⟩ | h
      · exact Or.inl hw
      · exact Or.inr h
    | offline _ => exact cascade_offlineAction.writes.mono fun fd m h => h.imp_left (False.elim ·)

/-! ## The tables -/

/-- Whether a statement puts a row into a friend table. -/
def Stmt.inserts : Stmt → Bool
  | .insertFriend _ _ => true
  | _ => false

theorem Database.friends_none {db : Database} (h : db.table id = none) : db.friends id = [] := by
  simp [Database.friends, h]

/-- A user listed twice would be a row twice. -/
theorem Database.friends_nodup (db : Database) (id : Int) : (db.friends id).Nodup := by
  unfold Database.friends
  cases db.table id with
  | none => exact List.nodup_nil
  | some t => exact t.primary

/-- A new table is empty, as the missing one was. -/
theorem Database.friends_createTable {db : Database} (hid : 0 ≤ id) (h : db.table id = none) (x : Int) :
    (db.setTable id .empty).friends x = db.friends x := by
  by_cases hx : x = id
  · subst hx
    rw [friends_none h]
    simp [Database.friends, Database.table, Database.setTable, hid, FriendTable.empty]
  · have hne : ∀ _ : 0 ≤ x, x.toNat ≠ id.toNat := fun h he => hx (by omega)
    unfold Database.friends Database.table Database.setTable
    -- a negative `x` has no table, before and after
    by_cases hpos : 0 ≤ x
    · simp [hpos, hne hpos]
    · simp [hpos]

/-- A statement that is no insert keeps every friend list. -/
theorem Database.exec_friends {db : Database} (hq : q.inserts = false) : (db.exec q).2.friends = db.friends := by
  funext x
  cases q with
  | insertFriend a b => simp [Stmt.inserts] at hq
  | createTable id =>
    simp only [Database.exec]
    split
    · rename_i h; exact friends_createTable h.1 h.2 x
    · rfl
  | insertUser u p =>
    rcases exec_insertUser u p db with herr | ⟨-, -, heq⟩
    · rw [herr]
    · rw [heq]
      show (((_ : Database).table x).map _).getD _ = _
      rw [addRows_table]
      rfl
  | selectUser id => rfl
  | selectMaxUser => rfl
  | selectFriends id => simp only [Database.exec]; split <;> rfl
  | selectFriend a b => simp only [Database.exec]; split <;> rfl

theorem query_friends (hq : q.inserts = false) : (s.query env q).db.friends = s.db.friends := by
  show (s.answer env q).2.friends = s.db.friends
  unfold answer
  split
  · exact Database.exec_friends hq
  · rfl

/-- **A walk without inserts keeps every friend list.** -/
theorem Walk.friends (h : Walk env A s s') (hA : ∀ q, A.query q → q.inserts = false) :
    s'.db.friends = s.db.friends := by
  induction h with
  | refl => rfl
  | tail _ hm ih =>
    rw [← ih]
    cases hm with
    | emit _ => rfl
    | query hq => exact query_friends (hA _ hq)
    | write _ => rw [cascade_writeServer.db_eq]
    | offline _ => rw [cascade_offlineAction.db_eq]

end UnixNote
