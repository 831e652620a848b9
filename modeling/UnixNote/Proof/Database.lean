import UnixNote.Chat.Mmsql

/-!
# What statements leave alone

No statement takes a row from the table `user` or drops a table, and an insert into `user`
gives each of its rows an id that no row had (`exec_insertUser`, `addRow`).
-/

namespace UnixNote

variable {db : Database} {id : Int} {username password : CStr}

namespace Database

/-- Ids are assigned in increasing order. -/
structure Increasing (db : Database) : Prop where
  sorted : db.user.Pairwise fun u v => u.id < v.id
  below : ∀ u ∈ db.user, u.id < db.nextId

/-- An insert fails and changes nothing, or it adds the rows of its text. -/
theorem exec_insertUser (username password : CStr) (db : Database) :
    db.exec (.insertUser username password) = (.error, db) ∨
      (db.rows username password ≠ [] ∧ db.nextId + (db.rows username password).length ≤ 2147483648 ∧
        db.exec (.insertUser username password) = (.ok, (db.rows username password).foldl addRow db)) := by
  simp only [exec]
  split
  · rename_i h
    exact Or.inr ⟨h.1, h.2, rfl⟩
  · exact Or.inl rfl

/-- Fields that denote themselves are one row. -/
theorem rows_verbatim (h : Sql.Verbatim username password) (db : Database) :
    db.rows username password = [(username, password)] := if_pos h

/-- Such an insert, when it goes through. -/
theorem exec_verbatim (h : Sql.Verbatim username password) (hok : (db.exec (.insertUser username password)).1 = .ok) :
    db.nextId < 2147483648 ∧ db.exec (.insertUser username password) = (.ok, db.addRow (username, password)) := by
  rcases exec_insertUser username password db with herr | ⟨-, hbound, heq⟩
  · rw [herr] at hok
    cases hok
  · rw [rows_verbatim h] at hbound heq
    exact ⟨by simpa [Int.add_one_le_iff] using hbound, heq⟩

theorem addRows_tables (rs : List (CStr × CStr)) (db : Database) :
    (rs.foldl addRow db).tables = db.tables ∧ (rs.foldl addRow db).unplain = db.unplain :=
  List.foldlRecOn (motive := fun db' : Database => db'.tables = db.tables ∧ db'.unplain = db.unplain) rs addRow
    ⟨rfl, rfl⟩ fun _ h _ _ => h

/-- The rows stand behind those that were there. -/
theorem addRows_user (rs : List (CStr × CStr)) (db : Database) :
    ∃ new, (rs.foldl addRow db).user = db.user ++ new ∧ new.length = rs.length := by
  induction rs generalizing db with
  | nil => exact ⟨[], (List.append_nil _).symm, rfl⟩
  | cons row rs ih =>
    obtain ⟨new, hnew, hlen⟩ := ih (db.addRow row)
    refine ⟨⟨db.nextId, row.1, row.2⟩ :: new, ?_, by rw [List.length_cons, hlen, List.length_cons]⟩
    rw [List.foldl_cons, hnew]
    exact List.append_assoc ..

/-- What a statement does to the table `user`: nothing, or it appends rows. -/
theorem exec_user (q : Stmt) (db : Database) :
    ((db.exec q).2.user = db.user ∧ (db.exec q).2.nextId = db.nextId) ∨
      ∃ u p, q = .insertUser u p ∧ db.exec q = (.ok, (db.rows u p).foldl addRow db) := by
  cases q with
  | insertUser u p =>
    rcases exec_insertUser u p db with herr | ⟨-, -, heq⟩
    · rw [herr]
      exact Or.inl ⟨rfl, rfl⟩
    · exact Or.inr ⟨u, p, rfl, heq⟩
  | selectUser _ => exact Or.inl ⟨rfl, rfl⟩
  | selectMaxUser => exact Or.inl ⟨rfl, rfl⟩
  | createTable a =>
    simp only [exec]
    split <;> exact Or.inl ⟨rfl, rfl⟩
  | selectFriends a =>
    simp only [exec]
    split <;> exact Or.inl ⟨rfl, rfl⟩
  | selectFriend src dst =>
    simp only [exec]
    split <;> exact Or.inl ⟨rfl, rfl⟩
  | insertFriend src dst =>
    simp only [exec]
    split
    · exact Or.inl ⟨rfl, rfl⟩
    · split <;> exact Or.inl ⟨rfl, rfl⟩

theorem addRow_increasing (h : db.Increasing) (row : CStr × CStr) : (db.addRow row).Increasing := by
  refine ⟨List.pairwise_append.2 ⟨h.sorted, List.pairwise_singleton .., ?_⟩, ?_⟩
  · intro v hv w hw
    rw [List.mem_singleton.1 hw]
    -- the new row comes last, with the largest id
    exact h.below v hv
  · intro v hv
    rcases List.mem_append.1 hv with hv | hv
    · exact Int.lt_trans (h.below v hv) (Int.lt_succ _)
    · rw [List.mem_singleton.1 hv]
      exact Int.lt_succ _

/-- **Ids stay increasing.** -/
theorem exec_increasing (q : Stmt) (db : Database) (h : db.Increasing) : (db.exec q).2.Increasing := by
  rcases exec_user q db with ⟨hu, hn⟩ | ⟨u, p, -, heq⟩
  · refine ⟨?_, ?_⟩
    · rw [hu]
      exact h.sorted
    · rw [hu, hn]
      exact h.below
  · rw [heq]
    exact List.foldlRecOn (motive := Increasing) _ addRow h fun _ h row _ => addRow_increasing h row

theorem addRow_selectUser {row : User} (h : db.selectUser id = some row) (r : CStr × CStr) :
    (db.addRow r).selectUser id = some row := by
  unfold selectUser addRow at *
  rw [List.find?_append, h]
  rfl

/-- Rows stay. -/
theorem exec_selectUser {row : User} (q : Stmt) (db : Database) (h : db.selectUser id = some row) :
    (db.exec q).2.selectUser id = some row := by
  rcases exec_user q db with ⟨hu, -⟩ | ⟨u, p, -, heq⟩
  · unfold selectUser at h ⊢
    rw [hu]
    exact h
  · rw [heq]
    exact List.foldlRecOn (motive := fun db' : Database => db'.selectUser id = some row) _ addRow h
      fun _ h r _ => addRow_selectUser h r

/-- The row of an insert is found under the id it got. -/
theorem selectUser_insert (h : ∀ u ∈ db.user, u.id < db.nextId) (hv : Sql.Verbatim username password)
    (hok : (db.exec (.insertUser username password)).1 = .ok) :
    (db.exec (.insertUser username password)).2.selectUser db.nextId = some ⟨db.nextId, username, password⟩ := by
  have hold : db.user.find? (fun u => u.id = db.nextId) = none :=
    Keyed.find?_none.2 fun u hu => Int.ne_of_lt (h u hu)
  rw [(exec_verbatim hv hok).2]
  unfold selectUser addRow
  rw [List.find?_append, hold]
  simp

/-- A fold that keeps one of the elements that it sees. -/
theorem foldl_keeps {α : Type} {f : Option α → α → Option α} (hf : ∀ best x, f best x = some x ∨ f best x = best)
    {x : α} (xs : List α) (best : Option α) (h : xs.foldl f best = some x) : best = some x ∨ x ∈ xs := by
  induction xs generalizing best with
  | nil => exact Or.inl h
  | cons y xs ih =>
    rcases ih _ h with hy | hx
    · rcases hf best y with heq | heq
      · rw [heq] at hy
        cases hy
        exact Or.inr List.mem_cons_self
      · rw [heq] at hy
        exact Or.inl hy
    · exact Or.inr (List.mem_cons_of_mem _ hx)

/-- The row with the greatest id is a row. -/
theorem maxUser_mem {u : User} (h : db.maxUser = some u) : u ∈ db.user := by
  refine (foldl_keeps (fun best v => ?_) db.user none h).resolve_left nofun
  cases best with
  | none => exact Or.inl rfl
  | some b =>
    dsimp only
    split
    · exact Or.inl rfl
    · exact Or.inr rfl

/-- The row with the greatest id is the last one. -/
theorem maxUser_last {u : User} {us : List User} (h : db.Increasing) (hu : db.user = us ++ [u]) :
    db.maxUser = some u := by
  have hbelow : ∀ v ∈ us, v.id < u.id := by
    have hsorted := h.sorted
    rw [hu, List.pairwise_append] at hsorted
    exact fun v hv => hsorted.2.2 v hv u (List.mem_singleton.2 rfl)
  unfold maxUser
  rw [hu, List.foldl_append]
  cases hmax : us.foldl _ none with
  | none => rfl
  | some b => exact if_pos (hbelow b (@maxUser_mem { db with user := us } b hmax))

/-- There is no greatest id only in an empty table. -/
theorem maxUser_none (h : db.Increasing) (hmax : db.maxUser = none) : db.user = [] := by
  rcases List.eq_nil_or_concat db.user with hnil | ⟨us, u, hu⟩
  · exact hnil
  · rw [List.concat_eq_append] at hu
    rw [maxUser_last h hu] at hmax
    cases hmax

/-- Replacing a table leaves no table out. -/
theorem setTable_isSome {t : FriendTable} {a : Int} (h : (db.table id).isSome) :
    ((db.setTable a t).table id).isSome := by
  unfold table setTable at *
  split at h
  · rename_i hpos
    rw [if_pos hpos]
    dsimp only
    split
    · rfl
    · exact h
  · cases h

theorem addRows_table (rs : List (CStr × CStr)) (db : Database) (id : Int) :
    (rs.foldl addRow db).table id = db.table id := by
  unfold table
  rw [(addRows_tables rs db).1]

/-- Tables stay. -/
theorem exec_table (q : Stmt) (db : Database) (h : (db.table id).isSome) : ((db.exec q).2.table id).isSome := by
  cases q with
  | insertUser u p =>
    rcases exec_insertUser u p db with herr | ⟨-, -, heq⟩
    · rw [herr]
      exact h
    · rw [heq, addRows_table]
      exact h
  | selectUser _ => exact h
  | selectMaxUser => exact h
  | createTable a =>
    simp only [exec]
    split
    · exact setTable_isSome h
    · exact h
  | selectFriends a =>
    simp only [exec]
    split <;> exact h
  | selectFriend src dst =>
    simp only [exec]
    split <;> exact h
  | insertFriend src dst =>
    simp only [exec]
    split
    · exact h
    · split
      · exact h
      · exact setTable_isSome h

/-- A table that was created is there. -/
theorem exec_createTable (h : (db.exec (.createTable id)).1 = .ok) :
    ((db.exec (.createTable id)).2.table id).isSome := by
  simp only [exec] at h ⊢
  split at h
  · rename_i hnew
    rw [if_pos hnew]
    unfold table setTable
    rw [if_pos hnew.1]
    simp
  · cases h

end Database

end UnixNote
