import UnixNote.Chat.Credentials
import UnixNote.Proof.Consent
import UnixNote.Proof.Database
import UnixNote.Proof.Framing
import UnixNote.Proof.Bounds
import UnixNote.Proof.OneSession

/-!
# Credentials on their way to the database

`credentials_survive`: what was typed at a registration is inserted as it is, and later
logins compare with it, exactly when the password is shorter than its field and the
user name is too or the password is empty. A password of ten characters is written with
its NUL behind the record; a user name of ten characters has its NUL overwritten by the
password, which the server then takes for the rest of the name.
-/

namespace UnixNote

open Server Socket

variable {env : Env} {s s' : Server} {m : Stack} {str username password : CStr} {rest bytes : List UInt8}
  {k n : Nat} {confd id : Int}

/-! ## Strings in fields -/

/-- A string and its NUL in a field that has room for both. -/
theorem take_field (str : CStr) (rest : List UInt8) (h : str.length < n) :
    ∃ r, (str ++ 0 :: rest).take n = str ++ 0 :: r := by
  refine ⟨rest.take (n - str.length - 1), ?_⟩
  have hpos : n - str.length = (n - str.length - 1) + 1 := by omega
  rw [List.take_append, List.take_of_length_le (by omega), hpos, List.take_succ_cons]
  simp

/-- A field that the string fills, its NUL aside, still has the string. -/
theorem cstr_field (h : 0 ∉ str) (hn : str.length ≤ n) : cstr ((str ++ 0 :: rest).take n) = str := by
  induction str generalizing n with
  | nil =>
    cases n with
    | zero => rfl
    | succ n => simp [cstr]
  | cons c cs ih =>
    rw [List.mem_cons, not_or] at h
    obtain ⟨n, rfl⟩ : ∃ n', n = n' + 1 := ⟨n - 1, by simp only [List.length_cons] at hn; omega⟩
    have hrest := ih (n := n) h.2 (by simp only [List.length_cons] at hn; omega)
    unfold cstr at hrest ⊢
    rw [List.cons_append, List.take_succ_cons, List.takeWhile_cons_of_pos (by simpa using Ne.symm h.1), hrest]

/-! ## The record -/

namespace Stack

theorem strcpy_bytes : (m.strcpy k str).bytes = m.bytes.take k ++ (str ++ 0 :: m.bytes.drop (k + str.length + 1)) := by
  simp only [strcpy, put, List.append_assoc, List.length_append, List.length_singleton, List.singleton_append,
    Nat.add_assoc]

/-- The password field. -/
theorem strcpy_password : ∃ r, (m.strcpy 14 password).record.drop 14 = (password ++ 0 :: r).take 10 := by
  refine ⟨m.bytes.drop (14 + password.length + 1), ?_⟩
  have hlen : (m.bytes.take 14).length = 14 := by
    have := m.room
    rw [List.length_take]
    omega
  rw [record, List.drop_take, strcpy_bytes, List.drop_left' hlen]

/-- The user name field and all behind it. -/
theorem registerIface_username (m : Stack) (username password : CStr) :
    ∃ r r', (m.registerIface username password).record.drop 4 =
    ((username ++ 0 :: r).take 10 ++ (password ++ 0 :: r')).take 20 := by
  refine ⟨m.bytes.drop (4 + username.length + 1), (m.strcpy 4 username).bytes.drop (14 + password.length + 1), ?_⟩
  have hlen : (m.bytes.take 4).length = 4 := by
    have := m.room
    rw [List.length_take]
    omega
  have hle : 4 ≤ ((m.strcpy 4 username).bytes.take 14).length := by
    have := (m.strcpy 4 username).room
    rw [List.length_take]
    omega
  rw [record, registerIface, List.drop_take, strcpy_bytes (k := 14), List.drop_append_of_le_length hle,
    List.drop_take, strcpy_bytes, List.drop_left' hlen]

/-- The id that `Login_Iface_mgmt` sends. -/
theorem loginIface_id (m : Stack) (id : Int) (password : CStr) :
    ∃ r, (m.loginIface id password).record = CInt.store id ++ r := by
  have hlen : (CInt.store id).length = 4 := CInt.store_length
  obtain ⟨r, hr⟩ : ∃ r, (m.put 0 (CInt.store id)).bytes = CInt.store id ++ r := ⟨_, rfl⟩
  have hinner : (CInt.store id ++ r).take 14 = CInt.store id ++ r.take 10 := by
    rw [List.take_append, hlen, List.take_of_length_le (by omega)]
  rw [record, loginIface, strcpy_bytes, hr, hinner, List.append_assoc, List.take_append, hlen,
    List.take_of_length_le (by omega)]
  exact ⟨_, rfl⟩

/-- How far `Register_Iface_mgmt` writes. -/
theorem registerIface_reach (hm : m.reach = 0) (hu : username.length ≤ 10) :
    (m.registerIface username password).reach ≤ 24 ↔ password.length ≤ 9 := by
  simp only [registerIface, strcpy, put, hm, List.length_append, List.length_singleton]
  omega

end Stack

/-! ## What the server reads -/

/-- The user name as the server reads it. Without a NUL of its own it goes on with the password. -/
def storedName (username password : CStr) : CStr :=
  if username.length ≤ 9 then username else username ++ password

theorem storedName_eq :
    storedName username password = username ↔ username.length ≤ 9 ∨ password = [] := by
  unfold storedName
  split
  · simp [*]
  · simp [*]

/-- **The record of a registration, read by the server.** -/
theorem load_register (hu : Typed username) (hp : Typed password) (h9 : password.length ≤ 9) :
    load env s (m.registerIface username password).registerPackage.received =
      .ok (.register ⟨0, storedName username password, password⟩) := by
  have hpassword : loadStr (some (m.registerIface username password).record) 14 = .ok password := by
    obtain ⟨r, hr⟩ : ∃ r, (m.registerIface username password).record.drop 14 = _ := Stack.strcpy_password
    obtain ⟨r', hr'⟩ := take_field password r (n := 10) (Nat.lt_succ_of_le h9)
    rw [loadStr, hr, hr']
    exact scan_string hp.2
  have husername : loadStr (some (m.registerIface username password).record) 4 =
      .ok (storedName username password) := by
    obtain ⟨r, r', hr⟩ := Stack.registerIface_username m username password
    rw [loadStr, hr]
    unfold storedName
    split
    · rename_i hshort
      obtain ⟨q, hq⟩ := take_field username r (n := 10) (Nat.lt_succ_of_le hshort)
      rw [hq, List.append_assoc, List.cons_append]
      obtain ⟨q', hq'⟩ := take_field username (q ++ (password ++ 0 :: r')) (n := 20)
        (Nat.lt_of_le_of_lt hu.1 (by decide))
      rw [hq']
      exact scan_string hu.2
    · -- the field is full, and the password follows
      rename_i hlong
      have hten : username.length = 10 := by
        have := hu.1
        omega
      rw [List.take_left' hten, ← List.append_assoc]
      obtain ⟨q', hq'⟩ := take_field (username ++ password) r' (n := 20)
        (by rw [List.length_append]; omega)
      rw [hq']
      refine scan_string ?_
      rw [List.mem_append, not_or]
      exact ⟨hu.2, hp.2⟩
  have hgot : (m.registerIface username password).registerPackage.received =
      ⟨OP_REGISTER, some (m.registerIface username password).record⟩ := rfl
  rw [hgot]
  unfold load
  dsimp only
  rw [if_pos rfl, husername, hpassword]
  rfl

/-- **The comparison of a login** with the password of the row. -/
theorem compare_login {row : User} (hid : env.sql s.log (.selectUser id) = true)
    (hrow : s.db.selectUser id = some row) (hnul : 0 ∉ row.password) (h9 : row.password.length ≤ 9)
    (hp : Typed password) :
    comparePassword env s id (some (m.loginIface id password).record) = .ok (decide (row.password ≠ password)) := by
  obtain ⟨r, hr⟩ : ∃ r, (m.loginIface id password).record.drop 14 = _ := Stack.strcpy_password
  have hsafe : ¬ (m.loginIface id password).record.drop 14 <+: row.password := by
    intro hpre
    have hlen := hpre.length_le
    rw [List.length_drop, Stack.record_length] at hlen
    omega
  obtain ⟨d, hd⟩ := safe_compare (n := 14).2 hsafe
  have hcmp := compare_cstr hnul hd
  rw [hr, cstr_field hp.2 hp.1] at hcmp
  unfold comparePassword
  rw [if_pos hid, hrow]
  show compare 14 row.password _ = _
  rw [hd, hcmp]

/-- **The record of a login, read by the server.** -/
theorem load_login (hid : CInt.InRange id) (hp : Typed password)
    (hcmp : Safe (comparePassword env s id (some (m.loginIface id password).record))) :
    load env s (m.loginIface id password).loginPackage.received = .ok (.login ⟨id, [], password⟩) := by
  obtain ⟨r, hr⟩ := Stack.loginIface_id m id password
  obtain ⟨r', hr'⟩ : ∃ r, (m.loginIface id password).record.drop 14 = _ := Stack.strcpy_password
  have hload : loadInt (some (m.loginIface id password).record) 0 = .ok id := by
    have hlen : 0 + 4 ≤ (m.loginIface id password).record.length := by
      rw [Stack.record_length]
      omega
    rw [loadInt_of_le hlen, List.drop_zero, hr, CInt.load_store hid]
  obtain ⟨d, hd⟩ := hcmp
  have hgot : (m.loginIface id password).loginPackage.received =
      ⟨OP_LOGIN, some (m.loginIface id password).record⟩ := rfl
  rw [hgot]
  unfold load
  dsimp only
  rw [if_neg (by decide), if_pos rfl, hload]
  show (do let _ ← comparePassword env s id _; return _) = _
  rw [hd, Option.getD_some, hr', cstr_field hp.2 hp.1]
  rfl

/-- A registration begins with its insert, and makes only calls behind it. -/
theorem registerAction_behind (env : Env) (confd : Int) (user : User) (s : Server) :
    Walk env (registerCalls confd) (s.query env (.insertUser user.username user.password))
      (s.registerAction env confd user) := by
  obtain ⟨s', hw, heq | ⟨id, c, heq⟩⟩ := registerAction_inserted env confd user s
  · rw [heq]
    exact hw.of_silent.emit rfl
  · rw [heq]
    exact (hw.of_silent.write ⟨rfl, _, rfl⟩).mysqlEnd c

/-! ## From the keyboard to the database -/

/-- A login with `id` and what was typed for a password sends what was typed, and the comparison
with `password` says whether they differ. -/
def ComparesWith (env : Env) (password : CStr) (id : Int) (s : Server) (m : Stack) (typed : CStr) : Prop :=
  load env s (m.loginIface id typed).loginPackage.received = .ok (.login ⟨id, [], typed⟩) ∧
    comparePassword env s id (some (m.loginIface id typed).record) = .ok (decide (password ≠ typed))

/-- The credentials survive: `Register_Iface_mgmt` stays inside its record, the server reads inside
the received one and inserts exactly these strings; and once they are inserted, whatever happens
then, the password is compared as it should be by every login with the id of the row whose query
the database answers. -/
def Survive (env : Env) (confd : Int) (t : Transfer) (rest : List UInt8) (s : Server) (m : Stack)
    (username password : CStr) : Prop :=
  (m.registerIface username password).reach ≤ 24 ∧
    ∃ s' r, pthreadReceive env confd t ((m.registerIface username password).registerPackage.frame ++ rest) s = .ok s' ∧
      s.log ++ [.query (.insertUser username password) r] <+: s'.log ∧
      (r = .ok → ∀ (as : List Act) m' typed, Typed typed →
        env.sql (as.foldl (act env) s').log (.selectUser s.db.nextId) = true →
        ComparesWith env password s.db.nextId (as.foldl (act env) s') m' typed)

/-- **Credentials survive the trip from keyboard to database**, when they are neutral to SQL, exactly
when the password is shorter than its field, and the user name is too or the password is empty. -/
theorem credentials_survive {t : Transfer} (hm : m.reach = 0) (hu : Typed username) (hp : Typed password)
    (hv : Sql.Verbatim username password)
    (hnext : ∀ u ∈ s.db.user, u.id < s.db.nextId) (hid : CInt.InRange s.db.nextId)
    (ha : t.Allowed ((m.registerIface username password).registerPackage.frame ++ rest))
    (hw : t.Whole (m.registerIface username password).registerPackage) :
    Survive env confd t rest s m username password ↔
      password.length < 10 ∧ (username.length < 10 ∨ password = []) := by
  have hrecv : password.length ≤ 9 →
      pthreadReceive env confd t ((m.registerIface username password).registerPackage.frame ++ rest) s =
        .ok (s.registerAction env confd ⟨0, storedName username password, password⟩) := by
    intro h9
    unfold pthreadReceive
    rw [Socket.read_whole ha hw]
    show (do let f ← load env s _; return s.analysisReceive env confd f) = _
    rw [load_register hu hp h9]
    rfl
  have hbehind := registerAction_behind env confd ⟨0, storedName username password, password⟩ s
  constructor
  · rintro ⟨hreach, s', r, hok, hlog, -⟩
    have h9 : password.length ≤ 9 := (Stack.registerIface_reach hm hu.1).1 hreach
    rw [hrecv h9] at hok
    cases hok
    -- the first call of the registration is the insert of what the server has read
    have hfirst := List.prefix_of_prefix_length_le hlog hbehind.passes.log_extends (by simp)
    rw [query_log, List.prefix_append_right_inj] at hfirst
    have hname : storedName username password = username := by
      obtain ⟨l, hl⟩ := hfirst
      simp only [List.cons_append, List.nil_append, List.cons.injEq, Event.query.injEq, Stmt.insertUser.injEq] at hl
      exact hl.1.1.1.symm
    refine ⟨by omega, ?_⟩
    rcases storedName_eq.1 hname with h | h
    · exact Or.inl (by omega)
    · exact Or.inr h
  · rintro ⟨h10, hname⟩
    have h9 : password.length ≤ 9 := by omega
    have hstored : storedName username password = username :=
      storedName_eq.2 (hname.imp_left fun h => by omega)
    rw [hstored] at hrecv hbehind
    refine ⟨(Stack.registerIface_reach hm hu.1).2 h9, _, _, hrecv h9, hbehind.passes.log_extends, ?_⟩
    intro hr as m' typed htyped hsql
    have hrow : (s.query env (.insertUser username password)).db.selectUser s.db.nextId =
        some ⟨s.db.nextId, username, password⟩ := by
      show (s.answer env _).2.selectUser _ = _
      unfold answer at hr ⊢
      split at hr
      · rename_i hsent
        rw [if_pos hsent]
        exact Database.selectUser_insert hnext hv hr
      · cases hr
    have hkept : ∀ (as : List Act) (s₁ : Server),
        s₁.db.selectUser s.db.nextId = some ⟨s.db.nextId, username, password⟩ →
        (as.foldl (act env) s₁).db.selectUser s.db.nextId = some ⟨s.db.nextId, username, password⟩ := by
      intro as
      induction as with
      | nil => exact fun _ h => h
      | cons a as ih => exact fun s₁ h => ih _ (act_db (fun q db => Database.exec_selectUser q db) a h)
    have hlater := hkept as _ (hbehind.db (fun q db => Database.exec_selectUser q db) hrow)
    have hcmp := compare_login (m := m') hsql hlater hp.2 h9 htyped
    exact ⟨load_login hid htyped ⟨_, hcmp⟩, hcmp⟩

/-- A stack of zeros. -/
def zeros : Stack := ⟨List.replicate 25 0, 0, by decide⟩

/-- The header and the record, each in one piece. -/
def inOnePiece : Transfer := ⟨8, 24, List.replicate 8 0, List.replicate 24 0⟩

/-- The name "ab" and the password "x". -/
theorem credentials_survive_short : Survive calm 5 inOnePiece [] (boot pairDb) zeros [97, 98] [120] := by
  have ha : inOnePiece.Allowed ((zeros.registerIface [97, 98] [120]).registerPackage.frame ++ []) :=
    ⟨by decide, by decide, by decide, by decide, by decide, by decide⟩
  refine (credentials_survive rfl (by decide) (by decide) (by decide) ?_ (by decide) ha ⟨rfl, fun _ => rfl⟩).2
    ⟨by decide, Or.inl (by decide)⟩
  decide

/-- **Credentials of ten characters do not survive.** The NUL of a long password is written behind
the record; and behind a long name the server inserts the password as well. -/
theorem credentials_break :
    ∃ name password, Typed name ∧ Typed password ∧
      ¬ Survive calm 5 inOnePiece [] (boot pairDb) zeros [97] password ∧
      ¬ Survive calm 5 inOnePiece [] (boot pairDb) zeros name [120] := by
  refine ⟨List.replicate 10 97, List.replicate 10 120, by decide, by decide, ?_, ?_⟩
  · rintro ⟨hreach, -⟩
    exact absurd hreach (by decide)
  · rintro ⟨-, s', r, hok, hlog, -⟩
    have hrecv : pthreadReceive calm 5 inOnePiece
        ((zeros.registerIface (List.replicate 10 97) [120]).registerPackage.frame ++ []) (boot pairDb) =
        .ok ((boot pairDb).registerAction calm 5 ⟨0, List.replicate 10 97 ++ [120], [120]⟩) := rfl
    cases hrecv.symm.trans hok
    obtain ⟨l, hl⟩ := hlog
    have hhead : (.query (.insertUser (List.replicate 10 97) [120]) r : Event) =
        .query (.insertUser (List.replicate 10 97 ++ [120]) [120]) .ok := congrArg (fun l => l.headD .crash) hl
    cases hhead

end UnixNote
