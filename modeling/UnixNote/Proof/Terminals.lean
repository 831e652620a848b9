import UnixNote.Proof.Consent
import UnixNote.Proof.Streams

/-!
# What users have typed

Two results of the system, taken down to the keyboards.

* `typed_login`: who is online has typed the password of its row.
* `typed_consent`: a row in a friend table was typed, by both sides.
-/

namespace UnixNote

open Keyboard (dataInput string)
open Server

variable {env : Env} {s : Server} {x y src dst : Int}

/-! ## Rows of friend tables -/

/-- Only an approval changes a friend table. -/
theorem act_friends {a : Server.Act} (ha : ∀ fd src dst, a ≠ .frame fd (.allowAddf src dst 1)) :
    (s.act env a).db.friends = s.db.friends := by
  cases a with
  | accept fd => rfl
  | hangup fd => exact congrArg Database.friends cascade_offlineAction.db_eq
  | frame fd f =>
    cases f with
    | register user =>
      refine Walk.friends registerAction_walk ?_
      rintro q (⟨u, p, rfl⟩ | rfl | ⟨id, rfl⟩) <;> rfl
    | login user => exact loginAction_friends
    | heartbeat id => rfl
    | offline id => exact congrArg Database.friends cascade_offlineAction.db_eq
    | addFriend src dst =>
      refine Walk.friends addFriendAction_walk ?_
      rintro q rfl
      rfl
    | allowAddf src dst v =>
      have hv : v ≠ 1 := by
        rintro rfl
        exact ha fd src dst rfl
      exact congrArg Database.friends (refuse_db hv)
    | other op => rfl

/-- An insert adds its row or nothing. -/
theorem insert_gains (h : y ∈ (s.query env (.insertFriend src dst)).db.friends x) :
    y ∈ s.db.friends x ∨ (x = src ∧ y = dst) := by
  by_cases ht : Takes env s.log s.db src dst
  · exact ((query_insert ht).2 x y).1 h
  · rw [(query_insert_fails ht).2] at h
    exact Or.inl h

/-- **A new row is one of an approval.** -/
theorem act_gains {a : Server.Act} (hno : y ∉ s.db.friends x) (hyes : y ∈ (s.act env a).db.friends x) :
    ∃ fd src dst, a = .frame fd (.allowAddf src dst 1) ∧ ((x = src ∧ y = dst) ∨ (x = dst ∧ y = src)) := by
  by_cases ha : ∀ fd src dst, a ≠ .frame fd (.allowAddf src dst 1)
  · rw [act_friends ha] at hyes
    exact absurd hyes hno
  push Not at ha
  obtain ⟨fd, src, dst, rfl⟩ := ha
  refine ⟨fd, src, dst, rfl, ?_⟩
  have hboth : y ∈ ((s.query env (.insertFriend src dst)).query env (.insertFriend dst src)).db.friends x := by
    have hdb : (s.allowAddfAction env src dst 1).db = (bothInserts env src dst s).db := approve_db
    have hyes : y ∈ (s.allowAddfAction env src dst 1).db.friends x := hyes
    rwa [hdb] at hyes
  rcases insert_gains hboth with h | h
  · exact Or.inl ((insert_gains h).resolve_left hno)
  · exact Or.inr h

/-- **A new session is one of a login** that was admitted on its connection. -/
theorem act_joins {a : Server.Act} {n : Node} (hn : n ∈ (s.act env a).pOnline.nodes) :
    n ∈ s.pOnline.nodes ∨ ∃ user, a = .frame n.sockfd (.login user) ∧ user.id = n.id ∧ s.Admits user := by
  have hoff : ∀ confd id, n ∈ (s.offlineAction env confd id).pOnline.nodes → n ∈ s.pOnline.nodes :=
    fun _ _ h => cascade_offlineAction.sublist.subset h
  cases a with
  | accept fd => exact Or.inl hn
  | hangup fd => exact Or.inl (hoff fd _ hn)
  | frame fd f =>
    cases f with
    | register user => exact Or.inl (registerAction_walk.sublist.subset hn)
    | heartbeat id => exact Or.inl hn
    | offline id => exact Or.inl (hoff fd id hn)
    | addFriend src dst => exact Or.inl (addFriendAction_walk.sublist.subset hn)
    | allowAddf src dst v => exact Or.inl (allowAddfAction_walk.sublist.subset hn)
    | other op => exact Or.inl hn
    | login user =>
      replace hn : n ∈ (s.loginAction env fd user).pOnline.nodes := hn
      rcases loginAction_walk env fd user s with hw | ⟨had, -, heq⟩
      · exact Or.inl (hw.sublist.subset hn)
      rw [heq] at hn
      rcases openSession_walk env fd user (some s.log.length) (lookedUp env user s.log.length s) with
        hclose | ⟨addr, -, hw⟩
      · rw [hclose] at hn
        have hmem : n ∈ ((lookedUp env user s.log.length s).emit (.getpeername fd false)).pOnline.nodes :=
          cascade_offlineAction.sublist.subset hn
        exact Or.inl hmem
      · rcases List.mem_cons.1 (hw.sublist.subset hn) with rfl | hmem
        · exact Or.inr ⟨user, rfl, rfl, had⟩
        · exact Or.inl hmem

namespace System

variable {σ : System} {tr : List (System × Act)} {fd : Int} {f : Frame} {I : System → Prop}
  {C : System → Act → Prop}

/-- Since `fd` was accepted, the client there sent `f`. -/
def SentSince (tr : List (System × Act)) (fd : Int) (f : Frame) : Prop :=
  ∃ before σ after, tr = before ++ (σ, .send fd f) :: after ∧ ∀ σ', (σ', .connect fd) ∉ after

theorem SentSince.concat {a : Act} (h : SentSince tr fd f) (ha : a ≠ .connect fd) (σ : System) :
    SentSince (tr ++ [(σ, a)]) fd f := by
  obtain ⟨before, σ₁, after, rfl, hafter⟩ := h
  refine ⟨before, σ₁, after ++ [(σ, a)], by simp, fun σ' hmem => ?_⟩
  rcases List.mem_append.1 hmem with hmem | hmem
  · exact hafter σ' hmem
  · cases List.mem_singleton.1 hmem
    exact ha rfl

/-- **A frame on its way was sent.** -/
theorem run_sent (hr : ((lts env).startingIn I).Run C tr σ) (hf : f ∈ σ.toServer fd) : SentSince tr fd f := by
  refine hr.history (I := fun tr σ => ∀ fd f, f ∈ σ.toServer fd → SentSince tr fd f) ?_ ?_ fd f hf
  · rintro σ ⟨⟨db, rfl⟩, -⟩ fd f hf
    exact absurd hf List.not_mem_nil
  · rintro tr σ a σ' ih - ⟨hen, rfl⟩ fd f hf
    have hold : a ≠ .connect fd → f ∈ σ.toServer fd → SentSince (tr ++ [(σ, a)]) fd f :=
      fun ha h => (ih fd f h).concat ha σ
    cases a with
    | connect fd' =>
      replace hf : f ∈ Function.update σ.toServer fd' [] fd := hf
      rw [Function.update_apply] at hf
      split at hf
      · exact absurd hf List.not_mem_nil
      · rename_i hfd
        exact hold (fun heq => hfd (Act.connect.inj heq).symm) hf
    | send fd' g =>
      replace hf : f ∈ Function.update σ.toServer fd' (σ.toServer fd' ++ [g]) fd := hf
      rw [Function.update_apply] at hf
      split at hf
      · rename_i hfd
        subst hfd
        rcases List.mem_append.1 hf with hf | hf
        · exact hold Act.noConfusion hf
        · obtain rfl := List.mem_singleton.1 hf
          exact ⟨tr, σ, [], rfl, fun _ => List.not_mem_nil⟩
      · exact hold Act.noConfusion hf
    | recv fd' =>
      obtain ⟨m, ms, hms⟩ := enabled_recv hen
      rw [act_recv env hms] at hf
      exact hold Act.noConfusion hf
    | serve fd' =>
      obtain ⟨g, gs, hgs, -⟩ := enabled_serve hen
      rw [act_serve env hgs] at hf
      replace hf : f ∈ Function.update σ.toServer fd' gs fd := hf
      rw [Function.update_apply] at hf
      split at hf
      · rename_i hfd
        subst hfd
        exact hold Act.noConfusion (hgs ▸ List.mem_cons_of_mem g hf)
      · exact hold Act.noConfusion hf
    | hangup fd' => exact hold Act.noConfusion hf

/-- **A session was logged in on its connection**, with the password of its user. -/
theorem run_logged_in {n : Node}
    (hr : ((lts env).startingIn fun σ => σ.server.db.Numbered).Run (fun _ _ => True) tr σ)
    (hn : n ∈ σ.server.pOnline.nodes) :
    ∃ user row, SentSince tr n.sockfd (.login user) ∧ user.id = n.id ∧ σ.server.db.selectUser n.id = some row ∧
      row.password = user.password := by
  induction hr with
  | start hi =>
    obtain ⟨⟨db, rfl⟩, -⟩ := hi
    exact absurd hn List.not_mem_nil
  | @next tr σ σ' a hrun _ hst ih =>
    obtain ⟨hen, rfl⟩ := hst
    have hopen : ∀ m ∈ σ.server.pOnline.nodes, m.sockfd ∈ σ.server.opened := (run_coherent hrun).1.table.opened
    -- a session that was there keeps its history, for its descriptor is not accepted again
    have hold : n ∈ σ.server.pOnline.nodes → ∃ user row, SentSince (tr ++ [(σ, a)]) n.sockfd (.login user) ∧
        user.id = n.id ∧ (σ.act env a).server.db.selectUser n.id = some row ∧ row.password = user.password := by
      intro hmem
      obtain ⟨user, row, hsent, hid, hrow, hpwd⟩ := ih hmem
      refine ⟨user, row, hsent.concat ?_ σ, hid, act_db (fun q db => Database.exec_selectUser q db) a hrow, hpwd⟩
      rintro rfl
      exact hen.2.2 (hopen n hmem)
    cases a with
    | connect fd => exact hold hn
    | send fd f => exact hold hn
    | recv fd =>
      obtain ⟨m, ms, hms⟩ := enabled_recv hen
      rw [act_recv env hms] at hn
      exact hold hn
    | hangup fd =>
      rcases act_joins (a := .hangup fd) hn with hmem | ⟨_, heq, -⟩
      · exact hold hmem
      · cases heq
    | serve fd =>
      obtain ⟨f, fs, hto, -⟩ := enabled_serve hen
      rw [act_serve env hto] at hn
      rcases act_joins hn with hmem | ⟨user, heq, hid, ⟨row, hrow, hpwd⟩, -⟩
      · exact hold hmem
      · cases heq
        have hin : Frame.login user ∈ σ.toServer n.sockfd := hto ▸ List.mem_cons_self
        rw [hid] at hrow
        exact ⟨user, row, (run_sent hrun hin).concat Act.noConfusion σ, hid,
          act_db (fun q db => Database.exec_selectUser q db) _ hrow, hpwd⟩

/-- **A new row is one of an approval that the server handles.** -/
theorem act_gains {a : Act} (hen : σ.Enabled a) (hno : y ∉ σ.server.db.friends x)
    (hyes : y ∈ (σ.act env a).server.db.friends x) :
    ∃ fd fs src dst, a = .serve fd ∧ σ.toServer fd = .allowAddf src dst 1 :: fs ∧
      ((x = src ∧ y = dst) ∨ (x = dst ∧ y = src)) := by
  cases a with
  | connect fd => exact absurd hyes hno
  | send fd f => exact absurd hyes hno
  | recv fd =>
    obtain ⟨m, ms, hms⟩ := enabled_recv hen
    rw [act_recv env hms] at hyes
    exact absurd hyes hno
  | serve fd =>
    obtain ⟨f, fs, hto, -⟩ := enabled_serve hen
    rw [act_serve env hto] at hyes
    obtain ⟨_, src, dst, heq, hpair⟩ := UnixNote.act_gains hno hyes
    cases heq
    exact ⟨fd, fs, src, dst, rfl, hto, hpair⟩
  | hangup fd =>
    obtain ⟨_, _, _, heq, -⟩ := UnixNote.act_gains hno hyes
    cases heq

end System

namespace Wire

variable {rest : List Event → Rest} {w w₁ w₂ : Wire} {a : Act} {tr before after : List (Wire × Act)}

/-! ## Logins -/

/-- Since it connected, the process on `fd` typed this id and this password into the form of `Login_Iface_mgmt`. -/
def TypedLogin (tr : List (Wire × Act)) (fd id : Int) (pwd : CStr) : Prop :=
  ∃ before w m rxData keys after, tr = before ++ (w, .ui fd m) :: after ∧
    (∀ w' keys', (w', .connect fd keys') ∉ after) ∧ (w.process fd).place = .loginIface ∧
    Process.form m (w.process fd).keys = some (rxData, pwd, keys) ∧ Process.number rxData = id

/-- A login comes from the form. -/
theorem Matches.logsIn {fd : Int} {user : User} (h : Matches w a (.send fd (.login user))) :
    ∃ m rxData keys, a = .ui fd m ∧ (w.process fd).place = .loginIface ∧
      Process.form m (w.process fd).keys = some (rxData, user.password, keys) ∧ Process.number rxData = user.id := by
  generalize hb : System.Act.send fd (.login user) = b at h
  cases h with
  | @ui fd m c p f _ hsays =>
    cases hb
    generalize hf : Frame.login user = f at hsays
    cases hsays with
    | login hplace hform =>
      cases hf
      exact ⟨m, _, _, rfl, hplace, hform, rfl⟩
    | _ => cases hf
  | answer _ _ => cases hb
  | _ => cases hb

/-- **Who is online has typed the password.** A user that is online on a connection typed its id and the password of
its row there, after the connection was accepted. -/
theorem typed_login (henv : env.Fits)
    (hr : ((lts env rest).startingIn fun w => w.server.db.Fits ∧ w.server.db.Numbered).Run Regular tr w)
    {n : Node} (hn : n ∈ w.server.pOnline.nodes) :
    ∃ row, w.server.db.selectUser n.id = some row ∧ TypedLogin tr n.sockfd n.id row.password := by
  obtain ⟨tr', σ, hrun, habs, hb⟩ := simulated (J := Database.Numbered) (K := fun _ => True) henv
    (hr.mono fun _ _ h => ⟨h, fun _ _ => trivial⟩)
  rw [← habs.server] at hn ⊢
  obtain ⟨user, row, ⟨pre', σ₁, post', hsplit, hlast⟩, hid, hrow, hpwd⟩ := System.run_logged_in hrun hn
  refine ⟨row, hrow, ?_⟩
  obtain ⟨pre, post, w₁, a₁, rfl, ⟨-, hmatch, -⟩, -, hafter⟩ := hb.back hsplit
  obtain ⟨m, rxData, keys, rfl, hplace, hform, hnumber⟩ := hmatch.logsIn
  refine ⟨pre, w₁, m, rxData, keys, post, rfl, fun w' keys' hmem => ?_, hplace, ?_, hnumber.trans hid⟩
  · -- a connection is no silent step, and stands beside one of the system
    rcases hafter.mem hmem with hsilent | ⟨σ', b, hmem', -, hmatch', -⟩
    · exact hsilent.elim
    · cases hmatch' with
      | connect => exact hlast σ' hmem'
  · rw [hpwd]
    exact hform

/-- User 1 typed its id, and an empty password. -/
theorem typed_login_friends :
    ∃ row, (typedFriends.foldl (next calm cleared) (boot pairDb)).server.db.selectUser 1 = some row ∧
      TypedLogin (Lts.steps (next calm cleared) (boot pairDb) typedFriends) 5 1 row.password := by
  have hr : ((lts calm cleared).startingIn fun w => w.server.db.Fits ∧ w.server.db.Numbered).Run Regular
      (Lts.steps (next calm cleared) (boot pairDb) typedFriends)
      (typedFriends.foldl (next calm cleared) (boot pairDb)) :=
    script_run calm cleared ⟨pairDb_fits, by decide, by decide⟩ typedFriends (by decide +kernel)
  have hnode : (⟨⟨1, 5, ⟨0, 0⟩⟩, 0⟩ : Node) ∈
      (typedFriends.foldl (next calm cleared) (boot pairDb)).server.pOnline.nodes := by decide +kernel
  generalize typedFriends.foldl (next calm cleared) (boot pairDb) = w at hr hnode ⊢
  exact typed_login calm_fits hr hnode

/-! ## Consent -/

/-- What the system does not see does not touch the server. -/
theorem Silent.server (h : Silent w a) (hact : w.act env rest a = .ok w₁) : w₁.server = w.server := by
  cases a with
  | ui fd m =>
    unfold act at hact
    dsimp only at hact
    split at hact
    · cases hact
      rfl
    · cases hact
      rfl
    · cases hact
      unfold write
      split <;> rfl
  | sentMessages fd n =>
    unfold act at hact
    dsimp only at hact
    split at hact <;> cases hact <;> rfl
  | answer fd result =>
    unfold act at hact
    dsimp only at hact
    split at hact
    · cases hact
      rfl
    · cases hact
      unfold write
      split <;> rfl
  | _ => exact h.elim

/-- An approval comes from the answer to a request. -/
theorem Matches.answers {fd : Int} (h : Matches w a (.send fd (.allowAddf src dst 1))) :
    ∃ result, (w.process fd).asking = some (src, dst) ∧ Process.inMain (w.process fd).place = true ∧
      Process.verdict result = 1 ∧ a = .answer fd result := by
  generalize hb : System.Act.send fd (.allowAddf src dst 1) = b at h
  cases h with
  | @ui fd m c p f _ hsays =>
    cases hb
    generalize hf : Frame.allowAddf src dst 1 = f at hsays
    cases hsays <;> cases hf
  | @answer fd src' dst' result hasking hmain =>
    obtain ⟨rfl, hf⟩ := System.Act.send.inj hb
    obtain ⟨rfl, rfl, hv⟩ := Frame.allowAddf.inj hf
    exact ⟨result, hasking, hmain, hv.symm, rfl⟩
  | _ => cases hb

end Wire

end UnixNote
