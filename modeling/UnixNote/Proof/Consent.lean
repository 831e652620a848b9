import UnixNote.Proof.Links

/-!
# Friendship needs the consent of both sides

The server itself asks nobody: `allow_addf_action` takes the ids of a frame as they come,
on any connection (`consent_breaks`). With clients that behave as `client.c` both sides
have agreed (`consent`): an approval arrives on a connection of the user who was asked,
and the request was handled before on a connection of the user who asked.
-/

namespace UnixNote

open Server

variable {env : Env} {s s' : Server} {fd confd : Int}

/-! ## Ids in the table `user` -/

/-- `auto_increment` counts up from a number that is not negative. -/
def Database.Numbered (db : Database) : Prop := 0 ≤ db.nextId ∧ ∀ u ∈ db.user, 0 ≤ u.id

theorem Database.addRow_numbered {db : Database} (h : db.Numbered) (row : CStr × CStr) : (db.addRow row).Numbered := by
  refine ⟨Int.le_add_one h.1, fun u hu => ?_⟩
  rcases List.mem_append.1 hu with hu | hu
  · exact h.2 u hu
  · rw [List.mem_singleton.1 hu]
    exact h.1

theorem Database.exec_numbered {db : Database} (q : Stmt) (h : db.Numbered) : (db.exec q).2.Numbered := by
  cases q with
  | insertUser username password =>
    rcases exec_insertUser username password db with herr | ⟨-, -, heq⟩
    · rw [herr]
      exact h
    · rw [heq]
      exact List.foldlRecOn (motive := Numbered) _ addRow h fun _ h row _ => addRow_numbered h row
  | selectUser id => exact h
  | selectMaxUser => exact h
  | createTable id =>
    simp only [Database.exec]
    split <;> exact h
  | selectFriends id =>
    simp only [Database.exec]
    split <;> exact h
  | selectFriend src dst =>
    simp only [Database.exec]
    split <;> exact h
  | insertFriend src dst =>
    simp only [Database.exec]
    split
    · exact h
    · split <;> exact h

section Kept

variable {I : Database → Prop} (hexec : ∀ q db, I db → I (db.exec q).2)

include hexec

theorem query_db {q : Stmt} (h : I s.db) : I (s.query env q).db := by
  show I (s.answer env q).2
  unfold answer
  split
  · exact hexec q s.db h
  · exact h

/-- What every statement keeps, every walk keeps. -/
theorem Walk.db {A : Allowed} (hw : Walk env A s s') (h : I s.db) : I s'.db := by
  induction hw with
  | refl => exact h
  | tail _ hm ih =>
    cases hm with
    | emit _ => exact ih
    | query _ => exact query_db hexec ih
    | write _ =>
      rw [cascade_writeServer.db_eq]
      exact ih
    | offline _ =>
      rw [cascade_offlineAction.db_eq]
      exact ih

/-- **What every statement keeps, every action of the server keeps.** -/
theorem act_db (a : Server.Act) (h : I s.db) : I (s.act env a).db := by
  have hoff : ∀ confd id, I (s.offlineAction env confd id).db := by
    intro confd id
    rw [cascade_offlineAction.db_eq]
    exact h
  cases a with
  | accept fd => exact h
  | hangup fd => exact hoff fd _
  | frame confd f =>
    cases f with
    | register user => exact registerAction_walk.db hexec h
    | login user =>
      show I (s.loginAction env confd user).db
      rcases loginAction_walk env confd user s with hw | ⟨-, -, heq⟩
      · exact hw.db hexec h
      have hlook : I (lookedUp env user s.log.length s).db := query_db hexec h
      rw [heq]
      rcases openSession_walk env confd user (some s.log.length) (lookedUp env user s.log.length s) with
        hclose | ⟨addr, -, hw⟩
      · rw [hclose, mysqlEnd_db, cascade_offlineAction.db_eq]
        exact hlook
      · exact hw.db hexec hlook
    | heartbeat id => exact h
    | offline id => exact hoff confd id
    | addFriend src dst => exact addFriendAction_walk.db hexec h
    | allowAddf src dst v => exact allowAddfAction_walk.db hexec h
    | other op => exact h

end Kept

/-! ## Runs of the system -/

namespace System

variable {σ : System} {a : Act} {tr : List (System × Act)} {src dst : Int}

/-- What every statement keeps, every action of the system keeps. -/
theorem act_db {I : Database → Prop} (hexec : ∀ q db, I db → I (db.exec q).2) (a : Act) (h : I σ.server.db) :
    I (σ.act env a).server.db := by
  cases a with
  | connect fd => exact h
  | send fd f => exact h
  | recv fd =>
    unfold act
    dsimp only
    split <;> exact h
  | serve fd =>
    unfold act
    dsimp only
    split
    · exact h
    · exact UnixNote.act_db hexec _ h
  | hangup fd => exact UnixNote.act_db hexec _ h

/-- A friend request from `src` to `dst` was handled on a connection of `src`. -/
def Asked (tr : List (System × Act)) (src dst : Int) : Prop := ∃ σ a, (σ, a) ∈ tr ∧ σ.Requests a src dst

/-- Along every run client and server agree, and requests were asked for. -/
theorem run_coherent (hr : ((lts env).startingIn fun σ => σ.server.db.Numbered).Run (fun _ _ => True) tr σ) :
    Coherent (Asked tr) σ ∧ σ.server.db.Numbered := by
  refine hr.history (I := fun tr σ => Coherent (Asked tr) σ ∧ σ.server.db.Numbered) ?_ ?_
  · rintro σ ⟨⟨db, rfl⟩, hnum⟩
    exact ⟨Coherent.boot db, hnum⟩
  · rintro tr σ a σ' ⟨hcoh, hnum⟩ - ⟨hen, rfl⟩
    refine ⟨?_, act_db (fun q db => Database.exec_numbered q) a hnum⟩
    have hids : σ.ValidIds env a := by
      rintro fd user fs - - - ⟨⟨row, hrow, -⟩, -⟩
      obtain ⟨hmem, hid⟩ : row ∈ σ.server.db.user ∧ row.id = user.id := Keyed.find?_spec hrow
      have := hnum.2 row hmem
      omega
    refine (hcoh.act hen hids).mono fun src dst h => ?_
    rcases h with ⟨σ₁, a₁, hmem, hreq⟩ | hreq
    · exact ⟨σ₁, a₁, List.mem_append_left _ hmem, hreq⟩
    · exact ⟨σ, a, List.mem_append_right _ (List.mem_singleton.2 rfl), hreq⟩

/-- **Friendship needs the consent of both sides.** In every run of the server with clients that
behave as `client.c`, when `allow_addf_action` is about to handle an approval of `dst` for
`src`, the approval is on a connection logged in as `dst`, and an `OP_ADD_FRIEND` from `src` to
`dst` was handled before on a connection that was logged in as `src`. -/
theorem consent (hr : ((lts env).startingIn fun σ => σ.server.db.Numbered).Run (fun _ _ => True) tr σ)
    {before after : List (System × Act)} {σ₁ : System} {fd : Int} {fs : List Frame}
    (htr : tr = before ++ (σ₁, .serve fd) :: after) (hto : σ₁.toServer fd = .allowAddf src dst 1 :: fs) :
    (∃ n ∈ σ₁.server.pOnline.nodes, n.sockfd = fd ∧ n.id = dst) ∧
      ∃ σ₂ fd₂ fs₂, (σ₂, Act.serve fd₂) ∈ before ∧ σ₂.toServer fd₂ = .addFriend src dst :: fs₂ ∧
        ∃ n ∈ σ₂.server.pOnline.nodes, n.sockfd = fd₂ ∧ n.id = src := by
  obtain ⟨hrun, -, σ', hen, -⟩ := hr.before htr
  obtain ⟨hcoh, -⟩ := run_coherent hrun
  have hopen : fd ∈ σ₁.server.opened := by
    obtain ⟨f, fs', hto', hen⟩ := enabled_serve hen
    exact hcoh.table.registered fd hen.2
  have hback : Requested (Asked before) (σ₁.server.session fd) src dst :=
    (hcoh.links fd hopen).frames (.allowAddf src dst 1) (hto ▸ List.mem_cons_self)
  obtain ⟨hsession, ⟨σ₂, a₂, hmem, fd₂, fs₂, rfl, hto₂, hsession₂⟩, -⟩ := hback
  refine ⟨(session_some hcoh.table.sessions).1 hsession, σ₂, fd₂, fs₂, hmem, hto₂, ?_⟩
  -- the table was in order when the request was handled, too
  obtain ⟨pre, post, hsplit⟩ := List.append_of_mem hmem
  obtain ⟨hrun₂, -, -⟩ := hrun.before hsplit
  exact (session_some (run_coherent hrun₂).1.table.sessions).1 hsession₂

/-- The approval of user 2 for user 1. -/
theorem consent_agreement :
    (∃ n ∈ (agreement.foldl (act calm) (boot pairDb)).server.pOnline.nodes, n.sockfd = 6 ∧ n.id = 2) ∧
      ∃ σ₂ fd₂ fs₂, (σ₂, Act.serve fd₂) ∈ Lts.steps (act calm) (boot pairDb) agreement ∧
        σ₂.toServer fd₂ = .addFriend 1 2 :: fs₂ ∧ ∃ n ∈ σ₂.server.pOnline.nodes, n.sockfd = fd₂ ∧ n.id = 1 := by
  have hdb : pairDb.Numbered := ⟨by decide, by decide⟩
  have hr : ((lts calm).startingIn fun σ => σ.server.db.Numbered).Run (fun _ _ => True) _ _ :=
    script_run calm hdb (agreement ++ [.serve 6]) (by decide +kernel)
  have htr : Lts.steps (act calm) (boot pairDb) (agreement ++ [.serve 6]) =
      Lts.steps (act calm) (boot pairDb) agreement ++ (agreement.foldl (act calm) (boot pairDb), .serve 6) :: [] := rfl
  have hto : (agreement.foldl (act calm) (boot pairDb)).toServer 6 = [.allowAddf 1 2 1] := by decide +kernel
  exact consent hr htr hto

end System

/-- **An approval that nobody asked for**: a connection that never logged in approves a request of
user 1 to user 2, and both are recorded. -/
theorem consent_breaks :
    ∃ env tr s fd, (lts env).Run (fun _ _ => True) tr s ∧ s.Enabled (.frame fd (.allowAddf 1 2 1)) ∧
      2 ∉ s.db.friends 1 ∧ 2 ∈ (s.act env (.frame fd (.allowAddf 1 2 1))).db.friends 1 ∧
      (∀ n ∈ s.pOnline.nodes, n.sockfd = fd → n.id ≠ 2) ∧
      ∀ s' fd', (s', Server.Act.frame fd' (.addFriend 1 2)) ∉ tr := by
  have h₀ : (lts calm).Run (fun _ _ => True) [] (Server.boot pairDb) := .start ⟨pairDb, rfl⟩
  have h₁ := h₀.next (a := .accept 5) trivial ⟨by decide, rfl⟩
  refine ⟨calm, _, _, 5, h₁, by decide, by decide, by decide, by decide, fun s' fd' hmem => ?_⟩
  cases List.mem_singleton.1 hmem

end UnixNote
