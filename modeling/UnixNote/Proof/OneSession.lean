import UnixNote.Proof.Cascade
import UnixNote.Proof.Walk

/-!
# At most one session per user

`one_session`: whatever the clients send and whatever fails, the ids in `POnline` are
pairwise distinct, and once `offline_action` for `id` has returned, no node of `id` is
left. The invariant has to hold in the middle of handlers as well, where a failed write
tears other users down: `Passes` goes through single calls, those inside `Write_server`
and `offline_action` included, and every handler is such a passage (`act_passes`).
-/

namespace UnixNote

open Server

variable {env : Env} {s s' t : Server} {c : Call} {confd id : Int}

/-! ## Single calls -/

/-- A single call. `add_list` stands behind a search that has found nothing. -/
inductive Primitive (env : Env) : Server → Server → Prop
  | emit {s : Server} (e : Event) : Primitive env s (s.emit e)
  | epollDel {s : Server} (fd : Int) : Primitive env s (s.epollDel fd)
  | close {s : Server} (fd : Int) : Primitive env s (s.close fd)
  | query {s : Server} (q : Stmt) : Primitive env s (s.query env q)
  | delList {s : Server} (id : Int) : Primitive env s (s.delList id)
  | addList {s : Server} (temp : OnlineNode) :
      s.pOnline.searchList temp.id .byId = none → Primitive env s (s.addList temp)

/-- The server gets from one state to the other by single calls. -/
abbrev Passes (env : Env) : Server → Server → Prop := Relation.ReflTransGen (Primitive env)

/-- A cascade is made of single calls. -/
theorem Cascade.passes (h : Cascade env c s s') : Passes env s s' := by
  have hcut : ∀ confd id s, Passes env s (cut env confd id s) := by
    intro confd id s
    have h₁ : Passes env s (s.epollDel confd) := .single (.epollDel confd)
    exact (h₁.tail (.delList id)).tail (.query _)
  have hpair : ∀ (s : Server) (e e' : Event), Passes env s ((s.emit e).emit e') := by
    intro s e e'
    have h₁ : Passes env s (s.emit e) := .single (.emit e)
    exact h₁.tail (.emit e')
  have hend : ∀ {s : Server} (conn : Option Nat) (confd : Int), Passes env s ((s.mysqlEnd conn).close confd) :=
    fun conn confd => (hpair _ _ _).tail (.close confd)
  induction h with
  | offlineNeg _ => exact (Relation.ReflTransGen.single (.epollDel _)).tail (.close _)
  | offlineRows _ _ _ _ ih₁ ih₂ => exact (((hcut _ _ _).trans ih₁).trans ih₂).trans (hend _ _)
  | offlineNoDb _ _ _ ih => exact ((hcut _ _ _).trans ih).trans (hend _ _)
  | notifyEnd => exact .single (.emit _)
  | notifySkip _ _ ih => exact (Relation.ReflTransGen.single (.emit _)).trans ih
  | notifySend _ _ _ ih₁ ih₂ => exact ((hpair _ _ _).trans ih₁).trans ih₂
  | writeOk _ => exact .single (.emit _)
  | writeFail _ _ ih => exact (Relation.ReflTransGen.single (.emit _)).trans ih

/-- So is a walk. -/
theorem Walk.passes {A : Allowed} (h : Walk env A s s') : Passes env s s' := by
  induction h with
  | refl => exact .refl
  | tail _ hm ih =>
    cases hm with
    | emit _ => exact ih.tail (.emit _)
    | query _ => exact ih.tail (.query _)
    | write _ => exact ih.trans cascade_writeServer.passes
    | offline _ => exact ih.trans cascade_offlineAction.passes

/-- `login_action` adds its node right behind the search. -/
theorem loginAction_passes (env : Env) (confd : Int) (user : User) (s : Server) :
    Passes env s (s.loginAction env confd user) := by
  rcases loginAction_walk env confd user s with hw | ⟨had, -, heq⟩
  · exact hw.passes
  have hlook : Passes env s (lookedUp env user s.log.length s) :=
    (Relation.ReflTransGen.single (.query _)).tail (.emit _)
  rw [heq]
  rcases openSession_walk env confd user (some s.log.length) (lookedUp env user s.log.length s) with
    hclose | ⟨addr, -, hw⟩
  · rw [hclose]
    have hpeer := hlook.tail (.emit (.getpeername confd false))
    exact ((hpeer.trans cascade_offlineAction.passes).tail (.emit _)).tail (.emit _)
  · have hpeer := hlook.tail (.emit (.getpeername confd true))
    have hsession : Passes env s (withSession confd user addr (lookedUp env user s.log.length s)) :=
      hpeer.tail (.addList ⟨user.id, confd, addr⟩ had.2)
    exact hsession.trans hw.passes

/-- **Every handler is made of single calls.** -/
theorem act_passes (env : Env) (s : Server) (confd : Int) (f : Frame) :
    Passes env s (s.act env (.frame confd f)) ∧ Passes env s (s.act env (.hangup confd)) := by
  refine ⟨?_, cascade_offlineAction.passes⟩
  cases f with
  | register user => exact registerAction_walk.passes
  | login user => exact loginAction_passes env confd user s
  | heartbeat id => exact .refl
  | offline id => exact cascade_offlineAction.passes
  | addFriend src dst => exact addFriendAction_walk.passes
  | allowAddf src dst v => exact allowAddfAction_walk.passes
  | other op => exact .refl

/-! ## The invariant -/

/-- The ids in the list are pairwise distinct. -/
def OneSession (s : Server) : Prop := Keyed.Distinct (fun n : Node => n.id) s.pOnline.nodes

/-- A single call keeps the ids distinct. -/
theorem Primitive.oneSession (hm : Primitive env s s') (h : OneSession s) : OneSession s' := by
  cases hm with
  | addList temp hnone =>
    refine Keyed.Distinct.cons h ?_
    intro n hn
    exact OnlineList.searchId_none.1 hnone n hn
  | delList id => exact Keyed.Distinct.sublist h (OnlineList.delList_sublist _)
  | emit _ => exact h
  | epollDel _ => exact h
  | close _ => exact h
  | query _ => exact h

theorem Passes.oneSession (hp : Passes env s t) (h : OneSession s) : OneSession t := by
  induction hp with
  | refl => exact h
  | tail _ hm ih => exact hm.oneSession ih

/-- Single calls only add to the log. -/
theorem Passes.log_extends (hp : Passes env s t) : s.log <+: t.log := by
  induction hp with
  | refl => exact List.prefix_refl _
  | tail _ hm ih =>
    refine ih.trans ?_
    cases hm with
    | emit e => exact ⟨_, rfl⟩
    | epollDel fd => exact ⟨_, rfl⟩
    | close fd => exact ⟨_, rfl⟩
    | query q => exact ⟨_, rfl⟩
    | delList id => exact List.prefix_refl _
    | addList temp _ => exact List.prefix_refl _

/-- **A teardown leaves no node of its user**: with distinct ids, the first match that `del_list`
removes is the only one. -/
theorem Cascade.gone (hc : Cascade env (.offline confd id) s s') (h : OneSession s) (hid : 0 ≤ id) :
    ∀ n ∈ s'.pOnline.nodes, n.id ≠ id := by
  have hcut : ∀ n ∈ (cut env confd id s).pOnline.nodes, n.id ≠ id := by
    intro n hn
    have hmem : n ∈ s.pOnline.nodes.eraseP (fun n => n.id = id) := hn
    exact (Keyed.Distinct.mem_eraseP h).1 hmem |>.2
  intro n hn
  -- what the teardown does behind the cut removes nodes, and adds none
  cases hc with
  | offlineNeg hneg => omega
  | offlineRows _ _ hnotify hbye => exact hcut n (hnotify.sublist.subset (hbye.sublist.subset hn))
  | offlineNoDb _ _ hbye => exact hcut n (hbye.sublist.subset hn)

/-- No node of the user is found afterwards. -/
theorem offline_gone (h : OneSession s) (hid : 0 ≤ id) :
    (s.offlineAction env confd id).pOnline.searchList id .byId = none :=
  OnlineList.searchId_none.2 (cascade_offlineAction.gone h hid)

theorem act_oneSession (a : Server.Act) (h : OneSession s) : OneSession (s.act env a) := by
  cases a with
  | accept fd => exact h
  | frame fd f => exact (act_passes env s fd f).1.oneSession h
  | hangup fd => exact (act_passes env s fd (.other 0)).2.oneSession h

theorem run_oneSession {tr : List (Server × Server.Act)} (hr : (lts env).Run (fun _ _ => True) tr s) :
    OneSession s := by
  refine hr.invariant (I := OneSession) ?_ ?_
  · rintro s ⟨db, rfl⟩
    exact Keyed.Distinct.nil
  · rintro s a s' h - ⟨-, rfl⟩
    exact act_oneSession a h

/-- **At most one session per user.** In every state the server reaches, with arbitrary frames and
failures, the ids in `POnline` are pairwise distinct; and wherever a handler stands when
`offline_action` is called for an id that is not negative, once it returns `search_list` finds
no node of that id. -/
theorem one_session {tr : List (Server × Server.Act)} (hr : (lts env).Run (fun _ _ => True) tr s) :
    (s.pOnline.nodes.map fun n => n.id).Nodup ∧
      ∀ t, Passes env s t → (t.pOnline.nodes.map fun n => n.id).Nodup ∧
        ∀ confd id, 0 ≤ id → (t.offlineAction env confd id).pOnline.searchList id .byId = none := by
  have h : OneSession s := run_oneSession hr
  refine ⟨h, fun t hp => ?_⟩
  have ht : OneSession t := hp.oneSession h
  exact ⟨ht, fun confd id hid => offline_gone ht hid⟩

/-- User 1 logs in, and a teardown leaves nothing of it. -/
theorem one_session_logout :
    ((((boot pairDb).act calm (.accept 5)).act calm (.frame 5 (.login ⟨1, [], []⟩))).offlineAction calm 5
      1).pOnline.searchList 1 .byId = none := by
  have h₀ : (lts calm).Run (fun _ _ => True) [] (boot pairDb) := .start ⟨pairDb, rfl⟩
  have h₁ := h₀.next (a := .accept 5) trivial ⟨by decide, rfl⟩
  have h₂ := h₁.next (a := .frame 5 (.login ⟨1, [], []⟩)) trivial ⟨by decide, rfl⟩
  exact ((one_session h₂).2 _ .refl).2 5 1 (by decide)

end UnixNote
