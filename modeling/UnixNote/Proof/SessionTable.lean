import UnixNote.Proof.Teardown

/-!
# The session table over whole runs

Nothing in the server ties the ids in a frame to the connection it came on:
`login_action` looks for the id only, and `OP_OFFLINE` removes the user it names but
closes the connection it came on. `session_table` is the use that is safe: as long
as sessions are opened on connections without one, and `OP_OFFLINE` on a connection
with a session names its user, every session is on an open, registered connection of
its own. `session_table_breaks` is a run that does otherwise.
-/

namespace UnixNote

open Server

variable {env : Env} {s s' : Server} {confd : Int}

/-- The table once `openSession` has added its node. -/
theorem Table.withSession (env : Env) {user : User} (h : Table s) (had : s.Admits user) (hpos : 0 ≤ user.id)
    (hfd : ∀ n ∈ s.pOnline.nodes, n.sockfd ≠ confd) (ho : confd ∈ s.opened) (he : confd ∈ s.epfd) (c : Nat)
    (addr : SockAddr) : Table (withSession confd user addr (lookedUp env user c s)) := by
  have hid : ∀ n ∈ s.pOnline.nodes, n.id ≠ user.id := OnlineList.searchId_none.1 had.2
  have h₁ : Shrink s ((lookedUp env user c s).emit (.getpeername confd true)) := Shrink.same h rfl rfl rfl
  exact h₁.table.addList hid hfd hpos ho he

/-- The user of the new session is the one on its connection. -/
theorem Table.withSession_linked {user : User} {addr : SockAddr} (h : Table (UnixNote.withSession confd user addr s)) :
    Linked (UnixNote.withSession confd user addr s).pOnline confd user.id :=
  h.linked (n := ⟨⟨user.id, confd, addr⟩, s.pOnline.brk⟩) List.mem_cons_self

/-- Behind the new session a login only removes sessions, and closes their connections. -/
theorem session_walk {user : User} {addr : SockAddr} (h : Table (withSession confd user addr s))
    (hw : Walk env (sessionCalls confd user.id) (withSession confd user addr s) s') :
    Shrink (withSession confd user addr s) s' ∧ Closes (withSession confd user addr s) s' := by
  have hl : ∀ fd id, (sessionCalls confd user.id).offline fd id →
      Linked (withSession confd user addr s).pOnline fd id := by
    rintro fd id ⟨rfl, rfl⟩
    exact h.withSession_linked
  exact ⟨hw.shrink h fun fd id ho => (hl fd id ho).covers, hw.closes h hl⟩

/-- Without an address the connection is closed, and nothing else changes. -/
theorem dropped_shrink (env : Env) (h : Table s) (hfd : ∀ n ∈ s.pOnline.nodes, n.sockfd ≠ confd) (user : User)
    (c : Nat) :
    Shrink s ((((lookedUp env user c s).emit (.getpeername confd false)).offlineAction env confd (-1)).mysqlEnd
        (some c)) ∧
      Closes s ((((lookedUp env user c s).emit (.getpeername confd false)).offlineAction env confd (-1)).mysqlEnd
        (some c)) := by
  have h₁ : Shrink s ((lookedUp env user c s).emit (.getpeername confd false)) := Shrink.same h rfl rfl rfl
  have hl : Linked s.pOnline confd (-1) := h.sessions.linked_none hfd (by decide)
  have hoff := offlineAction_shrink env h₁.table hl.covers
  have hcloses : Closes ((lookedUp env user c s).emit (.getpeername confd false))
      (((lookedUp env user c s).emit (.getpeername confd false)).offlineAction env confd (-1)) :=
    cascade_offlineAction.closes h₁.table.sessions hl
  exact ⟨(h₁.trans hoff).trans (Shrink.same hoff.table rfl rfl rfl), hcloses⟩

/-- A login adds at most one session, of a user and on a connection that had none. -/
theorem loginAction_shrink (env : Env) {user : User} (h : Table s)
    (hb : env.sql s.log (.selectUser user.id) = true → s.Admits user →
      0 ≤ user.id ∧ ∀ n ∈ s.pOnline.nodes, n.sockfd ≠ confd)
    (ho : confd ∈ s.opened) (he : confd ∈ s.epfd) :
    Shrink s (s.loginAction env confd user) ∨
      ∃ addr, Shrink (withSession confd user addr (lookedUp env user s.log.length s))
        (s.loginAction env confd user) := by
  rcases loginAction_walk env confd user s with hw | ⟨had, hok, heq⟩
  · exact Or.inl (hw.shrink h fun _ _ ho => ho.elim)
  obtain ⟨hpos, hfd⟩ := hb (answer_ok hok) had
  rw [heq]
  rcases openSession_walk env confd user (some s.log.length) (lookedUp env user s.log.length s) with
    hclose | ⟨addr, -, hw⟩
  · rw [hclose]
    exact Or.inl (dropped_shrink env h hfd user _).1
  · exact Or.inr ⟨addr, (session_walk (h.withSession env had hpos hfd ho he _ addr) hw).1⟩

/-- The action keeps to its own session: a login that will open a session comes on a
connection without one, and `OP_OFFLINE` on a connection with a session names its user. -/
def Server.OwnSession (env : Env) (s : Server) : Act → Prop
  | .frame fd (.login user) => env.sql s.log (.selectUser user.id) = true → s.Admits user →
      0 ≤ user.id ∧ ∀ n ∈ s.pOnline.nodes, n.sockfd ≠ fd
  | .frame fd (.offline id) => ∀ n ∈ s.pOnline.nodes, n.sockfd = fd → n.id = id
  | _ => True

/-- A new connection keeps the table. -/
theorem Table.accept {fd : Int} (h : Table s) : Table (s.accept fd) where
  sessions := h.sessions
  opened := fun n hn => List.mem_cons_of_mem _ (h.opened n hn)
  watched := fun n hn => List.mem_cons_of_mem _ (h.watched n hn)
  registered := by
    intro x hx
    rcases List.mem_cons.1 hx with rfl | hx
    · exact List.mem_cons_self
    · exact List.mem_cons_of_mem _ (h.registered x hx)

/-- **One action keeps the table.** -/
theorem Table.act {a : Act} (h : Table s) (hen : s.Enabled a) (hown : s.OwnSession env a) :
    Table (s.act env a) := by
  cases a with
  | accept fd => exact h.accept
  | hangup fd => exact (readServerFail_shrink h).table
  | frame fd f =>
    have hfd : fd ∈ s.epfd := hen.2
    cases f with
    | register user => exact (registerAction_walk.shrink h fun _ _ ho => ho.elim).table
    | login user =>
      -- refused, or admitted with its new session
      rcases loginAction_shrink env h hown (h.registered fd hfd) hfd with hs | ⟨addr, hs⟩
      · exact hs.table
      · exact hs.table
    | heartbeat id => exact h
    | offline id => exact (offlineAction_shrink env h hown).table
    | addFriend src dst => exact (addFriendAction_walk.shrink h fun _ _ ho => ho.elim).table
    | allowAddf src dst v => exact (allowAddfAction_walk.shrink h fun _ _ ho => ho.elim).table
    | other op => exact h

theorem Table.boot (db : Database) : Table (boot db) where
  sessions := Sessions.create
  opened := fun n hn => by simp [Server.boot] at hn
  watched := fun n hn => by simp [Server.boot] at hn
  registered := fun fd hfd => by simp [Server.boot] at hfd

/-- The table is kept along every run whose actions keep to their own session. -/
theorem run_table {tr : List (Server × Act)} (hr : (lts env).Run (OwnSession env) tr s) : Table s := by
  refine hr.invariant (I := Table) ?_ ?_
  · rintro s ⟨db, rfl⟩
    exact Table.boot db
  · rintro s a s' h hown ⟨hen, rfl⟩
    exact h.act hen hown

/-- **The session table matches the open connections**, in every run whose actions keep to
their own session: every node's descriptor is open and registered, no two nodes share
one, and no node is left with a descriptor that was closed. -/
theorem session_table {tr : List (Server × Act)} (hr : (lts env).Run (OwnSession env) tr s) :
    (∀ n ∈ s.pOnline.nodes, n.sockfd ∈ s.opened ∧ n.sockfd ∈ s.epfd) ∧
      (s.pOnline.nodes.map (·.sockfd)).Nodup ∧
      ∀ fd, fd ∉ s.opened → ∀ n ∈ s.pOnline.nodes, n.sockfd ≠ fd := by
  have h := run_table hr
  refine ⟨fun n hn => ⟨h.opened n hn, h.watched n hn⟩, h.sessions.fds, ?_⟩
  rintro fd hfd n hn rfl
  exact hfd (h.opened n hn)

/-- A login and a logout on one connection. -/
theorem session_table_logout :
    (((((boot pairDb).act calm (.accept 5)).act calm (.frame 5 (.login ⟨1, [], []⟩))).act calm
      (.frame 5 (.offline 1))).pOnline.nodes.map (·.sockfd)).Nodup := by
  have h₀ : (lts calm).Run (OwnSession calm) [] (boot pairDb) := .start ⟨pairDb, rfl⟩
  have hacc : OwnSession calm (boot pairDb) (.accept 5) := trivial
  have h₁ := h₀.next hacc ⟨by decide, rfl⟩
  have hlogin : OwnSession calm ((boot pairDb).act calm (.accept 5)) (.frame 5 (.login ⟨1, [], []⟩)) :=
    fun _ _ => ⟨by decide, by decide⟩
  have h₂ := h₁.next hlogin ⟨by decide, rfl⟩
  have hoff : OwnSession calm (((boot pairDb).act calm (.accept 5)).act calm (.frame 5 (.login ⟨1, [], []⟩)))
      (.frame 5 (.offline 1)) := by
    unfold OwnSession
    decide
  exact (session_table (h₂.next hoff ⟨by decide, rfl⟩)).2.1

/-- **A session on a closed connection**: user 1 logs in on connection 5, and then sends
`OP_OFFLINE` with the id of user 2. -/
theorem session_table_breaks :
    ∃ env tr s, (lts env).Run (fun _ _ => True) tr s ∧ ∃ n ∈ s.pOnline.nodes, n.sockfd ∉ s.opened := by
  have h₀ : (lts calm).Run (fun _ _ => True) [] (boot pairDb) := .start ⟨pairDb, rfl⟩
  have h₁ := h₀.next (a := .accept 5) trivial ⟨by decide, rfl⟩
  have h₂ := h₁.next (a := .frame 5 (.login ⟨1, [], []⟩)) trivial ⟨by decide, rfl⟩
  have h₃ := h₂.next (a := .frame 5 (.offline 2)) trivial ⟨by decide, rfl⟩
  exact ⟨calm, _, _, h₃, by decide⟩

end UnixNote
