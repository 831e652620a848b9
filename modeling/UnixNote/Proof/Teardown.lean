import UnixNote.Proof.Sessions
import UnixNote.Proof.Walk

/-!
# What handlers do to the session table

`Table s`: one session per user and per connection, each on a connection that is
open and registered. `Shrink s s'`: sessions were only removed, and the table holds
again. Teardowns shrink (`Cascade.shrink`), and so does every walk (`Walk.shrink`).
When every teardown is aimed at a descriptor and the user on it, a removed session
also has its connection closed (`Cascade.closes`, `Walk.closes`).
-/

namespace UnixNote

open Server

/-- The session table matches the open connections. -/
structure Table (s : Server) : Prop where
  sessions : Sessions s.pOnline
  opened : ∀ n ∈ s.pOnline.nodes, n.sockfd ∈ s.opened
  watched : ∀ n ∈ s.pOnline.nodes, n.sockfd ∈ s.epfd
  registered : ∀ fd ∈ s.epfd, fd ∈ s.opened

/-- Sessions were only removed, and what is left is a table again. -/
structure Shrink (s s' : Server) : Prop where
  table : Table s'
  sublist : s'.pOnline.nodes.Sublist s.pOnline.nodes
  opened : ∀ fd ∈ s'.opened, fd ∈ s.opened
  epfd : ∀ fd ∈ s'.epfd, fd ∈ s.epfd

/-- The connection of every removed session is closed. -/
def Closes (s s' : Server) : Prop := ∀ n ∈ s.pOnline.nodes, n ∉ s'.pOnline.nodes → n.sockfd ∉ s'.opened

variable {env : Env} {c : Call} {s s' s₁ s₂ : Server} {fd id confd : Int} {m : Msg}

/-- A connection with a session has no other. -/
theorem Table.linked (h : Table s) {n : Node} (hn : n ∈ s.pOnline.nodes) : Linked s.pOnline n.sockfd n.id :=
  h.sessions.linked hn

theorem Table.emit (h : Table s) (e : Event) : Table (s.emit e) := ⟨h.sessions, h.opened, h.watched, h.registered⟩

namespace Shrink

/-- Calls that leave list and descriptors alone. -/
theorem same (h : Table s) (hp : s'.pOnline = s.pOnline) (ho : s'.opened = s.opened) (he : s'.epfd = s.epfd) :
    Shrink s s' where
  table := ⟨hp ▸ h.sessions, by rw [hp, ho]; exact h.opened, by rw [hp, he]; exact h.watched,
    by rw [ho, he]; exact h.registered⟩
  sublist := by rw [hp]
  opened := by rw [ho]; exact fun _ h => h
  epfd := by rw [he]; exact fun _ h => h

theorem refl (h : Table s) : Shrink s s := same h rfl rfl rfl

theorem emit (h : Table s) (e : Event) : Shrink s (s.emit e) := same h rfl rfl rfl

theorem trans (h₁ : Shrink s s₁) (h₂ : Shrink s₁ s₂) : Shrink s s₂ where
  table := h₂.table
  sublist := h₂.sublist.trans h₁.sublist
  opened := fun fd h => h₁.opened fd (h₂.opened fd h)
  epfd := fun fd h => h₁.epfd fd (h₂.epfd fd h)

end Shrink

/-! ## The cascade -/

theorem Linked.sublist {l l' : OnlineList} (h : Linked l fd id) (hs : l'.nodes.Sublist l.nodes) : Linked l' fd id :=
  fun n hn => h n (hs.subset hn)

/-- A session on the descriptor that is closed is one of the user that is removed. -/
def Covers (l : OnlineList) (fd id : Int) : Prop := ∀ n ∈ l.nodes, n.sockfd = fd → n.id = id

/-- A teardown closes no descriptor under another user. -/
def Call.Covered : Call → Server → Prop
  | .offline confd id, s => Covers s.pOnline confd id
  | _, _ => True

/-- A teardown is aimed at a descriptor and a user that belong together. -/
def Call.Aimed : Call → Server → Prop
  | .offline confd id, s => Linked s.pOnline confd id
  | _, _ => True

theorem Linked.covers {l : OnlineList} (h : Linked l fd id) : Covers l fd id := fun n hn => (h n hn).1

theorem Covers.sublist {l l' : OnlineList} (h : Covers l fd id) (hs : l'.nodes.Sublist l.nodes) : Covers l' fd id :=
  fun n hn => h n (hs.subset hn)

/-- Cutting a user out and taking its connection from the epoll instance keeps the table. -/
theorem table_cut (h : Table s) (hl : Covers s.pOnline confd id) : Table (cut env confd id s) where
  sessions := h.sessions.delList
  opened := fun n hn => h.opened n (OnlineList.delList_sublist _ |>.subset hn)
  watched := by
    intro n hn
    obtain ⟨hmem, hid⟩ := h.sessions.mem_delList.1 hn
    rw [cut_epfd, List.mem_filter]
    exact ⟨h.watched n hmem, by simpa using fun he => hid (hl n hmem he)⟩
  registered := fun fd hfd => h.registered fd (List.mem_of_mem_filter hfd)

/-- Closing the connection ends what cutting its user out began. -/
theorem shrink_close (h : Table s) (hl : Covers s.pOnline confd id) (hs : Shrink (cut env confd id s) s₁)
    (hp : s'.pOnline = s₁.pOnline) (ho : s'.opened = s₁.opened.filter (· ≠ confd))
    (he : s'.epfd = s₁.epfd.filter (· ≠ confd)) : Shrink s s' := by
  have hne : ∀ n ∈ s₁.pOnline.nodes, n.sockfd ≠ confd := by
    intro n hn hfd
    obtain ⟨hmem, hid⟩ := h.sessions.mem_delList.1 (hs.sublist.subset hn)
    -- a session on `confd` is one of `id`, and that was cut out
    exact hid (hl n hmem hfd)
  refine ⟨⟨hp ▸ hs.table.sessions, ?_, ?_, ?_⟩, ?_, ?_, ?_⟩
  · intro n hn
    rw [hp] at hn
    rw [ho, List.mem_filter]
    exact ⟨hs.table.opened n hn, by simpa using hne n hn⟩
  · intro n hn
    rw [hp] at hn
    rw [he, List.mem_filter]
    exact ⟨hs.table.watched n hn, by simpa using hne n hn⟩
  · intro fd hfd
    rw [he, List.mem_filter] at hfd
    rw [ho, List.mem_filter]
    exact ⟨hs.table.registered fd hfd.1, hfd.2⟩
  · rw [hp]; exact hs.sublist.trans (OnlineList.delList_sublist _)
  · intro fd hfd
    rw [ho] at hfd
    exact hs.opened fd (List.mem_of_mem_filter hfd)
  · intro fd hfd
    rw [he] at hfd
    exact List.mem_of_mem_filter (hs.epfd fd (List.mem_of_mem_filter hfd))

/-- A teardown under a negative id closes a connection that has no session. -/
theorem shrink_neg (h : Table s) (hl : Covers s.pOnline confd id) (hid : id < 0) :
    Shrink s ((s.epollDel confd).close confd) := by
  have hne : ∀ n ∈ s.pOnline.nodes, n.sockfd ≠ confd := by
    intro n hn hfd
    -- a session has no negative id, and one on `confd` would have `id`
    have := h.sessions.nonneg n hn
    have := hl n hn hfd
    omega
  refine ⟨⟨h.sessions, ?_, ?_, ?_⟩, List.Sublist.refl _, ?_, ?_⟩
  · intro n hn
    simp only [close_opened, epollDel_opened, List.mem_filter]
    exact ⟨h.opened n hn, by simpa using hne n hn⟩
  · intro n hn
    simp only [close_epfd, epollDel_epfd, List.mem_filter]
    exact ⟨⟨h.watched n hn, by simpa using hne n hn⟩, by simpa using hne n hn⟩
  · intro fd hfd
    simp only [close_epfd, epollDel_epfd, List.mem_filter] at hfd
    simp only [close_opened, epollDel_opened, List.mem_filter]
    exact ⟨h.registered fd hfd.1.1, hfd.2⟩
  · intro fd hfd
    exact List.mem_of_mem_filter hfd
  · intro fd hfd
    exact List.mem_of_mem_filter (List.mem_of_mem_filter hfd)

/-- **Every call of the teardown shrinks the table.** -/
theorem Cascade.shrink (h : Cascade env c s s') (ht : Table s) (ha : c.Covered s) : Shrink s s' := by
  induction h with
  | offlineNeg hid => exact shrink_neg ht ha hid
  | offlineRows _ _ _ _ ih₁ ih₂ =>
    have h₁ := ih₁ (table_cut ht ha) trivial
    exact shrink_close ht ha (h₁.trans (ih₂ h₁.table trivial)) rfl rfl rfl
  | offlineNoDb _ _ _ ih => exact shrink_close ht ha (ih (table_cut ht ha) trivial) rfl rfl rfl
  | notifyEnd => exact Shrink.same ht rfl rfl rfl
  | notifySkip _ _ ih =>
    exact (Shrink.emit ht _).trans (ih (ht.emit _) trivial)
  | notifySend _ _ _ ih₁ ih₂ =>
    have h₁ := ih₁ ((ht.emit _).emit _) trivial
    exact ((Shrink.emit ht _).trans (Shrink.emit (ht.emit _) _)).trans (h₁.trans (ih₂ h₁.table trivial))
  | writeOk _ => exact Shrink.emit ht _
  | writeFail _ _ ih =>
    exact (Shrink.emit ht _).trans (ih (ht.emit _) ht.sessions.linked_sessionId.covers)

theorem writeServer_shrink (h : Table s) : Shrink s (s.writeServer env fd m).1 :=
  cascade_writeServer.shrink h trivial

theorem offlineAction_shrink (env : Env) (h : Table s) (hl : Covers s.pOnline confd id) :
    Shrink s (s.offlineAction env confd id) :=
  cascade_offlineAction.shrink h hl

/-- A failed read tears down what belongs to its descriptor. -/
theorem readServerFail_shrink (h : Table s) : Shrink s (s.readServerFail env fd) :=
  offlineAction_shrink env h h.sessions.linked_sessionId.covers

/-! ## Removed sessions are closed -/

/-- A cascade opens nothing. -/
theorem Cascade.opened (h : Cascade env c s s') : ∀ fd ∈ s'.opened, fd ∈ s.opened := by
  induction h with
  | offlineNeg _ => exact fun fd hfd => List.mem_of_mem_filter hfd
  | offlineRows _ _ _ _ ih₁ ih₂ => exact fun fd hfd => ih₁ fd (ih₂ fd (List.mem_of_mem_filter hfd))
  | offlineNoDb _ _ _ ih => exact fun fd hfd => ih fd (List.mem_of_mem_filter hfd)
  | notifyEnd => exact fun fd hfd => hfd
  | notifySkip _ _ ih => exact ih
  | notifySend _ _ _ ih₁ ih₂ => exact fun fd hfd => ih₁ fd (ih₂ fd hfd)
  | writeOk _ => exact fun fd hfd => hfd
  | writeFail _ _ ih => exact ih

namespace Closes

theorem same (hp : s'.pOnline = s.pOnline) : Closes s s' := fun _ hn hn' => absurd (hp ▸ hn) hn'

theorem trans (h₁ : Closes s s₁) (h₂ : Closes s₁ s₂) (ho : ∀ fd ∈ s₂.opened, fd ∈ s₁.opened) : Closes s s₂ := by
  intro n hn hn₂
  by_cases hn₁ : n ∈ s₁.pOnline.nodes
  · exact h₂ n hn₁ hn₂
  -- removed in the first part; what is closed there stays closed
  · exact fun h => h₁ n hn hn₁ (ho _ h)

/-- The end of `offline_action` closes the connection of the user that was cut out. -/
theorem close (hs : Sessions s.pOnline) (hl : Linked s.pOnline confd id) (h : Closes (cut env confd id s) s₁)
    (hp : s'.pOnline = s₁.pOnline) (ho : s'.opened = s₁.opened.filter (· ≠ confd)) : Closes s s' := by
  intro n hn hn' hfd
  rw [ho, List.mem_filter] at hfd
  rw [hp] at hn'
  by_cases hid : n.id = id
  -- the user that is cut out; everybody else is removed in between
  · have hconf : n.sockfd = confd := (hl n hn).2 hid
    simp [hconf] at hfd
  · exact h n (hs.mem_delList.2 ⟨hn, hid⟩) hn' hfd.1

end Closes

/-- **An aimed teardown closes the connections of the sessions it removes.** -/
theorem Cascade.closes (h : Cascade env c s s') (hs : Sessions s.pOnline) (ha : c.Aimed s) : Closes s s' := by
  induction h with
  | offlineNeg _ => exact Closes.same rfl
  | offlineRows _ _ hn hw ih₁ ih₂ =>
    have h₁ := ih₁ hs.delList trivial
    have h₂ := ih₂ (Sessions.sublist hs.delList hn.sublist) trivial
    exact (h₁.trans h₂ hw.opened).close hs ha rfl rfl
  | offlineNoDb _ _ _ ih => exact (ih hs.delList trivial).close hs ha rfl rfl
  | notifyEnd => exact Closes.same rfl
  | notifySkip _ _ ih => exact ih hs trivial
  | notifySend _ hw hn ih₁ ih₂ =>
    exact (ih₁ hs trivial).trans (ih₂ (hs.sublist hw.sublist) trivial) hn.opened
  | writeOk _ => exact Closes.same rfl
  | writeFail _ _ ih => exact ih hs hs.linked_sessionId

/-! ## The handlers -/

/-- **A walk shrinks the table**, when the teardowns it may call cover their descriptor. -/
theorem Walk.shrink {A : Allowed} (h : Walk env A s s') (ht : Table s)
    (hO : ∀ fd id, A.offline fd id → Covers s.pOnline fd id) : Shrink s s' := by
  induction h with
  | refl => exact Shrink.refl ht
  | tail _ hm ih =>
    refine ih.trans ?_
    cases hm with
    | emit _ => exact Shrink.emit ih.table _
    | query _ => exact Shrink.same ih.table rfl rfl rfl
    | write _ => exact writeServer_shrink ih.table
    | offline ho => exact offlineAction_shrink env ih.table ((hO _ _ ho).sublist ih.sublist)

/-- **A walk closes the connections of the sessions it removes**, when the teardowns it may
call are aimed at what belongs together. -/
theorem Walk.closes {A : Allowed} (h : Walk env A s s') (ht : Table s)
    (hO : ∀ fd id, A.offline fd id → Linked s.pOnline fd id) : Closes s s' := by
  induction h with
  | refl => exact Closes.same rfl
  | @tail s₁ s₂ hw hm ih =>
    have hs : Shrink s s₁ := Walk.shrink hw ht fun fd id ho => (hO fd id ho).covers
    cases hm with
    | emit _ => exact ih
    | query _ => exact ih
    | write _ => exact ih.trans (cascade_writeServer.closes hs.table.sessions trivial) cascade_writeServer.opened
    | offline ho =>
      have hl := (hO _ _ ho).sublist hs.sublist
      exact ih.trans (cascade_offlineAction.closes hs.table.sessions hl) cascade_offlineAction.opened

/-- The table with one more session, of a user and on a connection that had none. -/
theorem Table.addList {temp : OnlineNode} (h : Table s) (hid : ∀ n ∈ s.pOnline.nodes, n.id ≠ temp.id)
    (hfd : ∀ n ∈ s.pOnline.nodes, n.sockfd ≠ temp.sockfd) (hpos : 0 ≤ temp.id) (ho : temp.sockfd ∈ s.opened)
    (he : temp.sockfd ∈ s.epfd) : Table (s.addList temp) where
  sessions := h.sessions.addList hid hfd hpos
  opened := by
    intro n hn
    rcases List.mem_cons.1 hn with rfl | hn
    · exact ho
    · exact h.opened n hn
  watched := by
    intro n hn
    rcases List.mem_cons.1 hn with rfl | hn
    · exact he
    · exact h.watched n hn
  registered := h.registered

end UnixNote
