import UnixNote.Proof.Cascade

/-!
# Online lists with one session per user and per connection

`Sessions l`: ids are distinct and not negative, descriptors are distinct. Then the
two keys of the list name the same node (`Linked`), which is what makes tearing
down "the node with this descriptor" (`Write_server`, `Read_server`) and "the node
with this id" (`del_list` in `offline_action`) one thing.
-/

namespace UnixNote

/-- One session per user and per connection. -/
structure Sessions (l : OnlineList) : Prop where
  ids : Keyed.Distinct (fun n : Node => n.id) l.nodes
  fds : Keyed.Distinct (fun n : Node => n.sockfd) l.nodes
  nonneg : ∀ n ∈ l.nodes, 0 ≤ n.id

/-- Descriptor `fd` and user `id` belong to the same node, or to none. -/
def Linked (l : OnlineList) (fd id : Int) : Prop := ∀ n ∈ l.nodes, n.sockfd = fd ↔ n.id = id

namespace Sessions

variable {l l' : OnlineList} {fd id : Int} {n : Node} {s : Server}

theorem create : Sessions .create := ⟨Keyed.Distinct.nil, Keyed.Distinct.nil, by simp⟩

theorem sublist (h : Sessions l) (hs : l'.nodes.Sublist l.nodes) : Sessions l' :=
  ⟨h.ids.sublist hs, h.fds.sublist hs, fun n hn => h.nonneg n (hs.subset hn)⟩

theorem delList (h : Sessions l) : Sessions (l.delList id .byId) := h.sublist (OnlineList.delList_sublist _)

/-- Removing `id` leaves the nodes with another id. -/
theorem delList_nodes (h : Sessions l) :
    (l.delList id .byId).nodes = l.nodes.filter (fun n => n.id ≠ id) :=
  h.ids.eraseP_eq_filter

theorem mem_delList (h : Sessions l) : n ∈ (l.delList id .byId).nodes ↔ n ∈ l.nodes ∧ n.id ≠ id :=
  h.ids.mem_eraseP

/-- A new session of a user and on a connection that have none. -/
theorem addList (h : Sessions l) {temp : OnlineNode} (hid : ∀ n ∈ l.nodes, n.id ≠ temp.id)
    (hfd : ∀ n ∈ l.nodes, n.sockfd ≠ temp.sockfd) (hpos : 0 ≤ temp.id) : Sessions (l.addList temp) where
  ids := h.ids.cons hid
  fds := h.fds.cons hfd
  nonneg := by
    intro n hn
    rcases List.mem_cons.1 hn with rfl | hn
    · exact hpos
    · exact h.nonneg n hn

/-- A node is linked to its own two keys. -/
theorem linked (h : Sessions l) (hn : n ∈ l.nodes) : Linked l n.sockfd n.id := by
  intro m hm
  constructor
  · intro he; rw [h.fds.eq hm hn he]
  · intro he; rw [h.ids.eq hm hn he]

/-- A descriptor without a node is linked to -1. -/
theorem linked_none (h : Sessions l) (hfd : ∀ n ∈ l.nodes, n.sockfd ≠ fd) (hid : id < 0) : Linked l fd id := by
  intro n hn
  have := h.nonneg n hn
  constructor
  · intro he; exact absurd he (hfd n hn)
  · intro he; omega

/-- **The lookup by descriptor finds the id to tear down.** -/
theorem linked_sessionId (h : Sessions s.pOnline) : Linked s.pOnline fd (s.sessionId fd) := by
  unfold Server.sessionId
  cases hp : s.pOnline.searchList fd .bySockfd with
  -- the id -1 belongs to nobody
  | none => exact h.linked_none (OnlineList.searchSockfd_none.1 hp) (by decide)
  | some p =>
    obtain ⟨hmem, rfl⟩ := OnlineList.searchSockfd_some hp
    exact h.linked hmem

/-- The lookup by descriptor returns a user of the list, or -1. -/
theorem sessionId_mem (hpos : 0 ≤ s.sessionId fd) : ∃ n ∈ s.pOnline.nodes, n.id = s.sessionId fd := by
  unfold Server.sessionId at hpos ⊢
  cases hp : s.pOnline.searchList fd .bySockfd with
  | none => rw [hp] at hpos; exact absurd hpos (by decide)
  | some p => exact ⟨p, (OnlineList.searchSockfd_some hp).1, rfl⟩

end Sessions

end UnixNote
