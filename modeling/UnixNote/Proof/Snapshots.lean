import UnixNote.TcpUdp.Network
import UnixNote.Proof.Identifiers

/-!
# The snapshots of the server's list

A record says with its own `next` whether it is the last of its snapshot, and nothing says where
one starts. The records read and those on their way are the snapshots sent (`Follows`), whatever
joins and leaves there were and however far behind a client is.

* `writeCli_spec`, `addressed_spec`: a `write_cli` sends the whole list to every connection of it.
* `receive_spec`: the list of a client is what its call has read, backwards.
* `Inv.step`: what holds between the server and its clients, for each action.
* `snapshots_aligned`: a client that has read everything has the server's list.
-/

namespace UnixNote.TcpUdp

open Delimited (Reader Follows)

variable {H : Heap CNode} {phead pnode : Nat} {x : CNode} {xs ys : List (Nat × CNode)} {c : Cell CNode}
  {s s' : Net} {fd : Int} {ws : List (Int × Cell CNode)} {sent : List (List (Cell CNode))}
  {pending : List (Cell CNode)} {cl : Client} {con con' : Con} {ptemp : Cell CNode}

/-! ## A list as a snapshot -/

/-- The descriptors along a list. -/
def fds (xs : List (Nat × CNode)) : List Int := xs.map fun y => y.2.sockfd

theorem links_val (xs : List (Nat × CNode)) : (Heap.links xs).map Cell.val = xs.map Prod.snd := by
  induction xs with
  | nil => rfl
  | cons y xs ih => simp only [Heap.links, List.map_cons, ih]

/-- Only the last node points to nothing. -/
theorem links_frame (h : xs ≠ []) : Delimited.Frame Ends (Heap.links xs) := by
  induction xs with
  | nil => exact absurd rfl h
  | cons y xs ih =>
    cases xs with
    | nil => exact ⟨[], ⟨y.2, none⟩, rfl, rfl, fun _ hc => (List.not_mem_nil hc).elim⟩
    | cons z xs =>
      obtain ⟨init, last, he, hlast, hinit⟩ := ih (List.cons_ne_nil _ _)
      refine ⟨⟨y.2, some z.1⟩ :: init, last, ?_, hlast, fun c hc => ?_⟩
      · rw [Heap.links, he]
        rfl
      · rcases List.mem_cons.1 hc with rfl | hc
        · simp [Ends]
        · exact hinit c hc

/-- The writes of `write_cli`: all records for each connection. -/
def writes (heads heads2 : List (Cell CNode)) : List (Int × Cell CNode) :=
  heads2.flatMap fun head2 => heads.map fun head => (head2.val.sockfd, head)

theorem writeCli_spec (h : H.IsList phead xs) :
    Server.writeCli H phead = some (writes (Heap.links xs) (Heap.links xs)) := by
  obtain ⟨x₀, -, p, hr, hc⟩ := h.chain
  have hwalk : H.walk H.size p = some (Heap.links xs) := Heap.walk_spec hc (by rw [h.size]; omega)
  simp only [Server.writeCli, hr, hwalk, Option.bind_eq_bind, Option.bind_some]
  rfl

theorem addressed_append (ws ws' : List (Int × Cell CNode)) :
    addressed fd (ws ++ ws') = addressed fd ws ++ addressed fd ws' := by
  simp only [addressed, List.filter_append, List.map_append]

theorem addressed_map {k : Int} {heads : List (Cell CNode)} :
    addressed fd (heads.map fun head => (k, head)) = if k = fd then heads else [] := by
  induction heads with
  | nil => simp [addressed]
  | cons c heads ih =>
    have hsplit : addressed fd ((c :: heads).map fun head => (k, head)) =
        addressed fd [(k, c)] ++ addressed fd (heads.map fun head => (k, head)) := addressed_append [(k, c)] _
    rw [hsplit, ih]
    by_cases hk : k = fd
    · simp [addressed, hk]
    · simp [addressed, hk]

/-- A connection of the list gets all records, another one none. -/
theorem addressed_writes {heads heads2 : List (Cell CNode)} (hn : (heads2.map fun c => c.val.sockfd).Nodup) :
    addressed fd (writes heads heads2) = if fd ∈ heads2.map (fun c => c.val.sockfd) then heads else [] := by
  induction heads2 with
  | nil => rfl
  | cons c heads2 ih =>
    obtain ⟨hc, hn⟩ := List.nodup_cons.1 hn
    have hsplit : writes heads (c :: heads2) =
        (heads.map fun head => (c.val.sockfd, head)) ++ writes heads heads2 := rfl
    rw [hsplit, addressed_append, addressed_map, ih hn]
    by_cases hfd : c.val.sockfd = fd
    · subst hfd
      rw [if_pos rfl, if_neg hc, if_pos (by rw [List.map_cons]; exact List.mem_cons_self), List.append_nil]
    · rw [if_neg hfd, List.nil_append]
      simp only [List.map_cons, List.mem_cons, Ne.symm hfd, false_or]

theorem addressed_spec (hn : (fds xs).Nodup) :
    addressed fd (writes (Heap.links xs) (Heap.links xs)) = if fd ∈ fds xs then Heap.links xs else [] := by
  have hmap : (Heap.links xs).map (fun c => c.val.sockfd) = fds xs := by
    have := congrArg (List.map CNode.sockfd) (links_val xs)
    simpa [fds, Function.comp_def] using this
  rw [addressed_writes (by rwa [hmap]), hmap]

/-! ## Clients -/

/-- The records that a client's list is made of: those of its call, or of the last one. -/
def shown (r : Reader (Cell CNode)) : List (Cell CNode) := if r.got = [] then r.runs.getLast?.getD [] else r.got

theorem shown_next {r : Reader (Cell CNode)} : shown (r.next Ends c) = r.got ++ [c] := by
  by_cases hc : Ends c
  · simp [shown, Reader.next, hc]
  · simp [shown, Reader.next, hc]

/-- The list of a client is what it has read, backwards. -/
structure Shows (con : Con) : Prop where
  flag : con.flag = true ↔ con.log.got = []
  list : ∃ ys, con.heap.IsList con.phead ys ∧ ys.map Prod.snd = ((shown con.log).map Cell.val).reverse

theorem Shows.main : Shows (.main c phead x) := ⟨by simp [Con.main], [], Heap.create_isList, rfl⟩

/-- The list that the next record is added to: what this call has read. -/
theorem Shows.cleared (h : Shows con) :
    ∃ H ys, con.cleared = some H ∧ H.IsList con.phead ys ∧
      ys.map Prod.snd = (con.log.got.map Cell.val).reverse ∧ ∀ a, a ∉ con.heap.cells → a ∉ H.cells := by
  obtain ⟨ys, hl, hys⟩ := h.list
  by_cases hf : con.flag = true
  · obtain ⟨H, he, hl', -⟩ := Heap.clear_spec hl
    have hsub : ∀ a, a ∉ con.heap.cells → a ∉ H.cells := by
      intro a ha hm
      have : a = con.phead := by simpa using (hl'.live a).1 hm
      exact ha ((hl.live a).2 (this ▸ List.mem_cons_self))
    refine ⟨H, [], by rw [Con.cleared, if_pos hf, he], hl', ?_, hsub⟩
    rw [h.flag.1 hf]
    rfl
  · have hgot : con.log.got ≠ [] := fun hg => hf (h.flag.2 hg)
    refine ⟨con.heap, ys, by rw [Con.cleared, if_neg hf], hl, ?_, fun _ ha => ha⟩
    rw [hys, shown, if_neg hgot]

/-- **One record.** -/
theorem receive_spec (h : Shows con) (hp : pnode ∉ con.heap.cells) :
    ∃ con', con.receiveFromServer pnode c = some con' := by
  obtain ⟨H, ys, he, hl, -, hsub⟩ := h.cleared
  obtain ⟨H', he', -⟩ := Heap.push_spec (c := c) hl (hsub _ hp)
  refine ⟨{ con with heap := H', flag := decide (Ends c), log := con.log.next Ends c }, ?_⟩
  simp only [Con.receiveFromServer, he, Option.bind_eq_bind, Option.bind_some, if_neg (hsub _ hp), he']

theorem Shows.receive (h : Shows con) (hs : con.receiveFromServer pnode c = some con') :
    Shows con' ∧ con'.log = con.log.next Ends c ∧ con'.mycnode = con.mycnode := by
  obtain ⟨H, ys, he, hl, hys, -⟩ := h.cleared
  simp only [Con.receiveFromServer, he, Option.bind_eq_bind, Option.bind_some] at hs
  split at hs
  · cases hs
  · rename_i hp
    obtain ⟨H', he', hl', -⟩ := Heap.push_spec (c := c) hl hp
    rw [he', Option.bind_some] at hs
    obtain rfl := Option.some.inj hs
    refine ⟨⟨?_, _, hl', ?_⟩, rfl, rfl⟩
    · by_cases hc : Ends c
      · simp [Reader.next, hc]
      · simp [Reader.next, hc]
    · rw [shown_next, List.map_append, List.reverse_append, List.map_cons, hys]
      rfl

/-! ## One connection -/

/-- What a client has read and what is on its way are the snapshots for it, after its own record. -/
def Aligned (sent : List (List (Cell CNode))) (pending : List (Cell CNode)) : Client → Prop
  | .main => (∀ t ∈ sent, Delimited.Frame Ends t) ∧ ∃ c, pending = c :: sent.flatten
  | .serverCon con => Follows Ends sent pending con.log ∧ Shows con

/-- The first record on the connection: read, or the next one. -/
def Client.first (pending : List (Cell CNode)) : Client → Option (Cell CNode)
  | .main => pending.head?
  | .serverCon con => some con.mycnode

/-- One more snapshot. -/
theorem Aligned.send {t : List (Cell CNode)} (h : Aligned sent pending cl) (ht : Delimited.Frame Ends t) :
    Aligned (sent ++ [t]) (pending ++ t) cl := by
  cases cl with
  | main =>
    obtain ⟨hf, c, rfl⟩ := h
    refine ⟨fun u hu => ?_, c, by simp⟩
    rcases List.mem_append.1 hu with hu | hu
    · exact hf u hu
    · rw [List.mem_singleton.1 hu]
      exact ht
  | serverCon con => exact ⟨h.1.send ht, h.2⟩

/-- A record that comes later is not the first. -/
theorem Aligned.first_append {t : List (Cell CNode)} (h : Aligned sent pending cl) :
    cl.first (pending ++ t) = cl.first pending := by
  cases cl with
  | main =>
    obtain ⟨-, c, rfl⟩ := h
    rfl
  | serverCon con => rfl

theorem Aligned.connect (h : Aligned sent (c :: pending) .main) :
    Aligned sent pending (.serverCon (.main c phead x)) := by
  obtain ⟨hf, d, he⟩ := h
  obtain ⟨-, rfl⟩ := List.cons.inj he
  exact ⟨.start hf, .main⟩

theorem Aligned.read (h : Aligned sent (c :: pending) (.serverCon con))
    (hs : con.receiveFromServer pnode c = some con') : Aligned sent pending (.serverCon con') := by
  obtain ⟨hshow, hlog, -⟩ := h.2.receive hs
  refine ⟨?_, hshow⟩
  rw [hlog]
  exact h.1.next

/-- A client with nothing on its way has read all snapshots and shows the last one. -/
theorem Aligned.done (h : Aligned sent [] cl) :
    ∃ con, cl = .serverCon con ∧ con.flag = true ∧ con.log.runs = sent ∧
      ∃ ys, con.heap.IsList con.phead ys ∧
        ys.map Prod.snd = (((sent.getLast?.getD []).map Cell.val).reverse) := by
  cases cl with
  | main =>
    obtain ⟨-, c, he⟩ := h
    cases he
  | serverCon con =>
    obtain ⟨hfollow, hflag, ys, hl, hys⟩ := h
    obtain ⟨hgot, hruns⟩ := hfollow.done
    refine ⟨con, rfl, hflag.2 hgot, hruns, ys, hl, ?_⟩
    rw [hys, shown, if_pos hgot, hruns]

/-! ## The network -/

/-- What holds between the server's list `xs` and the clients. -/
structure Inv (s : Net) (xs : List (Nat × CNode)) : Prop where
  list : s.heap.IsList s.phead xs
  distinct : (fds xs).Nodup
  epoll : s.epoll = fds xs
  new : ∀ fd, s.client fd = none → s.pending fd = [] ∧ s.sent fd = [] ∧ fd ∉ fds xs
  aligned : ∀ fd cl, s.client fd = some cl → Aligned (s.sent fd) (s.pending fd) cl
  current : ∀ fd ∈ fds xs, (s.sent fd).getLast? = some (Heap.links xs)
  own : ∀ y ∈ xs, ∀ cl, s.client y.2.sockfd = some cl → ∃ c, cl.first (s.pending y.2.sockfd) = some c ∧ c.val = y.2

theorem Inv.start : Inv (Net.start phead x) [] where
  list := Heap.create_isList
  distinct := List.nodup_nil
  epoll := rfl
  new _ _ := ⟨rfl, rfl, List.not_mem_nil⟩
  aligned _ _ h := by cases h
  current _ h := (List.not_mem_nil h).elim
  own _ h := (List.not_mem_nil h).elim

theorem mem_fds {y : Nat × CNode} (hy : y ∈ xs) : y.2.sockfd ∈ fds xs := List.mem_map_of_mem hy

/-- The snapshots for a connection after a `write_cli`. -/
theorem snapshots_spec {sent : Int → List (List (Cell CNode))} (hn : (fds xs).Nodup) :
    snapshots sent (writes (Heap.links xs) (Heap.links xs)) fd =
      if fd ∈ fds xs then sent fd ++ [Heap.links xs] else sent fd := by
  rw [snapshots, addressed_spec hn]
  by_cases hfd : fd ∈ fds xs
  · have hne : Heap.links xs ≠ [] := by
      cases xs with
      | nil => cases hfd
      | cons y xs => exact List.cons_ne_nil _ _
    rw [if_pos hfd, if_neg hne, if_pos hfd]
  · rw [if_neg hfd, if_pos rfl, if_neg hfd]

/-- A client keeps up with a `write_cli`, whether it is in the list or not. -/
theorem Aligned.announce {sent : Int → List (List (Cell CNode))} (hn : (fds xs).Nodup)
    (h : Aligned (sent fd) pending cl) :
    Aligned (snapshots sent (writes (Heap.links xs) (Heap.links xs)) fd)
      (pending ++ addressed fd (writes (Heap.links xs) (Heap.links xs))) cl := by
  rw [snapshots_spec hn, addressed_spec hn]
  by_cases hfd : fd ∈ fds xs
  · rw [if_pos hfd, if_pos hfd]
    refine h.send (links_frame ?_)
    rintro rfl
    cases hfd
  · rw [if_neg hfd, if_neg hfd, List.append_nil]
    exact h

/-! ## Steps -/

/-- The writes do not change what a client will have been sent. -/
theorem Inv.congr (h : Inv s xs) (hheap : s'.heap = s.heap) (hphead : s'.phead = s.phead)
    (hepoll : s'.epoll = s.epoll) (hclient : s'.client = s.client) (hsent : s'.sent = s.sent)
    (hpending : ∀ fd, s'.pending fd = s.pending fd) : Inv s' xs where
  list := by
    rw [hheap, hphead]
    exact h.list
  distinct := h.distinct
  epoll := hepoll.trans h.epoll
  new fd hfd := by
    rw [hpending, hsent]
    exact h.new fd (hclient ▸ hfd)
  aligned fd cl hcl := by
    rw [hpending, hsent]
    exact h.aligned fd cl (hclient ▸ hcl)
  current := by
    rw [hsent]
    exact h.current
  own y hy cl hcl := by
    rw [hpending]
    exact h.own y hy cl (hclient ▸ hcl)

/-- The server's part of a join or a leave: a new list, and `write_cli`. -/
def Net.announced (s : Net) (H : Heap CNode) (xs : List (Nat × CNode)) : Net :=
  { s with
    heap := H
    epoll := fds xs
    out := writes (Heap.links xs) (Heap.links xs)
    sent := snapshots s.sent (writes (Heap.links xs) (Heap.links xs)) }

/-- **A `write_cli` keeps every client in step**, on whatever list it is. -/
theorem Inv.announced (hl : H.IsList s.phead xs) (hd : (fds xs).Nodup)
    (hnew : ∀ fd, s.client fd = none → s.chan fd = [] ∧ s.sent fd = [] ∧ fd ∉ fds xs)
    (hal : ∀ fd cl, s.client fd = some cl → Aligned (s.sent fd) (s.chan fd) cl)
    (hown : ∀ y ∈ xs, ∀ cl, s.client y.2.sockfd = some cl →
      ∃ c, cl.first (s.chan y.2.sockfd) = some c ∧ c.val = y.2) : Inv (s.announced H xs) xs where
  list := hl
  distinct := hd
  epoll := rfl
  new fd hfd := by
    obtain ⟨hchan, hsent, hm⟩ := hnew fd hfd
    refine ⟨?_, ?_, hm⟩
    · show s.chan fd ++ addressed fd (writes (Heap.links xs) (Heap.links xs)) = []
      rw [hchan, addressed_spec hd, if_neg hm]
      rfl
    · show snapshots s.sent _ fd = []
      rw [snapshots_spec hd, if_neg hm, hsent]
  aligned fd cl hcl := (hal fd cl hcl).announce hd
  current fd hfd := by
    show (snapshots s.sent _ fd).getLast? = _
    rw [snapshots_spec hd, if_pos hfd, List.getLast?_concat]
  own y hy cl hcl := by
    obtain ⟨c, hc, hv⟩ := hown y hy cl hcl
    exact ⟨c, ((hal _ cl hcl).first_append).trans hc, hv⟩

/-- Nothing is left to write when the server takes the next event. -/
theorem pending_eq_chan (hout : s.out = []) : s.pending fd = s.chan fd := by
  rw [Net.pending, hout]
  exact List.append_nil _

/-- A join returns: the new client is in front, and its own record is written before the snapshots. -/
theorem Inv.join_eq (h : Inv s xs) (hout : s.out = []) (hnew : s.client ptemp.val.sockfd = none)
    (hp : pnode ∉ s.heap.cells) :
    ∃ H v c, H.IsList s.phead ((pnode, v) :: xs) ∧ v = (Server.withId ptemp (Server.nextId xs)).val ∧ c.val = v ∧
      s.join ptemp pnode = some { s.announced H ((pnode, v) :: xs) with
        out := (v.sockfd, c) :: (s.announced H ((pnode, v) :: xs)).out
        client := Function.update s.client v.sockfd (some .main) } := by
  obtain ⟨H, he, hl⟩ := Server.addList_spec ptemp h.list hp
  have hws := writeCli_spec hl
  obtain ⟨x₀, -, p, hr, rfl, n, hr', -⟩ := hl.chain
  have hguard : ¬ (s.out ≠ [] ∨ (s.client ptemp.val.sockfd).isSome = true ∨ pnode ∈ s.heap.cells) := by
    rintro (hne | hsome | hm)
    · exact hne hout
    · rw [hnew] at hsome
      cases hsome
    · exact hp hm
  refine ⟨H, _, ⟨(Server.withId ptemp (Server.nextId xs)).val, n⟩, hl, rfl, rfl, ?_⟩
  simp only [Net.join, if_neg hguard, he, hr, hr', hws, Option.bind_eq_bind, Option.bind_some, h.epoll]
  rfl

theorem erase_fds : (fds xs).erase fd = fds (xs.eraseP fun y => y.2.sockfd = fd) := by
  rw [fds, List.erase_eq_eraseP, List.eraseP_map]
  congr 2
  funext y
  rw [Function.comp_apply, Bool.eq_iff_iff, beq_iff_eq, decide_eq_true_eq]
  exact eq_comm

theorem Inv.leave_eq (h : Inv s xs) (hout : s.out = []) (hfd : fd ∈ s.epoll) :
    ∃ H, H.IsList s.phead (xs.eraseP fun y => y.2.sockfd = fd) ∧
      s.leave fd = some (s.announced H (xs.eraseP fun y => y.2.sockfd = fd)) := by
  obtain ⟨H, he, hl⟩ := Server.delList_spec fd h.list
  have hguard : ¬ (s.out ≠ [] ∨ fd ∉ s.epoll) := by
    rintro (hne | hm)
    · exact hne hout
    · exact hm hfd
  refine ⟨H, hl, ?_⟩
  simp only [Net.leave, if_neg hguard, he, writeCli_spec hl, Option.bind_eq_bind, Option.bind_some]
  rw [h.epoll, erase_fds]
  rfl

theorem Inv.join (h : Inv s xs) (hs : s.join ptemp pnode = some s') : ∃ xs', Inv s' xs' := by
  by_cases hguard : s.out ≠ [] ∨ (s.client ptemp.val.sockfd).isSome = true ∨ pnode ∈ s.heap.cells
  · simp only [Net.join, if_pos hguard] at hs
    cases hs
  simp only [not_or, not_not, Bool.not_eq_true, Option.isSome_eq_false_iff, Option.isNone_iff_eq_none] at hguard
  obtain ⟨hout, hnew, hp⟩ := hguard
  obtain ⟨H, v, c, hl, hv, hc, he⟩ := h.join_eq hout hnew hp
  obtain rfl := Option.some.inj (he.symm.trans hs)
  have hsockfd : v.sockfd = ptemp.val.sockfd := by rw [hv]; rfl
  rw [← hsockfd] at hnew
  obtain ⟨hpend, hsent, hfresh⟩ := h.new _ hnew
  rw [pending_eq_chan hout] at hpend
  -- as if the client's own record had been written before the snapshots were made
  have hinv : Inv (Net.announced { s with
      chan := Function.update s.chan v.sockfd [c]
      client := Function.update s.client v.sockfd (some .main) } H ((pnode, v) :: xs)) ((pnode, v) :: xs) := by
    refine .announced hl (List.nodup_cons.2 ⟨hfresh, h.distinct⟩) (fun fd hfd => ?_) (fun fd cl hcl => ?_)
      (fun y hy cl hcl => ?_)
    · by_cases hfv : fd = v.sockfd
      · subst hfv
        simp at hfd
      · simp only [Function.update_of_ne hfv] at hfd ⊢
        obtain ⟨h₁, h₂, h₃⟩ := h.new fd hfd
        rw [pending_eq_chan hout] at h₁
        refine ⟨h₁, h₂, fun hm => ?_⟩
        rcases List.mem_cons.1 hm with he | hm
        · exact hfv he
        · exact h₃ hm
    · by_cases hfv : fd = v.sockfd
      · subst hfv
        simp only [Function.update_self, Option.some.injEq] at hcl ⊢
        subst hcl
        rw [hsent]
        exact ⟨fun _ ht => (List.not_mem_nil ht).elim, c, rfl⟩
      · simp only [Function.update_of_ne hfv] at hcl ⊢
        rw [← pending_eq_chan hout]
        exact h.aligned fd cl hcl
    · rcases List.mem_cons.1 hy with rfl | hy
      · simp only [Function.update_self, Option.some.injEq] at hcl ⊢
        subst hcl
        exact ⟨c, rfl, hc⟩
      · have hfv : y.2.sockfd ≠ v.sockfd := fun he => hfresh (he ▸ mem_fds hy)
        simp only [Function.update_of_ne hfv] at hcl ⊢
        rw [← pending_eq_chan hout]
        exact h.own y hy cl hcl
  refine ⟨_, hinv.congr rfl rfl rfl rfl rfl fun fd => ?_⟩
  show s.chan fd ++ addressed fd ((v.sockfd, c) :: _) = Function.update s.chan v.sockfd [c] fd ++ _
  by_cases hfv : fd = v.sockfd
  · subst hfv
    simp [addressed, hpend, Net.announced]
  · simp [addressed, hfv, Ne.symm hfv, Net.announced]

theorem Inv.leave (h : Inv s xs) (hs : s.leave fd = some s') : ∃ xs', Inv s' xs' := by
  by_cases hguard : s.out ≠ [] ∨ fd ∉ s.epoll
  · simp only [Net.leave, if_pos hguard] at hs
    cases hs
  simp only [not_or, not_not] at hguard
  obtain ⟨hout, hfd⟩ := hguard
  obtain ⟨H, hl, he⟩ := h.leave_eq hout hfd
  obtain rfl := Option.some.inj (he.symm.trans hs)
  have hsub : (xs.eraseP fun y => y.2.sockfd = fd).Sublist xs := List.eraseP_sublist
  have hfds : (fds (xs.eraseP fun y => y.2.sockfd = fd)).Sublist (fds xs) := hsub.map _
  refine ⟨_, .announced hl (h.distinct.sublist hfds) (fun fd' hfd' => ?_) (fun fd' cl hcl => ?_)
    (fun y hy cl hcl => ?_)⟩
  · obtain ⟨h₁, h₂, h₃⟩ := h.new fd' hfd'
    rw [pending_eq_chan hout] at h₁
    exact ⟨h₁, h₂, fun hm => h₃ (hfds.subset hm)⟩
  · rw [← pending_eq_chan hout]
    exact h.aligned fd' cl hcl
  · rw [← pending_eq_chan hout]
    exact h.own y (hsub.subset hy) cl hcl

theorem Inv.write (h : Inv s xs) (hs : s.write = some s') : Inv s' xs := by
  simp only [Net.write] at hs
  split at hs
  · cases hs
  · rename_i fd c ws hout
    obtain rfl := Option.some.inj hs
    refine h.congr rfl rfl rfl rfl rfl fun fd' => ?_
    simp only [Net.pending, hout]
    by_cases hfd : fd' = fd
    · subst hfd
      simp [addressed]
    · simp [addressed, hfd, Ne.symm hfd]

/-- A client reads a record: the other connections are as they were. -/
theorem Inv.read_one {cs : List (Cell CNode)} {cl' : Client} (h : Inv s xs) (hcl : s.client fd = some cl)
    (hchan : s.chan fd = c :: cs)
    (hal : ∀ p, Aligned (s.sent fd) (c :: p) cl → Aligned (s.sent fd) p cl')
    (hown : ∀ p, cl'.first p = cl.first (c :: p)) :
    Inv { s with
      chan := Function.update s.chan fd cs
      client := Function.update s.client fd (some cl') } xs := by
  have hpend : s.pending fd = c :: (cs ++ addressed fd s.out) := by rw [Net.pending, hchan]; rfl
  refine ⟨h.list, h.distinct, h.epoll, fun fd' hfd' => ?_, fun fd' cl₁ hcl₁ => ?_, h.current,
    fun y hy cl₁ hcl₁ => ?_⟩
  · by_cases he : fd' = fd
    · subst he
      simp at hfd'
    · simp only [Function.update_of_ne he, Net.pending] at hfd' ⊢
      exact h.new fd' hfd'
  · by_cases he : fd' = fd
    · subst he
      simp only [Function.update_self, Option.some.injEq, Net.pending] at hcl₁ ⊢
      subst hcl₁
      exact hal _ (hpend ▸ h.aligned fd' cl hcl)
    · simp only [Function.update_of_ne he, Net.pending] at hcl₁ ⊢
      exact h.aligned fd' cl₁ hcl₁
  · by_cases he : y.2.sockfd = fd
    · subst he
      simp only [Function.update_self, Option.some.injEq, Net.pending] at hcl₁ ⊢
      subst hcl₁
      rw [hown, ← hpend]
      exact h.own y hy cl hcl
    · simp only [Function.update_of_ne he, Net.pending] at hcl₁ ⊢
      exact h.own y hy cl₁ hcl₁

theorem Inv.connect (h : Inv s xs) (hs : s.connect fd phead x = some s') : Inv s' xs := by
  simp only [Net.connect] at hs
  split at hs
  · rename_i c cs hcl hchan
    obtain rfl := Option.some.inj hs
    exact h.read_one hcl hchan (fun p hal => hal.connect) fun p => rfl
  · cases hs

theorem Inv.read (h : Inv s xs) (hs : s.read fd pnode = some s') : Inv s' xs := by
  simp only [Net.read] at hs
  split at hs
  · rename_i con c cs hcl hchan
    cases hr : con.receiveFromServer pnode c with
    | none =>
      rw [hr] at hs
      cases hs
    | some con' =>
      rw [hr] at hs
      obtain rfl := Option.some.inj hs
      refine h.read_one hcl hchan (fun p hal => hal.read hr) fun p => ?_
      have hmine := ((h.aligned fd _ hcl).2.receive hr).2.2
      exact congrArg some hmine
  · cases hs

/-- **One step.** -/
theorem Inv.step {a : Act} (h : Inv s xs) (hs : s.step a = some s') : ∃ xs', Inv s' xs' := by
  cases a with
  | join ptemp pnode => exact h.join hs
  | leave fd => exact h.leave hs
  | write => exact ⟨xs, h.write hs⟩
  | connect fd phead x => exact ⟨xs, h.connect hs⟩
  | read fd pnode => exact ⟨xs, h.read hs⟩

theorem inv_run {tr : List (Net × Act)} (hr : (lts phead x).Run (fun _ _ => True) tr s) : ∃ xs, Inv s xs := by
  refine hr.invariant (I := fun s => ∃ xs, Inv s xs) ?_ ?_
  · rintro s rfl
    exact ⟨[], .start⟩
  · rintro s a s' ⟨xs, h⟩ _ hs
    exact h.step hs

/-- What can happen next: an event when the writes of the last one are made, the next write, a read
of a record that is there. `malloc` returns an address that is not in use. -/
def Net.Possible (s : Net) : Act → Prop
  | .join ptemp pnode => s.out = [] ∧ s.client ptemp.val.sockfd = none ∧ pnode ∉ s.heap.cells
  | .leave fd => s.out = [] ∧ fd ∈ s.epoll
  | .write => s.out ≠ []
  | .connect fd _ _ => s.client fd = some .main ∧ s.chan fd ≠ []
  | .read fd pnode => ∃ con, s.client fd = some (.serverCon con) ∧ pnode ∉ con.heap.cells ∧ s.chan fd ≠ []

/-- The server's list after an action. -/
def Act.listed (xs : List (Nat × CNode)) : Act → List (Nat × CNode)
  | .join ptemp pnode => (pnode, (Server.withId ptemp (Server.nextId xs)).val) :: xs
  | .leave fd => xs.eraseP fun y => y.2.sockfd = fd
  | .write | .connect _ _ _ | .read _ _ => xs

/-- No step touches memory that is not live, and the server adds and removes the node of the event. -/
theorem Inv.progress {a : Act} (h : Inv s xs) (ha : s.Possible a) :
    ∃ s', s.step a = some s' ∧ s'.heap.IsList s'.phead (a.listed xs) := by
  cases a with
  | join ptemp pnode =>
    obtain ⟨hout, hnew, hp⟩ := ha
    obtain ⟨H, v, c, hl, rfl, -, he⟩ := h.join_eq hout hnew hp
    exact ⟨_, he, hl⟩
  | leave fd =>
    obtain ⟨H, hl, he⟩ := h.leave_eq ha.1 ha.2
    exact ⟨_, he, hl⟩
  | write =>
    obtain ⟨w, ws, hout⟩ := List.exists_cons_of_ne_nil ha
    simp only [Net.step, Net.write, hout]
    exact ⟨_, rfl, h.list⟩
  | connect fd phead x =>
    obtain ⟨hcl, hchan⟩ := ha
    obtain ⟨c, cs, hchan⟩ := List.exists_cons_of_ne_nil hchan
    simp only [Net.step, Net.connect, hcl, hchan]
    exact ⟨_, rfl, h.list⟩
  | read fd pnode =>
    obtain ⟨con, hcl, hp, hchan⟩ := ha
    obtain ⟨c, cs, hchan⟩ := List.exists_cons_of_ne_nil hchan
    obtain ⟨con', hr⟩ := receive_spec (c := c) (h.aligned fd _ hcl).2 hp
    simp only [Net.step, Net.read, hcl, hchan, hr, Option.bind_eq_bind, Option.bind_some]
    exact ⟨_, rfl, h.list⟩

/-- A client that has read everything: its list is the server's backwards, and its own id is in it. -/
theorem Inv.caught_up (h : Inv s xs) (hfd : fd ∈ s.epoll) (hp : s.pending fd = []) :
    ∃ con ys, s.client fd = some (.serverCon con) ∧ con.heap.IsList con.phead ys ∧
      ys.map Prod.snd = (xs.map Prod.snd).reverse ∧ con.log.runs = s.sent fd ∧ con.myid ∈ Server.ids ys := by
  rw [h.epoll] at hfd
  cases hcl : s.client fd with
  | none => exact absurd hfd (h.new fd hcl).2.2
  | some cl =>
    have hal := h.aligned fd cl hcl
    rw [hp] at hal
    obtain ⟨con, rfl, -, hruns, ys, hl, hys⟩ := hal.done
    rw [h.current fd hfd, Option.getD_some, links_val] at hys
    refine ⟨con, ys, rfl, hl, hys, hruns, ?_⟩
    obtain ⟨y, hy, rfl⟩ := List.mem_map.1 hfd
    obtain ⟨c, hc, hv⟩ := h.own y hy _ hcl
    obtain rfl : con.mycnode = c := Option.some.inj hc
    have hmem : y.2 ∈ ys.map Prod.snd := by
      rw [hys, List.mem_reverse]
      exact List.mem_map_of_mem hy
    obtain ⟨z, hz, he⟩ := List.mem_map.1 hmem
    refine List.mem_map.2 ⟨z, hz, ?_⟩
    rw [Con.myid, hv, he]

/-- **The snapshot protocol.** In every state of every run: a connected client with nothing on its way
has the entries of the server's list, backwards, its own id among them; the record a client read
first is the server's entry for it; every finished call of `receive_from_server` has read one
snapshot, the one under way the front of the next; and what can happen next does: a join puts the client
in front of the list, a leave takes it out, and nothing else touches it. -/
theorem snapshots_aligned {tr : List (Net × Act)} (hr : (lts phead x).Run (fun _ _ => True) tr s) :
    ∃ xs, s.heap.IsList s.phead xs ∧ (fds xs).Nodup ∧ s.epoll = fds xs ∧
      (∀ fd ∈ s.epoll, s.pending fd = [] → ∃ con ys, s.client fd = some (.serverCon con) ∧
        con.heap.IsList con.phead ys ∧ ys.map Prod.snd = (xs.map Prod.snd).reverse ∧
        con.log.runs = s.sent fd ∧ con.myid ∈ Server.ids ys) ∧
      (∀ y ∈ xs, ∀ con, s.client y.2.sockfd = some (.serverCon con) → con.mycnode.val = y.2) ∧
      (∀ fd con, s.client fd = some (.serverCon con) → con.log.runs <+: s.sent fd ∧
        (con.log.got ≠ [] → ∃ t rest, s.sent fd = con.log.runs ++ t :: rest ∧ con.log.got <+: t)) ∧
      ∀ a, s.Possible a → ∃ s', s.step a = some s' ∧ s'.heap.IsList s'.phead (a.listed xs) := by
  obtain ⟨xs, h⟩ := inv_run hr
  refine ⟨xs, h.list, h.distinct, h.epoll, fun fd => h.caught_up, fun y hy con hcl => ?_, fun fd con hcl => ?_,
    fun a => h.progress⟩
  · obtain ⟨c, hc, hv⟩ := h.own y hy _ hcl
    obtain rfl : con.mycnode = c := Option.some.inj hc
    exact hv
  · obtain ⟨hfollow, -⟩ := h.aligned fd _ hcl
    obtain ⟨rest, hsent, -⟩ := hfollow.aligned
    exact ⟨⟨rest, hsent.symm⟩, hfollow.front⟩

/-- The network after an action. -/
def Net.after (s : Net) (a : Act) : Net := (s.step a).getD s

/-- Actions that can be taken one after the other are a run. -/
theorem run_after (as : List Act)
    (h : Lts.Script (fun s a => (s.step a).isSome = true) Net.after (Net.start phead x) as) :
    (lts phead x).Run (fun _ _ => True) (Lts.steps Net.after (Net.start phead x) as)
      (as.foldl Net.after (Net.start phead x)) := by
  have h₀ : (lts phead x).Run (fun _ _ => True) [] (Net.start phead x) := .start rfl
  refine h₀.script (fun s a hs => ⟨trivial, ?_⟩) as h
  have hne : s.step a ≠ none := Option.isSome_iff_ne_none.1 hs
  exact (Option.getD_of_ne_none hne s).symm

/-- Two clients join and the first one leaves; the second reads only then. -/
def lagging : List Act :=
  [.join (Server.fresh 5) 1, .write, .write, .join (Server.fresh 6) 2, .write, .write, .write, .write, .write,
    .leave 5, .write, .connect 6 0 (Server.fresh 0).val, .read 6 1, .read 6 2, .read 6 3]

theorem lagging_run : (lts 0 (Server.fresh 0).val).Run (fun _ _ => True)
    (Lts.steps Net.after (Net.start 0 (Server.fresh 0).val) lagging)
    (lagging.foldl Net.after (Net.start 0 (Server.fresh 0).val)) := run_after lagging (by decide)

theorem snapshots_aligned_lagging :
    ∃ xs, (lagging.foldl Net.after (Net.start 0 (Server.fresh 0).val)).heap.IsList 0 xs ∧
      ∃ (con : Con) (ys : List (Nat × CNode)),
        (lagging.foldl Net.after (Net.start 0 (Server.fresh 0).val)).client 6 = some (.serverCon con) ∧
        con.heap.IsList con.phead ys ∧ ys.map Prod.snd = (xs.map Prod.snd).reverse ∧ con.log.runs.length = 2 := by
  obtain ⟨xs, hl, _, _, hdone, _⟩ := snapshots_aligned lagging_run
  obtain ⟨con, ys, hclient, hys, hlist, hruns, _⟩ := hdone 6 (by decide) (by decide)
  exact ⟨xs, hl, con, ys, hclient, hys, hlist, by rw [hruns]; decide⟩

end UnixNote.TcpUdp
