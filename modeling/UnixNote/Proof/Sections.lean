import UnixNote.Chat.Concurrent
import UnixNote.Lib.Mutexes
import UnixNote.Lib.Splices
import UnixNote.Proof.Linklists

/-!
# The critical sections of the list
-/

namespace UnixNote.Concurrent

open Linklist

variable {ι : Type*} {phead a p : Nat} {i : ι} {b : Choice} {l l' : Pc} {s s' : Shared ι} {H H' : Heap OnlineNode}
  {k : Cell OnlineNode → Pc} {j : Nat → Pc} {c : Cell OnlineNode} {n : Option Nat} {q : Query}

/-! ## Reads and writes -/

theorem load_of (Q : Pc → Prop) (hfault : Q .fault) (hk : ∀ c, Q (k c)) : Q (load H a k) := by
  unfold load
  split
  · exact hfault
  · exact hk _

theorem follow_of (Q : Pc → Prop) (hfault : Q .fault) (hj : ∀ a, Q (j a)) : Q (follow n j) := by
  unfold follow
  split
  · exact hfault
  · exact hj _

theorem load_outside (hk : ∀ c, (k c).inside = false) : (load H a k).inside = false :=
  load_of (fun l => l.inside = false) rfl hk

theorem follow_outside (hj : ∀ a, (j a).inside = false) : (follow n j).inside = false :=
  follow_of (fun l => l.inside = false) rfl hj

theorem load_some (h : H.read a = some c) : load H a k = k c := by
  unfold load
  rw [h]

@[simp] theorem follow_some : follow (some a) j = j a := rfl

@[simp] theorem store_mutex {o : Option (Heap OnlineNode)} : (store s o l).2.mutex = s.mutex := by
  unfold store
  split <;> rfl

@[simp] theorem store_some : store s (some H) l = (l, { s with heap := H }) := rfl

/-! ## The mutex -/

/-- Outside a thread leaves the heap, and the mutex unless it locks it. -/
theorem outside_step (hl : l.inside = false) (h : step phead i b l s = some (l', s')) :
    s'.heap = s.heap ∧ (l'.inside = false ∧ s'.mutex = s.mutex ∨
      s.mutex = none ∧ s'.mutex = some i ∧ ∃ f, l = .locking f ∧ l' = f.body phead) := by
  have hkeep : ∀ {l₁ : Pc}, some (l₁, s) = some (l', s') → l₁.inside = false →
      s'.heap = s.heap ∧ (l'.inside = false ∧ s'.mutex = s.mutex ∨
        s.mutex = none ∧ s'.mutex = some i ∧ ∃ f, l = .locking f ∧ l' = f.body phead) := by
    rintro l₁ ⟨⟩ hl₁
    exact ⟨rfl, .inl ⟨hl₁, rfl⟩⟩
  cases l with
  | out r =>
    cases b with
    | call f => exact hkeep h rfl
    | showList => exact hkeep h rfl
    | _ => cases h
  | locking f =>
    cases b with
    | go =>
      simp only [step, Option.ite_none_right_eq_some, Option.isNone_iff_eq_none] at h
      obtain ⟨hfree, ⟨⟩⟩ := h
      exact ⟨rfl, .inr ⟨hfree, rfl, f, rfl, rfl⟩⟩
    | _ => cases h
  | returning q p =>
    cases b with
    | go => exact hkeep h (load_outside fun _ => rfl)
    | _ => cases h
  | looking p lines =>
    cases b with
    | go => exact hkeep h (load_outside fun c => by split <;> rfl)
    | _ => cases h
  | moving p lines =>
    cases b with
    | go => exact hkeep h (load_outside fun c => follow_outside fun _ => rfl)
    | _ => cases h
  | printing p lines =>
    cases b with
    | go => exact hkeep h (load_outside fun _ => rfl)
    | _ => cases h
  | fault => cases b <;> cases h
  | _ => cases hl

/-- Inside it keeps the mutex, until it unlocks it. -/
theorem inside_step (hl : l.inside = true) (h : step phead i b l s = some (l', s')) :
    s'.mutex = s.mutex ∨ s'.mutex = none ∧ l'.inside = false := by
  have hread : ∀ {l₁ : Pc}, some (l₁, s) = some (l', s') → s'.mutex = s.mutex := by
    rintro l₁ ⟨⟩
    rfl
  have hwrite : ∀ {o : Option (Heap OnlineNode)} {l₁ : Pc}, some (store s o l₁) = some (l', s') →
      s'.mutex = s.mutex := by
    intro o l₁ h
    have hs : (store s o l₁).2 = s' := congrArg Prod.snd (Option.some.inj h)
    rw [← hs]
    exact store_mutex
  cases l with
  | allocating ptemp =>
    cases b with
    | malloc pnode c =>
      simp only [step, Option.ite_none_left_eq_some] at h
      obtain ⟨-, ⟨⟩⟩ := h
      exact .inl rfl
    | _ => cases h
  | copying | linking | entering | bypassing | freeing =>
    cases b with
    | go => exact .inl (hwrite h)
    | _ => cases h
  | testing | comparing | advancing | keeping | heading | following =>
    cases b with
    | go => exact .inl (hread h)
    | _ => cases h
  | sending n addrs =>
    cases n with
    | none =>
      cases b with
      | go => exact .inl (hread h)
      | _ => cases h
    | some a =>
      cases b with
      | sendto ok => exact .inl (hread h)
      | _ => cases h
  | unlocking | releasing =>
    cases b with
    | go =>
      cases h
      exact .inr ⟨rfl, rfl⟩
    | _ => cases h
  | _ => cases hl

/-- The mutex of the list, and the heap behind it. -/
def mutex (ι : Type*) (phead : Nat) : (program ι phead).Mutex (Heap OnlineNode) where
  owner := Shared.mutex
  mem := Shared.heap
  inside l := l.inside = true
  outer hl h := by
    simp only [Bool.not_eq_true] at hl ⊢
    obtain ⟨hheap, hcase⟩ := outside_step hl h
    exact ⟨hheap, hcase.imp_right fun hlock => ⟨hlock.1, hlock.2.1⟩⟩
  inner hl ho h := by
    simp only [Bool.not_eq_true]
    rw [← ho]
    exact inside_step hl h

/-! ## Inside -/

variable {cs : List Linklist.Call} {xs done todo rest : List (Nat × OnlineNode)} {y : Nat × OnlineNode} {r : Result}
  {ptemp : Cell OnlineNode} {pnode : Nat} {addrs : List SockAddr}

/-- The call that takes place with the step from here: the write that puts a node in or takes one out, or the
unlocking when there is no such write. -/
def Pc.commits : Pc → Option Linklist.Call
  | .entering ptemp pnode => some (.addList ptemp pnode)
  | .bypassing q _ _ => some q.call
  | .unlocking q _ => q.map Query.call
  | .releasing q _ => some q.call
  | _ => none

/-- The heap holds the list after the calls `cs`, one at a time, and nothing else. -/
structure Listed (phead : Nat) (cs : List Linklist.Call) (H : Heap OnlineNode) : Prop where
  list : H.IsList phead (seq cs)
  freed : H.freed = removed [] cs

/-- The list after the calls `cs`, and the cell that `add_list` has got. -/
structure Allocated (phead : Nat) (cs : List Linklist.Call) (a : Nat) (H : Heap OnlineNode) : Prop where
  spare : H.Spare phead (seq cs) a
  freed : H.freed = removed [] cs

/-- The list after the calls `cs`, and the cell that `del_list` has taken out. -/
structure Unlinked (phead : Nat) (cs : List Linklist.Call) (a : Nat) (H : Heap OnlineNode) : Prop where
  spare : H.Spare phead (seq cs) a
  freed : H.freed ++ [a] = removed [] cs

/-- The loop of `q` stands behind `done`, where nothing matches, and in front of `todo`. -/
structure Stands (phead : Nat) (q : Query) (xs : List (Nat × OnlineNode)) (p : Nat)
    (done todo : List (Nat × OnlineNode)) : Prop where
  split : xs = done ++ todo
  position : p = Heap.position phead done
  missed : ∀ y ∈ done, q.accepts y.2 = false

/-- The loop stands in front of the first match. -/
structure Hits (phead : Nat) (q : Query) (xs : List (Nat × OnlineNode)) (p : Nat)
    (done : List (Nat × OnlineNode)) (y : Nat × OnlineNode) (rest : List (Nat × OnlineNode)) : Prop extends
    Stands phead q xs p done (y :: rest) where
  hit : q.accepts y.2 = true

/-- What a thread inside knows, where the calls `cs` have taken place. -/
def At (phead : Nat) (cs : List Linklist.Call) : Pc → Heap OnlineNode → Prop
  | .allocating _, H => Listed phead cs H
  | .copying _ pnode, H => Allocated phead cs pnode H
  | .linking ptemp pnode, H => Allocated phead cs pnode H ∧ H.read pnode = some ptemp
  | .entering ptemp pnode, H =>
    Allocated phead cs pnode H ∧ H.read pnode = some ⟨ptemp.val, (seq cs).head?.map Prod.fst⟩
  | .testing q p, H => Listed phead cs H ∧ ∃ done todo, Stands phead q (seq cs) p done todo
  | .comparing q p, H => Listed phead cs H ∧ ∃ done y rest, Stands phead q (seq cs) p done (y :: rest)
  | .advancing q p, H =>
    Listed phead cs H ∧ ∃ done y rest, Stands phead q (seq cs) p done (y :: rest) ∧ q.accepts y.2 = false
  | .keeping q p, H => q.goal = .delList ∧ Listed phead cs H ∧ ∃ done y rest, Hits phead q (seq cs) p done y rest
  | .bypassing q p a, H =>
    q.goal = .delList ∧ Listed phead cs H ∧ ∃ done y rest, Hits phead q (seq cs) p done y rest ∧ a = y.1
  | .freeing _ a, H => Unlinked phead cs a H
  | .unlocking none _, H => Listed phead cs H
  | .unlocking (some q) r, H => Listed phead cs H ∧ r = q.missed ∧ first q.fdId q.flag (seq cs) = none
  | .releasing q p, H =>
    q.goal = .searchList ∧ Listed phead cs H ∧ ∃ done y rest, Hits phead q (seq cs) p done y rest
  | .heading, H => Listed phead cs H
  | .sending n addrs, H =>
    Listed phead cs H ∧ ∃ done todo, seq cs = done ++ todo ∧ n = todo.head?.map Prod.fst ∧
      addrs = done.map fun y => y.2.addr
  | .following a addrs, H =>
    Listed phead cs H ∧ ∃ done y rest, seq cs = done ++ y :: rest ∧ a = y.1 ∧
      addrs = (done ++ [y]).map fun y => y.2.addr
  | _, _ => True

/-- A step from `l` to `l'` inside, after which the thread knows where it is. -/
def Goes (phead : Nat) (i : ι) (cs : List Linklist.Call) (b : Choice) (l : Pc) (s : Shared ι) (l' : Pc) : Prop :=
  ∃ s', step phead i b l s = some (l', s') ∧ s'.mutex = s.mutex ∧ At phead (cs ++ l.commits.toList) l' s'.heap

theorem Goes.quiet (s' : Shared ι) (hc : l.commits = none) (hs : step phead i b l s = some (l', s'))
    (hm : s'.mutex = s.mutex) (hA : At phead cs l' s'.heap) : Goes phead i cs b l s l' := by
  refine ⟨s', hs, hm, ?_⟩
  rw [hc, Option.toList_none, List.append_nil]
  exact hA

/-- The place of a call that leaves the list alone. -/
theorem Listed.same {c : Linklist.Call} (hl : Listed phead cs H) (hx : c.onSeq (seq cs) = seq cs)
    (hf : c.frees (seq cs) = []) : Listed phead (cs ++ [c]) H := by
  refine ⟨?_, ?_⟩
  · rw [seq_append, hx]
    exact hl.list
  · rw [removed_append]
    show _ = _ ++ c.frees (seq cs)
    rw [hf, List.append_nil]
    exact hl.freed

/-! ### `add_list` -/

theorem allocating_goes (h : At phead cs (.allocating ptemp) s.heap) (hp : pnode ∉ s.heap.cells) :
    Goes phead i cs (.malloc pnode c) (.allocating ptemp) s (.copying ptemp pnode) :=
  .quiet { s with heap := s.heap.malloc pnode c } rfl (if_neg hp) rfl ⟨h.list.malloc hp, h.freed⟩

theorem copying_goes (h : At phead cs (.copying ptemp pnode) s.heap) :
    Goes phead i cs .go (.copying ptemp pnode) s (.linking ptemp pnode) := by
  obtain ⟨d, hr⟩ : ∃ d, s.heap.read pnode = some d :=
    Option.ne_none_iff_exists'.1 (Heap.mem_cells.1 ((h.spare.live pnode).2 (.inl rfl)))
  refine .quiet { s with heap := s.heap.malloc pnode ptemp } rfl ?_ rfl ⟨⟨h.spare.store, h.freed⟩, ?_⟩
  · simp only [step, hr, Option.map_some, store_some]
  · rw [Heap.read_malloc, if_pos rfl]

theorem linking_goes (h : At phead cs (.linking ptemp pnode) s.heap) :
    Goes phead i cs .go (.linking ptemp pnode) s (.entering ptemp pnode) := by
  obtain ⟨hb, hr⟩ := h
  obtain ⟨x₀, hc⟩ := hb.spare.chain
  obtain ⟨x, hhead⟩ := Heap.Chain.link [] (seq cs) hc
  obtain ⟨H', he, hs, hr', hf⟩ := hb.spare.setNext (n := (seq cs).head?.map Prod.fst) hr
  rw [Heap.position_nil] at hhead
  refine .quiet { s with heap := H' } rfl ?_ rfl ⟨⟨hs, hf.trans hb.freed⟩, hr'⟩
  simp only [step, hhead, Option.bind_some, he, store_some]

/-- The new node comes in. -/
theorem entering_goes (h : At phead cs (.entering ptemp pnode) s.heap) :
    Goes phead i cs .go (.entering ptemp pnode) s (.unlocking none .void) := by
  obtain ⟨hb, hr⟩ := h
  obtain ⟨H', he, hl, hf⟩ := hb.spare.enter hr
  refine ⟨{ s with heap := H' }, by simp only [step, he, store_some], rfl, ?_⟩
  show Listed phead (cs ++ [.addList ptemp pnode]) H'
  refine ⟨?_, ?_⟩
  · rw [seq_append]
    exact hl
  · rw [removed_append, hf, hb.freed]
    exact (List.append_nil _).symm

/-! ### The loops -/

/-- The loop goes on behind a node that does not match. -/
theorem Stands.advance (h : Stands phead q xs p done (y :: rest)) (hy : q.accepts y.2 = false) :
    Stands phead q xs y.1 (done ++ [y]) rest where
  split := by rw [h.split]; simp
  position := by simp
  missed z hz := by
    rcases List.mem_append.1 hz with hz | hz
    · exact h.missed z hz
    · rw [List.mem_singleton.1 hz]
      exact hy

theorem Stands.none (h : Stands phead q xs p done []) : first q.fdId q.flag xs = none := by
  rw [h.split, List.append_nil]
  refine List.find?_eq_none.2 fun y hy => ?_
  simpa [Query.accepts] using h.missed y hy

theorem Hits.first (h : Hits phead q xs p done y rest) : first q.fdId q.flag xs = some y := by
  rw [h.split]
  refine List.find?_eq_some_iff_append.2 ⟨by simpa [Query.accepts] using h.hit, done, rest, rfl, fun z hz => ?_⟩
  simpa [Query.accepts] using h.missed z hz

theorem Hits.erase (h : Hits phead q xs p done y rest) :
    (Linklist.Call.delList q.fdId q.flag).onSeq xs = done ++ rest := by
  have hnone : ∀ z ∈ done, ¬(decide (key q.flag z.2 = q.fdId) = true) := fun z hz => by
    simpa [Query.accepts] using h.missed z hz
  rw [h.split]
  show (done ++ y :: rest).eraseP (fun z => decide (key q.flag z.2 = q.fdId)) = _
  rw [List.eraseP_append_right _ hnone, List.eraseP_cons_of_pos (by simpa [Query.accepts] using h.hit)]

/-- A query that finds nothing leaves the list alone. -/
theorem Query.call_same (h : Linklist.first q.fdId q.flag xs = none) : q.call.onSeq xs = xs ∧ q.call.frees xs = [] := by
  obtain ⟨goal, fdId, flag⟩ := q
  cases goal with
  | delList =>
    refine ⟨List.eraseP_of_forall_not fun y hy => List.find?_eq_none.1 h y hy, ?_⟩
    show ((first fdId flag xs).map Prod.fst).toList = []
    rw [h]
    rfl
  | searchList => exact ⟨rfl, rfl⟩

/-- A search leaves it alone. -/
theorem Query.call_search (h : q.goal = .searchList) : q.call.onSeq xs = xs ∧ q.call.frees xs = [] := by
  rw [Query.call, h]
  exact ⟨rfl, rfl⟩

/-- What the loop's pointer points to. -/
theorem Listed.link (hl : Listed phead cs H) (h : Stands phead q (seq cs) p done todo) :
    ∃ x, H.read p = some ⟨x, todo.head?.map Prod.fst⟩ := by
  obtain ⟨x₀, hc⟩ := hl.list.chain
  rw [h.split] at hc
  rw [h.position]
  exact hc.link done todo

theorem Listed.cell (hl : Listed phead cs H) (h : seq cs = done ++ y :: rest) :
    H.read y.1 = some ⟨y.2, rest.head?.map Prod.fst⟩ := by
  obtain ⟨x₀, hc⟩ := hl.list.chain
  rw [h] at hc
  exact Heap.Chain.cell ((phead, x₀) :: done) hc

theorem testing_goes (h : At phead cs (.testing q p) s.heap) :
    Goes phead i cs .go (.testing q p) s (.unlocking (some q) q.missed) ∨
      Goes phead i cs .go (.testing q p) s (.comparing q p) := by
  obtain ⟨hl, done, todo, hs⟩ := h
  obtain ⟨x, hr⟩ := hl.link hs
  cases todo with
  | nil =>
    refine .inl (.quiet _ rfl ?_ rfl ⟨hl, rfl, hs.none⟩)
    simp only [step, load_some hr]
    rfl
  | cons y rest =>
    refine .inr (.quiet _ rfl ?_ rfl ⟨hl, done, y, rest, hs⟩)
    simp only [step, load_some hr]
    rfl

/-- The match is found. -/
theorem Listed.found (hl : Listed phead cs H) (h : Hits phead q (seq cs) p done y rest) :
    At phead cs (q.found p) H := by
  obtain ⟨goal, fdId, flag⟩ := q
  cases goal with
  | delList => exact ⟨rfl, hl, done, y, rest, h⟩
  | searchList => exact ⟨rfl, hl, done, y, rest, h⟩

theorem comparing_goes (h : At phead cs (.comparing q p) s.heap) :
    Goes phead i cs .go (.comparing q p) s (q.found p) ∨ Goes phead i cs .go (.comparing q p) s (.advancing q p) := by
  obtain ⟨hl, done, y, rest, hs⟩ := h
  obtain ⟨x, hr⟩ := hl.link hs
  have hstep : step phead i .go (.comparing q p) s =
      some (if q.accepts y.2 then q.found p else .advancing q p, s) := by
    simp only [step, load_some hr, List.head?_cons, Option.map_some, follow_some, load_some (hl.cell hs.split)]
  by_cases hy : q.accepts y.2 = true
  · rw [if_pos hy] at hstep
    exact .inl (.quiet _ rfl hstep rfl (hl.found ⟨hs, hy⟩))
  · rw [if_neg hy] at hstep
    exact .inr (.quiet _ rfl hstep rfl ⟨hl, done, y, rest, hs, by simpa using hy⟩)

theorem advancing_goes (h : At phead cs (.advancing q p) s.heap) :
    ∃ done y rest, Stands phead q (seq cs) p done (y :: rest) ∧
      Goes phead i cs .go (.advancing q p) s (.testing q y.1) := by
  obtain ⟨hl, done, y, rest, hs, hy⟩ := h
  obtain ⟨x, hr⟩ := hl.link hs
  refine ⟨done, y, rest, hs, .quiet _ rfl ?_ rfl ⟨hl, _, _, hs.advance hy⟩⟩
  simp only [step, load_some hr, List.head?_cons, Option.map_some, follow_some]

/-! ### The end of `del_list` -/

theorem keeping_goes (h : At phead cs (.keeping q p) s.heap) :
    ∃ a, Goes phead i cs .go (.keeping q p) s (.bypassing q p a) := by
  obtain ⟨hg, hl, done, y, rest, hh⟩ := h
  obtain ⟨x, hr⟩ := hl.link hh.toStands
  refine ⟨y.1, .quiet _ rfl ?_ rfl ⟨hg, hl, done, y, rest, hh, rfl⟩⟩
  simp only [step, load_some hr, List.head?_cons, Option.map_some, follow_some]

/-- The node goes out. -/
theorem bypassing_goes (h : At phead cs (.bypassing q p a) s.heap) :
    Goes phead i cs .go (.bypassing q p a) s (.freeing q a) := by
  obtain ⟨hg, hl, done, y, rest, hh, rfl⟩ := h
  obtain ⟨x, hr⟩ := hl.link hh.toStands
  have hlist := hl.list
  rw [hh.split] at hlist
  obtain ⟨H', he, hspare, -, hf⟩ := hlist.bypass
  rw [← hh.position] at he
  have hcall : q.call = .delList q.fdId q.flag := by rw [Query.call, hg]
  refine ⟨{ s with heap := H' }, ?_, rfl, ?_⟩
  · simp only [step, hr, Option.bind_some, List.head?_cons, Option.map_some, hl.cell hh.split, he, store_some]
  show Unlinked phead (cs ++ [q.call]) y.1 H'
  refine ⟨?_, ?_⟩
  · rw [seq_append, hcall, hh.erase]
    exact hspare
  · rw [removed_append, hf, hl.freed, hcall]
    show _ = _ ++ ((Linklist.first q.fdId q.flag (seq cs)).map Prod.fst).toList
    rw [hh.first]
    rfl

theorem freeing_goes (h : At phead cs (.freeing q a) s.heap) :
    Goes phead i cs .go (.freeing q a) s (.unlocking none .void) := by
  obtain ⟨H', he, hl, hf⟩ := h.spare.free
  refine .quiet { s with heap := H' } rfl ?_ rfl ⟨hl, hf.trans h.freed⟩
  simp only [step, he, store_some]

/-! ### Mode `A` of `send_message_mgmt` -/

theorem heading_goes (h : At phead cs .heading s.heap) :
    Goes phead i cs .go .heading s (.sending ((seq cs).head?.map Prod.fst) []) := by
  obtain ⟨x₀, hc⟩ := h.list.chain
  obtain ⟨x, hr⟩ := Heap.Chain.link [] (seq cs) hc
  rw [Heap.position_nil] at hr
  refine .quiet _ rfl ?_ rfl ⟨h, [], seq cs, rfl, rfl, rfl⟩
  simp only [step, load_some hr]

theorem sending_goes (h : At phead cs (.sending none addrs) s.heap) :
    Goes phead i cs .go (.sending none addrs) s (.unlocking none (.sent addrs true)) := .quiet _ rfl rfl rfl h.1

/-- At the end of the loop the whole list has been sent to. -/
theorem sending_all (h : At phead cs (.sending none addrs) H) : addrs = (seq cs).map fun y => y.2.addr := by
  obtain ⟨hl, done, todo, hsplit, hn, rfl⟩ := h
  have htodo : todo = [] := by simpa using hn.symm
  rw [hsplit, htodo, List.append_nil]

/-- The step of a `sendto`: the address is that of a node of the list. -/
theorem sending_step (ok : Bool) (h : At phead cs (.sending (some a) addrs) s.heap) :
    ∃ done y rest, seq cs = done ++ y :: rest ∧ a = y.1 ∧ addrs = done.map (fun z => z.2.addr) ∧
      step phead i (.sendto ok) (.sending (some a) addrs) s =
        some (if ok then .following a (addrs ++ [y.2.addr]) else .out (.sent (addrs ++ [y.2.addr]) false), s) := by
  obtain ⟨hl, done, todo, hsplit, hn, rfl⟩ := h
  cases todo with
  | nil => cases hn
  | cons y rest =>
    obtain rfl : a = y.1 := Option.some.inj hn
    refine ⟨done, y, rest, hsplit, rfl, rfl, ?_⟩
    simp only [step, load_some (hl.cell hsplit)]

theorem sent_goes (h : At phead cs (.sending (some a) addrs) s.heap) :
    ∃ x, Goes phead i cs (.sendto true) (.sending (some a) addrs) s (.following a (addrs ++ [x])) := by
  obtain ⟨done, y, rest, hsplit, ha, haddrs, hstep⟩ := sending_step (i := i) true h
  refine ⟨y.2.addr, .quiet _ rfl hstep rfl ⟨h.1, done, y, rest, hsplit, ha, ?_⟩⟩
  rw [haddrs, List.map_append]
  rfl

theorem following_goes (h : At phead cs (.following a addrs) s.heap) :
    ∃ done y rest, seq cs = done ++ y :: rest ∧ a = y.1 ∧
      Goes phead i cs .go (.following a addrs) s (.sending (rest.head?.map Prod.fst) addrs) := by
  obtain ⟨hl, done, y, rest, hsplit, rfl, haddrs⟩ := h
  refine ⟨done, y, rest, hsplit, rfl, .quiet _ rfl ?_ rfl ⟨hl, done ++ [y], rest, by rw [hsplit]; simp, rfl, haddrs⟩⟩
  simp only [step, load_some (hl.cell hsplit)]

/-! ## Any step inside -/

/-- How a thread leaves: the mutex is unlocked, or `sendto` has failed. -/
inductive Leaves (s : Shared ι) : Choice → Pc → Pc → Shared ι → Prop
  | unlock {q : Option Query} {r : Result} : Leaves s .go (.unlocking q r) (.out r) { s with mutex := none }
  | release {q : Query} {a : Nat} : Leaves s .go (.releasing q a) (.returning q a) { s with mutex := none }
  | kept {a : Nat} {addrs : List SockAddr} {x : SockAddr} :
    Leaves s (.sendto false) (.sending (some a) addrs) (.out (.sent (addrs ++ [x]) false)) s

theorem Leaves.outside (h : Leaves s b l l' s') : l'.inside = false := by cases h <;> rfl

theorem Leaves.sound (h : Leaves s b l l' s') : l' ≠ .fault := by
  rintro rfl
  cases h

/-- How many nodes come behind the one at `p`. -/
def behind (phead : Nat) (xs : List (Nat × OnlineNode)) (p : Nat) : Nat :=
  xs.length - (phead :: xs.map Prod.fst).idxOf p

/-- How many nodes there are from a pointer on. -/
def left (phead : Nat) (xs : List (Nat × OnlineNode)) : Option Nat → Nat
  | none => 0
  | some a => behind phead xs a + 1

/-- How a thread goes on inside, where the list is `xs`. -/
inductive Moves (phead : Nat) (xs : List (Nat × OnlineNode)) : Pc → Pc → Prop
  | allocate {ptemp : Cell OnlineNode} {pnode : Nat} : Moves phead xs (.allocating ptemp) (.copying ptemp pnode)
  | copy {ptemp : Cell OnlineNode} {pnode : Nat} : Moves phead xs (.copying ptemp pnode) (.linking ptemp pnode)
  | link {ptemp : Cell OnlineNode} {pnode : Nat} : Moves phead xs (.linking ptemp pnode) (.entering ptemp pnode)
  | enter {ptemp : Cell OnlineNode} {pnode : Nat} : Moves phead xs (.entering ptemp pnode) (.unlocking none .void)
  | miss {q : Query} {p : Nat} : Moves phead xs (.testing q p) (.unlocking (some q) q.missed)
  | test {q : Query} {p : Nat} : Moves phead xs (.testing q p) (.comparing q p)
  | hit {q : Query} {p : Nat} : 0 < behind phead xs p → Moves phead xs (.comparing q p) (q.found p)
  | differ {q : Query} {p : Nat} : Moves phead xs (.comparing q p) (.advancing q p)
  | advance {q : Query} {p a : Nat} : behind phead xs a < behind phead xs p →
    Moves phead xs (.advancing q p) (.testing q a)
  | keep {q : Query} {p a : Nat} : Moves phead xs (.keeping q p) (.bypassing q p a)
  | bypass {q : Query} {p a : Nat} : Moves phead xs (.bypassing q p a) (.freeing q a)
  | free {q : Query} {a : Nat} : Moves phead xs (.freeing q a) (.unlocking none .void)
  | head {n : Option Nat} : left phead xs n ≤ xs.length → Moves phead xs .heading (.sending n [])
  | send {a : Nat} {addrs : List SockAddr} {x : SockAddr} :
    Moves phead xs (.sending (some a) addrs) (.following a (addrs ++ [x]))
  | next {a : Nat} {n : Option Nat} {addrs : List SockAddr} : left phead xs n ≤ behind phead xs a →
    Moves phead xs (.following a addrs) (.sending n addrs)
  | sent {addrs : List SockAddr} : Moves phead xs (.sending none addrs) (.unlocking none (.sent addrs true))

/-- A step that goes on inside. -/
structure Stays (phead : Nat) (cs : List Linklist.Call) (l : Pc) (s : Shared ι) (l' : Pc) (s' : Shared ι) : Prop where
  inside : l'.inside = true
  mutex : s'.mutex = s.mutex
  here : At phead (cs ++ l.commits.toList) l' s'.heap
  move : Moves phead (seq cs) l l'

theorem Goes.stays {l₁ : Pc} (hg : Goes phead i cs b l s l₁) (hl : l₁.inside = true)
    (hs : step phead i b l s = some (l', s')) (hm : Moves phead (seq cs) l l₁) : Stays phead cs l s l' s' := by
  obtain ⟨s₁, hs₁, hmutex, hA⟩ := hg
  obtain ⟨rfl, rfl⟩ := Prod.mk.inj (Option.some.inj (hs₁.symm.trans hs))
  exact ⟨hl, hmutex, hA, hm⟩

theorem Query.found_inside : (q.found p).inside = true := by
  unfold Query.found
  split <;> rfl

theorem behind_position (hn : (phead :: (done ++ todo).map Prod.fst).Nodup) :
    behind phead (done ++ todo) (Heap.position phead done) = todo.length := by
  obtain ⟨pre, x, hsplit⟩ := Heap.position_split phead ⟨0, 0, ⟨0, 0⟩⟩ done
  have hlen : pre.length = done.length := by simpa using (congrArg List.length hsplit).symm
  have haddr : phead :: (done ++ todo).map Prod.fst =
      pre.map Prod.fst ++ Heap.position phead done :: todo.map Prod.fst := by
    have := congrArg (List.map Prod.fst) hsplit
    rw [List.map_cons, List.map_append] at this
    rw [List.map_append, ← List.cons_append, this, List.append_assoc]
    rfl
  rw [haddr] at hn
  have hnot : Heap.position phead done ∉ pre.map Prod.fst := fun hm =>
    (List.nodup_append.1 hn).2.2 _ hm _ List.mem_cons_self rfl
  rw [behind, haddr, List.idxOf_append_of_notMem hnot, List.idxOf_cons_self, List.length_map, List.length_append]
  omega

theorem Listed.behind (hl : Listed phead cs H) (h : Stands phead q (seq cs) p done todo) :
    behind phead (seq cs) p = todo.length := by
  have hn := hl.list.nodup
  rw [h.position]
  rw [h.split] at hn ⊢
  exact behind_position hn

theorem Listed.behind_node (hl : Listed phead cs H) (h : seq cs = done ++ y :: rest) :
    Concurrent.behind phead (seq cs) y.1 = rest.length := by
  have hn := hl.list.nodup
  have hsplit : seq cs = (done ++ [y]) ++ rest := by rw [h]; simp
  rw [hsplit] at hn ⊢
  have hpos : Heap.position phead (done ++ [y]) = y.1 := Heap.position_concat
  rw [← hpos]
  exact behind_position hn

theorem Listed.left (hl : Listed phead cs H) (h : seq cs = done ++ todo) :
    left phead (seq cs) (todo.head?.map Prod.fst) = todo.length := by
  cases todo with
  | nil => rfl
  | cons y rest =>
    show Concurrent.behind phead (seq cs) y.1 + 1 = _
    rw [hl.behind_node h, List.length_cons]

/-- **What a step inside can do**: it leaves, or knows again where it is. -/
theorem inside_cases (hl : l.inside = true) (h : At phead cs l s.heap) (hs : step phead i b l s = some (l', s')) :
    Stays phead cs l s l' s' ∨
      Leaves s b l l' s' ∧ Listed phead (cs ++ l.commits.toList) s'.heap := by
  cases l with
  | allocating ptemp =>
    cases b with
    | malloc pnode c =>
      have hp : pnode ∉ s.heap.cells := (Option.ite_none_left_eq_some.1 hs).1
      exact .inl ((allocating_goes h hp).stays rfl hs .allocate)
    | _ => cases hs
  | copying ptemp pnode =>
    cases b with
    | go => exact .inl ((copying_goes h).stays rfl hs .copy)
    | _ => cases hs
  | linking ptemp pnode =>
    cases b with
    | go => exact .inl ((linking_goes h).stays rfl hs .link)
    | _ => cases hs
  | entering ptemp pnode =>
    cases b with
    | go => exact .inl ((entering_goes h).stays rfl hs .enter)
    | _ => cases hs
  | testing q p =>
    cases b with
    | go => exact .inl ((testing_goes h).elim (fun hg => hg.stays rfl hs .miss) fun hg => hg.stays rfl hs .test)
    | _ => cases hs
  | comparing q p =>
    cases b with
    | go =>
      have hpos : 0 < Concurrent.behind phead (seq cs) p := by
        obtain ⟨hlisted, done, y, rest, hstands⟩ := h
        rw [hlisted.behind hstands]
        exact Nat.succ_pos _
      rcases comparing_goes h with hg | hg
      · exact .inl (hg.stays Query.found_inside hs (.hit hpos))
      · exact .inl (hg.stays rfl hs .differ)
    | _ => cases hs
  | advancing q p =>
    cases b with
    | go =>
      obtain ⟨done, y, rest, hstands, hg⟩ := advancing_goes (i := i) h
      refine .inl (hg.stays rfl hs (.advance ?_))
      rw [h.1.behind hstands, h.1.behind_node hstands.split]
      exact Nat.lt_succ_self _
    | _ => cases hs
  | keeping q p =>
    cases b with
    | go =>
      obtain ⟨a, hg⟩ := keeping_goes (i := i) h
      exact .inl (hg.stays rfl hs .keep)
    | _ => cases hs
  | bypassing q p a =>
    cases b with
    | go => exact .inl ((bypassing_goes h).stays rfl hs .bypass)
    | _ => cases hs
  | freeing q a =>
    cases b with
    | go => exact .inl ((freeing_goes h).stays rfl hs .free)
    | _ => cases hs
  | unlocking n r =>
    cases b with
    | go =>
      cases hs
      refine .inr ⟨.unlock, ?_⟩
      cases n with
      | none =>
        show Listed phead (cs ++ []) s.heap
        rw [List.append_nil]
        exact h
      | some q =>
        obtain ⟨hl, -, hnone⟩ := h
        exact hl.same (Query.call_same hnone).1 (Query.call_same hnone).2
    | _ => cases hs
  | releasing q p =>
    cases b with
    | go =>
      cases hs
      obtain ⟨hg, hl, -⟩ := h
      exact .inr ⟨.release, hl.same (Query.call_search hg).1 (Query.call_search hg).2⟩
    | _ => cases hs
  | heading =>
    cases b with
    | go =>
      refine .inl ((heading_goes h).stays rfl hs (.head ?_))
      rw [h.left (show seq cs = [] ++ seq cs from rfl)]
    | _ => cases hs
  | sending n addrs =>
    cases n with
    | none =>
      cases b with
      | go => exact .inl ((sending_goes h).stays rfl hs .sent)
      | _ => cases hs
    | some a =>
      cases b with
      | sendto ok =>
        cases ok with
        | true =>
          obtain ⟨x, hg⟩ := sent_goes (i := i) h
          exact .inl (hg.stays rfl hs .send)
        | false =>
          obtain ⟨done, y, rest, -, -, -, hstep⟩ := sending_step (i := i) false h
          obtain ⟨rfl, rfl⟩ := Prod.mk.inj (Option.some.inj (hstep.symm.trans hs))
          refine .inr ⟨.kept, ?_⟩
          show Listed phead (cs ++ []) s.heap
          rw [List.append_nil]
          exact h.1
      | _ => cases hs
  | following a addrs =>
    cases b with
    | go =>
      obtain ⟨done, y, rest, hsplit, rfl, hg⟩ := following_goes (i := i) h
      refine .inl (hg.stays rfl hs (.next ?_))
      rw [h.1.behind_node hsplit, h.1.left (show seq cs = (done ++ [y]) ++ rest by rw [hsplit]; simp)]
    | _ => cases hs
  | _ => cases hl

/-! ## Every run -/

/-- The calls of a run, in the order in which they took place. -/
def calls (tr : List (Threads ι Pc (Shared ι) × (ι × Choice))) : List Linklist.Call := Program.log Pc.commits tr

variable [DecidableEq ι] {C : Threads ι Pc (Shared ι) → ι × Choice → Prop} {t t' : Threads ι Pc (Shared ι)}
  {tr before after : List (Threads ι Pc (Shared ι) × (ι × Choice))}

theorem commits_outside (hl : ¬l.inside = true) : l.commits = none := by
  cases l <;> first | rfl | exact absurd rfl hl

/-- A thread that comes in stands at the head of the list. -/
theorem Listed.body (h : Listed phead cs H) (f : Fn) : At phead cs (f.body phead) H := by
  cases f with
  | addList ptemp => exact h
  | delList fdId flag => exact ⟨h, [], seq cs, rfl, rfl, fun _ hy => absurd hy List.not_mem_nil⟩
  | searchList fdId flag => exact ⟨h, [], seq cs, rfl, rfl, fun _ hy => absurd hy List.not_mem_nil⟩
  | sendAll => exact h

/-- **Between critical sections the list is what the calls make it**, and the thread inside knows where it is. -/
theorem run_keeps (hr : ((program ι phead).lts (Shared.Fresh phead)).Run C tr t) :
    (mutex ι phead).Keeps (Listed phead) (At phead) (calls tr) t := by
  refine Program.Mutex.resource (fun i => Bool.false_ne_true) ?_ (fun l hl => commits_outside hl) ?_ ?_ hr
  · rintro s ⟨x, rfl⟩
    exact ⟨Heap.create_isList, rfl⟩
  · intro cs i b l s l' s' hl hl' hs hfree
    rw [mutex, Bool.not_eq_true] at hl
    obtain ⟨hheap, hcase⟩ := outside_step hl hs
    rcases hcase with ⟨hout, -⟩ | ⟨-, -, f, rfl, rfl⟩
    · exact absurd (hout.symm.trans hl') Bool.false_ne_true
    · show At phead cs _ s'.heap
      rw [hheap]
      exact hfree.body f
  · intro cs t i b l' s' _ hl hs hA
    rcases inside_cases hl hA hs with hstay | ⟨hleaves, hlisted⟩
    · exact ⟨fun _ => hstay.here, fun hout => absurd hstay.inside hout⟩
    · exact ⟨fun hin => absurd (hleaves.outside.symm.trans hin) Bool.false_ne_true, fun _ => hlisted⟩

end UnixNote.Concurrent
