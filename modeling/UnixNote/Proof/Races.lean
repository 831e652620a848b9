import UnixNote.Proof.Linear

/-!
# What the mutex does not cover

`search_list` reads `phead->next` once more behind its `pthread_mutex_unlock`, and `show_list` does not
lock the mutex at all.

* `completes`: a thread inside can finish its call alone.
* `search_returns`: what `search_list` returns after a hit. It is the match if no link was written since.
* `search_other`, `unlocked_reads`: another thread can make it any new node, or by `del_list` alone make
  the read one of a freed node; the same for `show_list`.
-/

namespace UnixNote.Concurrent

open Linklist

variable {ι : Type*} [DecidableEq ι] {phead a p pnode : Nat} {i j : ι} {b : Choice} {l l' : Pc} {s s' : Shared ι}
  {H : Heap OnlineNode} {q : Query} {cs : List Linklist.Call} {xs done todo rest : List (Nat × OnlineNode)}
  {y : Nat × OnlineNode} {C : Threads ι Pc (Shared ι) → ι × Choice → Prop} {t t' t₁ t₂ : Threads ι Pc (Shared ι)}
  {tr tr' tr₂ before after : List (Threads ι Pc (Shared ι) × (ι × Choice))}

/-! ## A thread alone -/

/-- The call that a thread has begun and that has still to take place. The next address from `malloc` is `pnode`. -/
def Pc.pending (pnode : Nat) : Pc → List Linklist.Call
  | .allocating ptemp => [.addList ptemp pnode]
  | .copying ptemp a | .linking ptemp a | .entering ptemp a => [.addList ptemp a]
  | .testing q _ | .comparing q _ | .advancing q _ | .keeping q _ | .bypassing q _ _ | .releasing q _ => [q.call]
  | .unlocking q _ => (q.map Query.call).toList
  | _ => []

omit [DecidableEq ι] in
theorem pending_move (pnode : Nat) (hm : Moves phead xs l l') (hl : ∀ ptemp, l ≠ .allocating ptemp) :
    l.commits.toList ++ l'.pending pnode = l.pending pnode := by
  cases hm with
  | allocate => exact absurd rfl (hl _)
  | hit =>
    unfold Query.found
    split <;> rfl
  | _ => rfl

omit [DecidableEq ι] in
theorem Moves.allocated (hm : Moves phead xs l l') {ptemp : Cell OnlineNode} : l' ≠ .allocating ptemp := by
  cases hm with
  | hit =>
    unfold Query.found
    split <;> exact Pc.noConfusion
  | _ => exact Pc.noConfusion

omit [DecidableEq ι] in
/-- A thread leaves with nothing left to do but, after a search, to return. -/
theorem Leaves.ends (h : Leaves s b l l' s') (hb : Sends b) :
    s'.mutex = none ∧ ((∃ r, l' = .out r) ∨ ∃ q a, l = .releasing q a ∧ l' = .returning q a) := by
  cases h with
  | unlock => exact ⟨rfl, .inl ⟨_, rfl⟩⟩
  | release => exact ⟨rfl, .inr ⟨_, _, rfl, rfl⟩⟩
  | kept => cases hb

omit [DecidableEq ι] in
theorem Leaves.pending (h : Leaves s b l l' s') : l.commits.toList ++ l'.pending pnode = l.pending pnode := by
  cases h with
  | unlock => exact List.append_nil _
  | _ => rfl

/-- The run goes on with steps of `j` only, none of them a `sendto` that fails. -/
structure Alone (phead : Nat) (j : ι) (tr : List (Threads ι Pc (Shared ι) × (ι × Choice)))
    (t : Threads ι Pc (Shared ι)) (tr' : List (Threads ι Pc (Shared ι) × (ι × Choice)))
    (t' : Threads ι Pc (Shared ι)) : Prop where
  run : ((program ι phead).lts (Shared.Fresh phead)).Run (fun _ a => Sends a.2) tr' t'
  steps : ∃ more, tr' = tr ++ more ∧ ∀ x ∈ more, x.2.1 = j
  others : ∀ k, k ≠ j → t'.pc k = t.pc k

theorem Alone.refl (hr : ((program ι phead).lts (Shared.Fresh phead)).Run (fun _ a => Sends a.2) tr t) :
    Alone phead j tr t tr t :=
  ⟨hr, ⟨[], (List.append_nil _).symm, fun _ hx => absurd hx List.not_mem_nil⟩, fun _ _ => rfl⟩

theorem Alone.trans (h : Alone phead j tr t tr' t') (h' : Alone phead j tr' t' tr₂ t₂) : Alone phead j tr t tr₂ t₂ := by
  obtain ⟨more, rfl, hmore⟩ := h.steps
  obtain ⟨more', rfl, hmore'⟩ := h'.steps
  refine ⟨h'.run, ⟨more ++ more', List.append_assoc .., fun x hx => ?_⟩, fun k hk => ?_⟩
  · exact (List.mem_append.1 hx).elim (hmore x) (hmore' x)
  · rw [h'.others k hk, h.others k hk]

/-- One step of `j`. -/
theorem Alone.step (hr : ((program ι phead).lts (Shared.Fresh phead)).Run (fun _ a => Sends a.2) tr t)
    (hb : Sends b) (hs : Concurrent.step phead j b (t.pc j) t.shared = some (l', s')) :
    ∃ t', Alone phead j tr t (tr ++ [(t, (j, b))]) t' ∧ t'.pc j = l' ∧ t'.shared = s' := by
  have hn : (program ι phead).next t (j, b) = some ⟨Function.update t.pc j l', s'⟩ := by
    show ((Concurrent.step phead j b (t.pc j) t.shared).map _) = _
    rw [hs]
    rfl
  refine ⟨⟨Function.update t.pc j l', s'⟩, ⟨hr.next hb hn, ⟨_, rfl, ?_⟩, fun k hk => Function.update_of_ne hk ..⟩,
    Function.update_self .., rfl⟩
  intro x hx
  rw [List.mem_singleton.1 hx]

omit [DecidableEq ι] in
theorem calls_concat : calls (tr ++ [(t, (j, b))]) = calls tr ++ (t.pc j).commits.toList := by
  rw [calls, Program.Mutex.log_append, Program.Mutex.log_singleton]
  rfl

/-- A thread that has its node, or needs none, can finish alone. -/
theorem finishes (pnode : Nat) (hr : ((program ι phead).lts (Shared.Fresh phead)).Run (fun _ a => Sends a.2) tr t)
    (hin : (t.pc j).inside = true) (hne : ∀ ptemp, t.pc j ≠ .allocating ptemp) :
    ∃ tr' t', Alone phead j tr t tr' t' ∧ t'.shared.mutex = none ∧ calls tr' = calls tr ++ (t.pc j).pending pnode ∧
      ((∃ r, t'.pc j = .out r) ∨
        ∃ q a, t'.pc j = .returning q a ∧ q.goal = .searchList ∧ q.call ∈ (t.pc j).pending pnode) := by
  -- by induction on the rank
  induction hn : (t.pc j).rank phead (calls tr) using Nat.strong_induction_on generalizing tr t with
  | _ n ih =>
    have hk := run_keeps hr
    have hA := hk.held j hin
    obtain ⟨b, hb, hs⟩ := inside_goes (i := j) hin hA
    obtain ⟨⟨l', s'⟩, hs⟩ := Option.isSome_iff_exists.1 hs
    obtain ⟨t', halone, hpc, hshared⟩ := Alone.step hr hb hs
    rcases inside_cases hin hA hs with hstay | ⟨hleaves, -⟩
    · have hmove := pending_move pnode hstay.move hne
      have hcalls : calls (tr ++ [(t, (j, b))]) = calls tr ++ (t.pc j).commits.toList := calls_concat
      obtain ⟨tr₂, t₂, halone₂, hmutex, hcalls₂, hout⟩ := ih _ (hn ▸ rank_lowers hstay.move) halone.run
        (by rw [hpc]; exact hstay.inside) (fun ptemp => by rw [hpc]; exact hstay.move.allocated) (by rw [hpc, hcalls])
      refine ⟨tr₂, t₂, halone.trans halone₂, hmutex, ?_, hout.imp_right ?_⟩
      · rw [hcalls₂, hcalls, hpc, List.append_assoc, hmove]
      · rintro ⟨q, a, hq, hg, hmem⟩
        refine ⟨q, a, hq, hg, ?_⟩
        rw [← hmove]
        rw [hpc] at hmem
        exact List.mem_append_right _ hmem
    · obtain ⟨hmutex, hends⟩ := hleaves.ends hb
      have hout : l'.pending pnode = [] := by
        rcases hends with ⟨r, rfl⟩ | ⟨q, a, -, rfl⟩ <;> rfl
      refine ⟨_, t', halone, by rw [hshared, hmutex], ?_, ?_⟩
      · rw [calls_concat, ← hleaves.pending, hout, List.append_nil]
      · rw [hpc]
        refine hends.imp_right ?_
        rintro ⟨q, a, hl, rfl⟩
        rw [hl] at hA ⊢
        exact ⟨q, a, rfl, hA.1, List.mem_singleton_self _⟩

/-- `malloc` has an address for `add_list`. -/
theorem allocates {ptemp : Cell OnlineNode}
    (hr : ((program ι phead).lts (Shared.Fresh phead)).Run (fun _ a => Sends a.2) tr t)
    (hpc : t.pc j = .allocating ptemp) (hp : pnode ∉ t.shared.heap.cells) :
    ∃ tr' t', Alone phead j tr t tr' t' ∧ calls tr' = calls tr ∧ t'.pc j = .copying ptemp pnode := by
  have hmalloc : Concurrent.step phead j (.malloc pnode ptemp) (t.pc j) t.shared =
      some (.copying ptemp pnode, { t.shared with heap := t.shared.heap.malloc pnode ptemp }) := by
    rw [hpc]
    exact if_neg hp
  obtain ⟨t', halone, hpc', -⟩ := Alone.step (b := .malloc pnode ptemp) hr trivial hmalloc
  refine ⟨_, t', halone, ?_, hpc'⟩
  rw [calls_concat, hpc]
  exact List.append_nil _

/-- **A thread inside can finish alone**: it does what it has begun, and the mutex is free. -/
theorem completes (hr : ((program ι phead).lts (Shared.Fresh phead)).Run (fun _ a => Sends a.2) tr t)
    (hin : (t.pc j).inside = true) :
    ∃ tr' t' pnode, pnode ∉ t.shared.heap.cells ∧ Alone phead j tr t tr' t' ∧ t'.shared.mutex = none ∧
      calls tr' = calls tr ++ (t.pc j).pending pnode ∧
      ((∃ r, t'.pc j = .out r) ∨
        ∃ q a, t'.pc j = .returning q a ∧ q.goal = .searchList ∧ q.call ∈ (t.pc j).pending pnode) := by
  obtain ⟨pnode, hkeys⟩ := Infinite.exists_notMem_finset t.shared.heap.cells.keys
  have hp : pnode ∉ t.shared.heap.cells := fun hm => hkeys (Finmap.mem_keys.2 hm)
  by_cases halloc : ∃ ptemp, t.pc j = .allocating ptemp
  · obtain ⟨ptemp, hpc⟩ := halloc
    obtain ⟨tr₁, t₁, h₁, hcalls₁, hpc₁⟩ := allocates hr hpc hp
    obtain ⟨tr₂, t₂, h₂, hmutex, hcalls₂, hends⟩ := finishes pnode h₁.run (by rw [hpc₁]; rfl) fun ptemp => by
      rw [hpc₁]
      exact Pc.noConfusion
    rw [hpc₁] at hcalls₂ hends
    refine ⟨tr₂, t₂, pnode, hp, h₁.trans h₂, hmutex, ?_, ?_⟩
    · rw [hcalls₂, hcalls₁, hpc]
      rfl
    · rw [hpc]
      exact hends
  · have hne : ∀ ptemp, t.pc j ≠ .allocating ptemp := fun ptemp hpc => halloc ⟨ptemp, hpc⟩
    obtain ⟨tr', t', halone, hmutex, hcalls, hends⟩ := finishes pnode hr hin hne
    exact ⟨tr', t', pnode, hp, halone, hmutex, hcalls, hends⟩

/-- Steps that the two threads have, no `sendto` failing, are such a run. -/
theorem run_sends (as : List (Bool × Choice)) (h : Lts.Script (fun t a => Sends a.2 ∧
      ((program Bool 0).next t a).isSome = true) (program Bool 0).act fresh as) :
    ((program Bool 0).lts (Shared.Fresh 0)).Run (fun _ a => Sends a.2) (stepsOf as) (stateAfter as) := by
  have h₀ : ((program Bool 0).lts (Shared.Fresh 0)).Run (fun _ a => Sends a.2) [] fresh := .start ⟨rfl, _, rfl⟩
  refine h₀.script (fun t a ha => ⟨ha.1, ?_⟩) as h
  obtain ⟨t', ht⟩ := Option.isSome_iff_exists.1 ha.2
  show (program Bool 0).next t a = some ((program Bool 0).act t a)
  rw [Program.act, ht]
  rfl

/-- The first steps of `meeting`: the mutex is locked, and the node is still to be allocated. -/
theorem completes_meeting :
    ∃ tr' t' pnode, Alone 0 true (stepsOf (meeting.take 2)) (stateAfter (meeting.take 2)) tr' t' ∧
      t'.shared.mutex = none ∧ calls tr' = [.addList ⟨⟨5, 10, ⟨1, 80⟩⟩, none⟩ pnode] := by
  obtain ⟨tr', t', pnode, -, halone, hmutex, hcalls, -⟩ :=
    completes (j := true) (run_sends (meeting.take 2) (by decide)) (by decide)
  exact ⟨tr', t', pnode, halone, hmutex, hcalls⟩

/-- A thread outside comes in. -/
theorem enters {r : Result} (hr : ((program ι phead).lts (Shared.Fresh phead)).Run (fun _ a => Sends a.2) tr t)
    (hout : t.pc j = .out r) (hfree : t.shared.mutex = none) (f : Fn) :
    ∃ tr' t', Alone phead j tr t tr' t' ∧ t'.pc j = f.body phead ∧ calls tr' = calls tr ∧
      t'.shared.heap = t.shared.heap := by
  obtain ⟨t₁, h₁, hpc₁, hs₁⟩ := Alone.step (b := .call f) hr trivial
    (show Concurrent.step phead j (.call f) (t.pc j) t.shared = some (.locking f, t.shared) by rw [hout]; rfl)
  have hlock : Concurrent.step phead j .go (t₁.pc j) t₁.shared =
      some (f.body phead, { t.shared with mutex := some j }) := by
    rw [hpc₁, hs₁]
    exact if_pos (by rw [hfree]; rfl)
  obtain ⟨t₂, h₂, hpc₂, hs₂⟩ := Alone.step (b := .go) h₁.run trivial hlock
  refine ⟨_, t₂, h₁.trans h₂, hpc₂, ?_, by rw [hs₂]⟩
  rw [calls_concat, calls_concat, hout, hpc₁]
  simp [Pc.commits]

/-- It adds a node. -/
theorem adds {r : Result} (ptemp : Cell OnlineNode)
    (hr : ((program ι phead).lts (Shared.Fresh phead)).Run (fun _ a => Sends a.2) tr t) (hout : t.pc j = .out r)
    (hfree : t.shared.mutex = none) (hp : pnode ∉ t.shared.heap.cells) :
    ∃ tr' t', Alone phead j tr t tr' t' ∧ t'.shared.mutex = none ∧ calls tr' = calls tr ++ [.addList ptemp pnode] := by
  obtain ⟨tr₁, t₁, h₁, hpc₁, hcalls₁, hheap₁⟩ := enters hr hout hfree (.addList ptemp)
  obtain ⟨tr₂, t₂, h₂, hcalls₂, hpc₂⟩ := allocates h₁.run hpc₁ (by rw [hheap₁]; exact hp)
  obtain ⟨tr₃, t₃, h₃, hmutex, hcalls₃, -⟩ := finishes pnode h₂.run (by rw [hpc₂]; rfl) fun ptemp => by
    rw [hpc₂]
    exact Pc.noConfusion
  refine ⟨tr₃, t₃, (h₁.trans h₂).trans h₃, hmutex, ?_⟩
  rw [hcalls₃, hcalls₂, hpc₂, hcalls₁]
  rfl

/-- It deletes a node. -/
theorem deletes {r : Result} (fdId : Int) (flag : Flag)
    (hr : ((program ι phead).lts (Shared.Fresh phead)).Run (fun _ a => Sends a.2) tr t) (hout : t.pc j = .out r)
    (hfree : t.shared.mutex = none) :
    ∃ tr' t', Alone phead j tr t tr' t' ∧ t'.shared.mutex = none ∧ calls tr' = calls tr ++ [.delList fdId flag] ∧
      ∃ r, t'.pc j = .out r := by
  obtain ⟨tr₁, t₁, h₁, hpc₁, hcalls₁, -⟩ := enters hr hout hfree (.delList fdId flag)
  obtain ⟨tr₂, t₂, h₂, hmutex, hcalls₂, hends⟩ := finishes 0 h₁.run (by rw [hpc₁]; rfl) fun ptemp => by
    rw [hpc₁]
    exact Pc.noConfusion
  refine ⟨tr₂, t₂, h₁.trans h₂, hmutex, ?_, ?_⟩
  · rw [hcalls₂, hpc₁, hcalls₁]
    rfl
  · refine hends.resolve_right ?_
    rintro ⟨q, a, -, hg, hmem⟩
    rw [hpc₁] at hmem
    have hcall : q.call = .delList fdId flag := List.mem_singleton.1 hmem
    rw [Query.call, hg] at hcall
    cases hcall

/-! ## The last line of `search_list` -/

/-- The step from here writes a link of the list. -/
def Pc.relinks : Pc → Bool
  | .entering _ _ | .bypassing _ _ _ => true
  | _ => false

omit [DecidableEq ι] in
/-- Other steps leave the list as it is. -/
theorem seq_quiet (h : Right phead (calls tr) (t.pc j)) (hq : (t.pc j).relinks = false) :
    seq (calls (tr ++ [(t, (j, b))])) = seq (calls tr) := by
  rw [calls_concat]
  have hone : ∀ {c : Linklist.Call}, c.onSeq (seq (calls tr)) = seq (calls tr) →
      seq (calls tr ++ [c]) = seq (calls tr) := by
    intro c hc
    rw [seq_append, hc]
  cases hpc : t.pc j with
  | entering => rw [hpc] at hq; cases hq
  | bypassing => rw [hpc] at hq; cases hq
  | unlocking n r =>
    rw [hpc] at h
    cases n with
    | none => exact congrArg seq (List.append_nil _)
    | some q => exact hone (Query.call_same h.2).1
  | releasing q a =>
    rw [hpc] at h
    exact hone (Query.call_search h.1).1
  | _ => exact congrArg seq (List.append_nil _)

omit [DecidableEq ι] in
theorem returning_from (hA : l.inside = true → At phead cs l s.heap)
    (h : step phead i b l s = some (.returning q a, s')) : l = .releasing q a := by
  by_cases hl : l.inside = true
  · rcases inside_cases hl (hA hl) h with hstay | ⟨hleaves, -⟩
    · cases hstay.inside
    · cases hleaves
      rfl
  · have hread : ∀ {l₁ : Pc}, some (l₁, s) = some (.returning q a, s') → l₁ ≠ .returning q a → l = .releasing q a :=
      fun he hne => absurd (congrArg Prod.fst (Option.some.inj he)) hne
    cases l with
    | out r =>
      cases b with
      | call f => exact hread h Pc.noConfusion
      | showList => exact hread h Pc.noConfusion
      | _ => cases h
    | locking f =>
      cases b with
      | go =>
        simp only [step, Option.ite_none_right_eq_some, Option.some.injEq, Prod.mk.injEq] at h
        cases f <;> cases h.2.1
      | _ => cases h
    | returning q p =>
      cases b with
      | go => exact hread h (load_of (· ≠ .returning _ _) Pc.noConfusion fun _ => Pc.noConfusion)
      | _ => cases h
    | looking p lines =>
      cases b with
      | go =>
        refine hread h (load_of (· ≠ .returning _ _) Pc.noConfusion fun c => ?_)
        split <;> exact Pc.noConfusion
      | _ => cases h
    | moving p lines =>
      cases b with
      | go =>
        exact hread h (load_of (· ≠ .returning _ _) Pc.noConfusion fun c =>
          follow_of (· ≠ .returning _ _) Pc.noConfusion fun _ => Pc.noConfusion)
      | _ => cases h
    | printing p lines =>
      cases b with
      | go => exact hread h (load_of (· ≠ .returning _ _) Pc.noConfusion fun _ => Pc.noConfusion)
      | _ => cases h
    | fault => cases b <;> cases h
    | _ => exact absurd rfl hl

/-- **What `search_list` returns after a hit** is what comes behind the predecessor of the match when it returns. That
is the match, still in the list, when no link was written since the mutex was given back. -/
theorem search_returns (hr : ((program ι phead).lts (Shared.Fresh phead)).Run C tr t)
    (hpc : t.pc i = .returning q a) :
    ∃ before t₁ b after done y rest, tr = before ++ (t₁, (i, b)) :: after ∧ t₁.pc i = .releasing q a ∧
      (∀ x ∈ after, x.2.1 ≠ i) ∧ seq (calls before) = done ++ y :: rest ∧
      first q.fdId q.flag (seq (calls before)) = some y ∧ a = Heap.position phead done ∧
      (∀ done' todo', seq (calls tr) = done' ++ todo' → a = Heap.position phead done' →
        step phead i .go (t.pc i) t.shared = some (.out (.pointer (todo'.head?.map Prod.fst)), t.shared)) ∧
      ((∀ x ∈ after, (x.1.pc x.2.1).relinks = false) →
        step phead i .go (t.pc i) t.shared = some (.out (.pointer (some y.1)), t.shared) ∧
          y ∈ seq (calls tr) ∧ ∃ n, t.shared.heap.read y.1 = some ⟨y.2, n⟩) := by
  obtain ⟨before, t₁, b, after, s', htr, hstep, hafter⟩ := Program.arrival (i := i) hr (by
    rw [hpc]
    exact Pc.noConfusion)
  have hrun₁ := (hr.before htr).1
  rw [hpc] at hstep
  have hfrom : t₁.pc i = .releasing q a := returning_from (fun hin => (run_keeps hrun₁).held i hin) hstep
  have hright := run_right hrun₁ i
  rw [hfrom] at hright
  obtain ⟨-, done, y, rest, hsplit, hfirst, ha⟩ := hright
  obtain ⟨x₀, hc⟩ := run_chain hr
  have hback : ∀ done' todo', seq (calls tr) = done' ++ todo' → a = Heap.position phead done' →
      step phead i .go (t.pc i) t.shared = some (.out (.pointer (todo'.head?.map Prod.fst)), t.shared) := by
    intro done' todo' hsplit' ha'
    rw [hsplit'] at hc
    obtain ⟨x, hread⟩ := hc.link done' todo'
    rw [← ha'] at hread
    rw [hpc]
    simp only [step, load_some hread]
  refine ⟨before, t₁, b, after, done, y, rest, htr, hfrom, hafter, hsplit, hfirst, ha, hback, fun hquiet => ?_⟩
  -- no link is written since: the list is the same
  have hsame : seq (calls (before ++ (t₁, (i, b)) :: after)) = seq (calls before) := by
    refine hr.since (D := fun t a => (t.pc a.1).relinks = false)
      (W := fun after _ => seq (calls (before ++ (t₁, (i, b)) :: after)) = seq (calls before)) htr hquiet ?_ ?_
    · intro t' hrun _ _
      exact seq_quiet (run_right hrun i) (by rw [hfrom]; rfl)
    · rintro after t ⟨j, b'⟩ t' hrun hseq - hD -
      have := seq_quiet (b := b') (run_right hrun j) hD
      rw [List.append_assoc, List.cons_append] at this
      rw [this, hseq]
  rw [← htr, hsplit] at hsame
  refine ⟨hback done (y :: rest) hsame ha, ?_, ?_⟩
  · rw [hsame]
    simp
  · rw [hsame] at hc
    exact ⟨_, Heap.Chain.cell ((phead, x₀) :: done) hc⟩

/-- The steps of one `add_list`. -/
def adding (n : OnlineNode) (pnode : Nat) : List (Bool × Choice) :=
  [(true, .call (.addList ⟨n, none⟩)), (true, .go), (true, .malloc pnode ⟨n, none⟩), (true, .go), (true, .go),
    (true, .go), (true, .go)]

/-- A hit of the other thread, up to its last line: the predecessor is the sentinel, or the first node. -/
def hitting (id : Int) : List (Bool × Choice) :=
  adding ⟨5, 10, ⟨1, 80⟩⟩ 1 ++ adding ⟨6, 11, ⟨2, 80⟩⟩ 2 ++
    [(false, .call (.searchList id .byId)), (false, .go), (false, .go), (false, .go), (false, .go)] ++
    if id = 6 then [] else [(false, .go), (false, .go), (false, .go)]

/-- The node that was found is taken out between the `pthread_mutex_unlock` and the `return`. -/
def overtaken : List (Bool × Choice) :=
  hitting 6 ++ [(true, .call (.delList 6 .byId)), (true, .go), (true, .go), (true, .go), (true, .go), (true, .go),
    (true, .go), (true, .go)]

theorem search_returns_hitting :
    step 0 false .go ((stateAfter overtaken).pc false) (stateAfter overtaken).shared =
      some (.out (.pointer (some 1)), (stateAfter overtaken).shared) := by
  obtain ⟨-, -, -, -, -, -, -, -, -, -, -, -, -, hback, -⟩ := search_returns (q := ⟨.searchList, 6, .byId⟩) (a := 0)
    (run_steps overtaken (by decide)) (by decide : (stateAfter overtaken).pc false = _)
  exact hback [] [(1, ⟨5, 10, ⟨1, 80⟩⟩)] (by decide) rfl

/-! ## Reads without the mutex -/

/-- The node that the next step reads outside of the mutex. -/
def Pc.reads : Pc → Option Nat
  | .returning _ p | .looking p _ | .moving p _ | .printing p _ => some p
  | _ => none

omit [DecidableEq ι] in
theorem dead_read (h : l.reads = some a) (ha : a ∉ s.heap.cells) : step phead i .go l s = some (.fault, s) := by
  have hr : s.heap.read a = none := by simpa [Heap.mem_cells] using ha
  have hload : ∀ k, load s.heap a k = .fault := fun k => by
    unfold load
    rw [hr]
  cases l with
  | returning | looking | moving | printing =>
    obtain rfl := Option.some.inj h
    simp only [step, hload]
  | _ => cases h

/-- Another thread empties the list up to a node. -/
theorem empties {r : Result} (hr : ((program ι phead).lts (Shared.Fresh phead)).Run (fun _ a => Sends a.2) tr t)
    (hout : t.pc j = .out r) (hfree : t.shared.mutex = none) (hx : seq (calls tr) = done ++ todo) :
    ∃ tr' t', Alone phead j tr t tr' t' ∧ t'.shared.mutex = none ∧ seq (calls tr') = todo ∧
      calls tr' = calls tr ++ done.map (fun y => .delList y.2.id .byId) := by
  induction done generalizing tr t r with
  | nil => exact ⟨tr, t, .refl hr, hfree, hx, (List.append_nil _).symm⟩
  | cons y done ih =>
    -- the head goes out by its id
    obtain ⟨tr₁, t₁, h₁, hmutex₁, hcalls₁, r₁, hout₁⟩ := deletes y.2.id .byId hr hout hfree
    have hseq : seq (calls tr₁) = done ++ todo := by
      rw [hcalls₁, seq_append, hx]
      show (y :: (done ++ todo)).eraseP (fun z => decide (key .byId z.2 = y.2.id)) = _
      rw [List.eraseP_cons_of_pos (by simp [key])]
    obtain ⟨tr₂, t₂, h₂, hmutex₂, hseq₂, hcalls₂⟩ := ih h₁.run hout₁ hmutex₁ hseq
    refine ⟨tr₂, t₂, h₁.trans h₂, hmutex₂, hseq₂, ?_⟩
    rw [hcalls₂, hcalls₁, List.append_assoc]
    rfl

/-- **A read without the mutex may be one of a freed node**: wherever a thread is about to make it, and it is not of
the sentinel, another thread can free the node first, by calls of `del_list` alone. -/
theorem unlocked_reads {r : Result}
    (hr : ((program ι phead).lts (Shared.Fresh phead)).Run (fun _ a => Sends a.2) tr t) (hfree : t.shared.mutex = none)
    (hji : i ≠ j) (hout : t.pc j = .out r) (hread : (t.pc i).reads = some a) (ha : a ≠ phead) :
    ∃ tr' t', ∃ fdIds : List Int, Alone phead j tr t tr' t' ∧
      calls tr' = calls tr ++ fdIds.map (fun fdId => .delList fdId .byId) ∧
      (t'.pc i).reads = some a ∧ a ∉ t'.shared.heap.cells ∧
      step phead i .go (t'.pc i) t'.shared = some (.fault, t'.shared) := by
  by_cases hmem : a ∈ (seq (calls tr)).map Prod.fst
  · obtain ⟨y, hy, rfl⟩ := List.mem_map.1 hmem
    obtain ⟨done, rest, hsplit⟩ := List.append_of_mem hy
    obtain ⟨tr', t', halone, hmutex, hseq, hcalls⟩ := empties hr hout hfree
      (show seq (calls tr) = (done ++ [y]) ++ rest by rw [hsplit]; simp)
    have hdead : y.1 ∉ t'.shared.heap.cells := by
      intro hlive
      have hl := ((run_keeps halone.run).unlocked hmutex).list
      rw [hseq] at hl
      -- behind it in the list there was no second node at its address
      have hnd := ((run_keeps hr).unlocked hfree).list.nodup
      rw [hsplit] at hnd
      rcases List.mem_cons.1 ((hl.live y.1).1 hlive) with he | hm
      · exact ha he
      · have := (List.nodup_cons.1 hnd).2
        rw [List.map_append, List.map_cons] at this
        exact (List.nodup_cons.1 (List.nodup_append.1 this).2.1).1 hm
    have hread' : (t'.pc i).reads = some y.1 := by rw [halone.others i hji]; exact hread
    refine ⟨tr', t', (done ++ [y]).map fun y => y.2.id, halone, ?_, hread', hdead, dead_read hread' hdead⟩
    rw [hcalls, List.map_map]
    rfl
  · -- it is freed already
    have hdead : a ∉ t.shared.heap.cells := by
      intro hlive
      rcases List.mem_cons.1 ((((run_keeps hr).unlocked hfree).list.live a).1 hlive) with he | hm
      · exact ha he
      · exact hmem hm
    exact ⟨tr, t, [], .refl hr, (List.append_nil _).symm, hread, hdead, dead_read hread hdead⟩

theorem unlocked_reads_hitting :
    ∃ tr' t', ∃ fdIds : List Int, Alone 0 true (stepsOf (hitting 5)) (stateAfter (hitting 5)) tr' t' ∧
      calls tr' = calls (stepsOf (hitting 5)) ++ fdIds.map (fun fdId => .delList fdId .byId) ∧
      (t'.pc false).reads = some 2 ∧ 2 ∉ t'.shared.heap.cells ∧
      step 0 false .go (t'.pc false) t'.shared = some (.fault, t'.shared) :=
  unlocked_reads (r := .void) (run_sends (hitting 5) (by decide)) (by decide) Bool.false_ne_true (by decide)
    (by decide) (by decide)

end UnixNote.Concurrent
