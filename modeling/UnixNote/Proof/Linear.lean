import Mathlib.Data.Fintype.EquivFin
import UnixNote.Proof.Sections

/-!
# The list between threads is a sequence of calls

* `linearizable`: in every run the list is what the calls make it, in the order in which they took
  place, each of them as `Right` says; nobody else is inside, and no access inside is a fault.
* `section_ends`: a thread that has locked the mutex is inside for a bounded number of its steps, and
  always has the next one.
* `sendto_freezes`: after a `sendto` that fails in mode `A` the list stays as it is for good.
-/

namespace UnixNote.Concurrent

open Linklist

variable {ι : Type*} [DecidableEq ι] {phead a p : Nat} {i j : ι} {b : Choice} {l l' : Pc} {s s' : Shared ι}
  {H : Heap OnlineNode} {q : Query} {cs : List Linklist.Call} {xs done todo rest : List (Nat × OnlineNode)}
  {y : Nat × OnlineNode} {C : Threads ι Pc (Shared ι) → ι × Choice → Prop} {t t' t₁ : Threads ι Pc (Shared ι)}
  {tr before after : List (Threads ι Pc (Shared ι) × (ι × Choice))}

/-! ## Two threads -/

/-- A new list at 0, and two threads. -/
def fresh : Threads Bool Pc (Shared Bool) := ⟨fun _ => .out .void, ⟨none, created 0 ⟨0, 0, ⟨0, 0⟩⟩⟩⟩

/-- The steps of two threads, and what they lead to. -/
abbrev stepsOf (as : List (Bool × Choice)) : List (Threads Bool Pc (Shared Bool) × (Bool × Choice)) :=
  Lts.steps (program Bool 0).act fresh as

abbrev stateAfter (as : List (Bool × Choice)) : Threads Bool Pc (Shared Bool) := as.foldl (program Bool 0).act fresh

/-- Steps that the two threads have are a run. -/
theorem run_steps (as : List (Bool × Choice))
    (h : Lts.Script (fun t a => ((program Bool 0).next t a).isSome = true) (program Bool 0).act fresh as) :
    ((program Bool 0).lts (Shared.Fresh 0)).Run (fun _ _ => True) (stepsOf as) (stateAfter as) := by
  have h₀ : ((program Bool 0).lts (Shared.Fresh 0)).Run (fun _ _ => True) [] fresh := .start ⟨rfl, _, rfl⟩
  exact Program.run_script (fun _ _ => trivial) h₀ as h

/-- One thread adds a node, and the other looks for it in the meantime. -/
def meeting : List (Bool × Choice) :=
  [(true, .call (.addList ⟨⟨5, 10, ⟨1, 80⟩⟩, none⟩)), (true, .go), (true, .malloc 1 ⟨⟨0, 0, ⟨0, 0⟩⟩, some 9⟩),
    (false, .call (.searchList 5 .byId)), (true, .go), (true, .go), (true, .go), (true, .go), (false, .go),
    (false, .go), (false, .go), (false, .go), (false, .go)]

/-! ## The calls -/

/-- What is true where a call takes place, or the loop of mode `A` is over, when the calls `cs` came before. -/
def Right (phead : Nat) (cs : List Linklist.Call) : Pc → Prop
  | .entering _ pnode => pnode ∉ phead :: (seq cs).map Prod.fst
  | .bypassing q _ a => q.goal = .delList ∧ ∃ n, first q.fdId q.flag (seq cs) = some (a, n)
  | .unlocking (some q) r => r = q.missed ∧ first q.fdId q.flag (seq cs) = none
  | .releasing q a =>
    q.goal = .searchList ∧ ∃ done y rest, seq cs = done ++ y :: rest ∧ first q.fdId q.flag (seq cs) = some y ∧
      a = Heap.position phead done
  | .sending none addrs => addrs = (seq cs).map fun y => y.2.addr
  | _ => True

omit [DecidableEq ι] in
theorem At.right (h : At phead cs l H) : Right phead cs l := by
  cases l with
  | entering ptemp pnode => exact h.1.spare.off
  | bypassing q p a =>
    obtain ⟨hg, -, done, y, rest, hh, rfl⟩ := h
    exact ⟨hg, y.2, hh.first⟩
  | unlocking n r =>
    cases n with
    | none => trivial
    | some q => exact h.2
  | releasing q p =>
    obtain ⟨hg, -, done, y, rest, hh⟩ := h
    exact ⟨hg, done, y, rest, hh.split, hh.first, hh.position⟩
  | sending n addrs =>
    cases n with
    | none => exact sending_all h
    | some a => trivial
  | _ => trivial

omit [DecidableEq ι] in
/-- Whoever is inside finds the list whole. -/
theorem At.chain (hl : l.inside = true) (h : At phead cs l H) :
    ∃ x₀, H.Chain (some phead) ((phead, x₀) :: seq cs) := by
  cases l with
  | allocating | heading => exact h.list.chain
  | copying => exact h.spare.chain
  | linking | entering => exact h.1.spare.chain
  | testing | comparing | advancing | sending | following => exact h.1.list.chain
  | keeping | bypassing | releasing => exact h.2.1.list.chain
  | freeing => exact h.spare.chain
  | unlocking n r =>
    cases n with
    | none => exact h.list.chain
    | some q => exact h.1.list.chain
  | _ => cases hl

/-- The list after a run. -/
structure Linear (phead : Nat) (tr : List (Threads ι Pc (Shared ι) × (ι × Choice))) (t : Threads ι Pc (Shared ι)) :
    Prop where
  exclusive : ∀ i, (t.pc i).inside = true → t.shared.mutex = some i
  chain : ∃ x₀, t.shared.heap.Chain (some phead) ((phead, x₀) :: seq (calls tr))
  unlocked : t.shared.mutex = none →
    t.shared.heap.IsList phead (seq (calls tr)) ∧ t.shared.heap.freed = removed [] (calls tr)
  right : ∀ before t₁ i b after, tr = before ++ (t₁, (i, b)) :: after → Right phead (calls before) (t₁.pc i)
  sound : ∀ i b t', (t.pc i).inside = true → (program ι phead).next t (i, b) = some t' → t'.pc i ≠ .fault

/-- A thread stands where it has to. -/
theorem run_right (hr : ((program ι phead).lts (Shared.Fresh phead)).Run C tr t) (i : ι) :
    Right phead (calls tr) (t.pc i) := by
  by_cases hi : (t.pc i).inside = true
  · exact ((run_keeps hr).held i hi).right
  · cases hpc : t.pc i <;> first | trivial | exact absurd (by rw [hpc]; rfl) hi

theorem run_chain (hr : ((program ι phead).lts (Shared.Fresh phead)).Run C tr t) :
    ∃ x₀, t.shared.heap.Chain (some phead) ((phead, x₀) :: seq (calls tr)) := by
  have hk := run_keeps hr
  by_cases hi : ∃ i, (t.pc i).inside = true
  · obtain ⟨i, hi⟩ := hi
    exact (hk.held i hi).chain hi
  · exact (hk.free fun i h => hi ⟨i, h⟩).list.chain

/-- **The list between threads is a sequence of calls.** -/
theorem linearizable (hr : ((program ι phead).lts (Shared.Fresh phead)).Run C tr t) : Linear phead tr t where
  exclusive := (run_keeps hr).owner
  chain := run_chain hr
  unlocked hfree := by
    have hl := (run_keeps hr).unlocked hfree
    exact ⟨hl.list, hl.freed⟩
  right before t₁ i b after htr := run_right (hr.before htr).1 i
  sound i b t' hi hn := by
    obtain ⟨l', s', hs, -, hpc, -⟩ := Program.next_some hn
    rw [hpc]
    rcases inside_cases hi ((run_keeps hr).held i hi) hs with hstay | ⟨hleaves, -⟩
    · intro hf
      have := hstay.inside
      rw [hf] at this
      cases this
    · exact hleaves.sound

theorem linearizable_meeting :
    Linear 0 (stepsOf meeting) (stateAfter meeting) ∧ (stateAfter meeting).pc false = .out (.pointer (some 1)) :=
  ⟨linearizable (run_steps meeting (by decide)), by decide⟩

/-! ## A section ends -/

/-- A bound on the steps that a thread takes until it leaves. -/
def Pc.rank (phead : Nat) (cs : List Linklist.Call) : Pc → Nat
  | .allocating _ => 5
  | .copying _ _ => 4
  | .linking _ _ => 3
  | .entering _ _ => 2
  | .testing _ p => 3 * behind phead (seq cs) p + 4
  | .comparing _ p => 3 * behind phead (seq cs) p + 3
  | .advancing _ p => 3 * behind phead (seq cs) p + 2
  | .keeping _ _ => 4
  | .bypassing _ _ _ => 3
  | .freeing _ _ => 2
  | .unlocking _ _ => 1
  | .releasing _ _ => 1
  | .heading => 2 * (seq cs).length + 3
  | .sending n _ => 2 * left phead (seq cs) n + 2
  | .following a _ => 2 * behind phead (seq cs) a + 3
  | _ => 0

omit [DecidableEq ι] in
/-- **Every step inside lowers the rank.** -/
theorem rank_lowers (hm : Moves phead (seq cs) l l') : l'.rank phead (cs ++ l.commits.toList) < l.rank phead cs := by
  have hsame : cs ++ ([] : List Linklist.Call) = cs := List.append_nil cs
  cases hm with
  | allocate | copy | link | enter | keep | bypass | free => exact Nat.lt_succ_self _
  | sent => exact Nat.lt_succ_self 1
  | @miss q p =>
    show 1 < 3 * behind phead (seq cs) p + 4
    omega
  | @test q p =>
    show 3 * behind phead (seq (cs ++ [])) p + 3 < 3 * behind phead (seq cs) p + 4
    rw [hsame]
    omega
  | @hit q p hpos =>
    have hfound : (q.found p).rank phead (cs ++ []) ≤ 4 := by
      unfold Query.found
      split
      · exact Nat.le_refl 4
      · exact (by decide : 1 ≤ 4)
    refine Nat.lt_of_le_of_lt hfound ?_
    show 4 < 3 * behind phead (seq cs) p + 3
    omega
  | @differ q p =>
    show 3 * behind phead (seq (cs ++ [])) p + 2 < 3 * behind phead (seq cs) p + 3
    rw [hsame]
    omega
  | @advance q p a hlt =>
    show 3 * behind phead (seq (cs ++ [])) a + 4 < 3 * behind phead (seq cs) p + 2
    rw [hsame]
    omega
  | @head n hle =>
    show 2 * left phead (seq (cs ++ [])) n + 2 < 2 * (seq cs).length + 3
    rw [hsame]
    omega
  | @send a addrs x =>
    show 2 * behind phead (seq (cs ++ [])) a + 3 < 2 * (behind phead (seq cs) a + 1) + 2
    rw [hsame]
    omega
  | @next a n addrs hle =>
    show 2 * left phead (seq (cs ++ [])) n + 2 < 2 * behind phead (seq cs) a + 3
    rw [hsame]
    omega

omit [DecidableEq ι] in
/-- Inside there is always a next step, one without a failing `sendto`. -/
theorem inside_goes (hl : l.inside = true) (h : At phead cs l s.heap) :
    ∃ b, Sends b ∧ (step phead i b l s).isSome = true := by
  have hgo : ∀ {b : Choice} {l' : Pc}, Sends b → Goes phead i cs b l s l' →
      ∃ b, Sends b ∧ (step phead i b l s).isSome = true := by
    rintro b l' hb ⟨s', hs, -⟩
    exact ⟨b, hb, by rw [hs]; rfl⟩
  cases l with
  | allocating ptemp =>
    obtain ⟨pnode, hp⟩ := Infinite.exists_notMem_finset s.heap.cells.keys
    exact hgo (b := .malloc pnode ptemp) trivial (allocating_goes h fun hm => hp (Finmap.mem_keys.2 hm))
  | copying => exact hgo (b := .go) trivial (copying_goes h)
  | linking => exact hgo (b := .go) trivial (linking_goes h)
  | entering => exact hgo (b := .go) trivial (entering_goes h)
  | testing => exact (testing_goes h).elim (hgo (b := .go) trivial) (hgo (b := .go) trivial)
  | comparing => exact (comparing_goes h).elim (hgo (b := .go) trivial) (hgo (b := .go) trivial)
  | advancing =>
    obtain ⟨_, _, _, _, hg⟩ := advancing_goes (i := i) h
    exact hgo (b := .go) trivial hg
  | keeping =>
    obtain ⟨a, hg⟩ := keeping_goes (i := i) h
    exact hgo (b := .go) trivial hg
  | bypassing => exact hgo (b := .go) trivial (bypassing_goes h)
  | freeing => exact hgo (b := .go) trivial (freeing_goes h)
  | unlocking => exact ⟨.go, trivial, rfl⟩
  | releasing => exact ⟨.go, trivial, rfl⟩
  | heading => exact hgo (b := .go) trivial (heading_goes h)
  | sending n addrs =>
    cases n with
    | none => exact hgo (b := .go) trivial (sending_goes h)
    | some a =>
      obtain ⟨x, hg⟩ := sent_goes (i := i) h
      exact hgo (b := .sendto true) rfl hg
  | following =>
    obtain ⟨_, _, _, _, _, hg⟩ := following_goes (i := i) h
    exact hgo (b := .go) trivial hg
  | _ => cases hl

omit [DecidableEq ι] in
/-- The rank of a thread that has just locked the mutex. -/
theorem body_rank (f : Fn) : (f.body phead).rank phead cs ≤ 3 * (seq cs).length + 5 := by
  have hhead : behind phead (seq cs) phead = (seq cs).length := by simp [behind]
  cases f with
  | addList ptemp => exact Nat.le_add_left 5 _
  | delList fdId flag =>
    show 3 * behind phead (seq cs) phead + 4 ≤ _
    omega
  | searchList fdId flag =>
    show 3 * behind phead (seq cs) phead + 4 ≤ _
    omega
  | sendAll =>
    show 2 * (seq cs).length + 3 ≤ _
    omega

/-- **A critical section ends.** A thread that is still inside has taken few steps since it locked the mutex, and
can take the next. -/
theorem section_ends {f : Fn} (hr : ((program ι phead).lts (Shared.Fresh phead)).Run C tr t)
    (htr : tr = before ++ (t₁, (i, b)) :: after) (hlock : t₁.pc i = .locking f)
    (hstays : ∀ x ∈ after, (x.1.pc i).inside = true) (hin : (t.pc i).inside = true) :
    after.countP (fun x => decide (x.2.1 = i)) < 3 * (seq (calls before)).length + 5 ∧
      ∃ b, Sends b ∧ ((program ι phead).next t (i, b)).isSome = true := by
  have hk := run_keeps hr
  have hA := hk.held i hin
  have hquiet : ∀ l, ¬l.inside = true → Pc.commits l = none := fun l hl => commits_outside hl
  refine ⟨?_, ?_⟩
  · have hb := Program.Mutex.bounded (M := mutex ι phead) (R := 3 * (seq (calls before)).length + 5)
      (fun cs l _ => l.rank phead cs) hquiet (fun _ _ hr => run_keeps hr)
      (fun cs t i b l' s' hl hs hA hin => ?_) hr htr ?_ hstays hin
    · have hpos : 0 < (t.pc i).rank phead (calls tr) := by
        cases hpc : t.pc i with
        | _ => first | exact Nat.succ_pos _ | (rw [hpc] at hin; cases hin)
      have : (t.pc i).rank phead (calls tr) + after.countP (fun x => decide (x.2.1 = i)) ≤ _ := hb
      omega
    · rcases inside_cases hl hA hs with hstay | ⟨hleaves, -⟩
      · exact rank_lowers hstay.move
      · exact absurd (hleaves.outside.symm.trans hin) Bool.false_ne_true
    · intro t' hn hin'
      obtain ⟨l', s', hs, -, hpc, -⟩ := Program.next_some hn
      have hlog : Program.log Pc.commits (before ++ [(t₁, (i, b))]) = calls before := by
        rw [Program.Mutex.log_append, Program.Mutex.log_singleton, hlock]
        exact List.append_nil _
      rw [hlog, hpc]
      rw [hlock] at hs
      obtain ⟨-, hcase⟩ := outside_step rfl hs
      rcases hcase with ⟨hout, -⟩ | ⟨-, -, f', hf, rfl⟩
      · rw [hpc] at hin'
        exact absurd (hout.symm.trans hin') Bool.false_ne_true
      · exact body_rank f'
  · obtain ⟨b, hb, hs⟩ := inside_goes (i := i) hin hA
    refine ⟨b, hb, ?_⟩
    rw [Program.next, Option.isSome_map]
    exact hs

theorem section_ends_meeting :
    (Lts.steps (program Bool 0).act (stateAfter (meeting.take 2)) ((meeting.take 6).drop 2)).countP
        (fun x => decide (x.2.1 = true)) < 3 * (seq (calls (stepsOf (meeting.take 1)))).length + 5 ∧
      ∃ b, Sends b ∧ ((program Bool 0).next (stateAfter (meeting.take 6)) (true, b)).isSome = true :=
  section_ends (run_steps (meeting.take 6) (by decide)) rfl rfl (by decide) (by decide)

/-! ## A mutex that nobody gives back -/

/-- **A `sendto` that fails in mode `A` freezes the list**: its thread keeps the mutex, nobody comes in any more, and
nothing changes. -/
theorem sendto_freezes (hr : ((program ι phead).lts (Shared.Fresh phead)).Run C tr t)
    (htr : tr = before ++ (t₁, (i, .sendto false)) :: after) :
    t.shared.mutex = some i ∧ (∀ j, (t.pc j).inside = false) ∧ calls tr = calls before ∧
      t.shared.heap = t₁.shared.heap ∧
      ∀ j f, t.pc j = .locking f → ∀ b, (program ι phead).next t (j, b) = none := by
  have hk := run_keeps (hr.before htr).1
  -- the thread was in the loop, and is outside with the mutex
  have hfirst : ∀ t', (program ι phead).next t₁ (i, .sendto false) = some t' →
      (mutex ι phead).Stuck i t' ∧ t'.shared.heap = t₁.shared.heap ∧ (t₁.pc i).commits = none := by
    intro t' hn
    obtain ⟨l', s', hs, hs', hpc, hothers⟩ := Program.next_some hn
    obtain ⟨a, addrs, hsend⟩ : ∃ a addrs, t₁.pc i = .sending (some a) addrs := by
      cases h : t₁.pc i with
      | sending n addrs =>
        cases n with
        | none => rw [h] at hs; cases hs
        | some a => exact ⟨a, addrs, rfl⟩
      | _ => rw [h] at hs; cases hs
    have hin : (mutex ι phead).inside (t₁.pc i) := by rw [hsend]; rfl
    have howner := hk.owner i hin
    have hA := hk.held i hin
    rw [hsend] at hs hA
    obtain ⟨done, y, rest, -, -, -, hstep⟩ := sending_step (i := i) false hA
    obtain ⟨rfl, rfl⟩ := Prod.mk.inj (Option.some.inj (hstep.symm.trans hs))
    refine ⟨⟨?_, fun j => ?_⟩, congrArg Shared.heap hs', by rw [hsend]; rfl⟩
    · show t'.shared.mutex = some i
      rw [hs']
      exact howner
    · by_cases hj : j = i
      · rw [hj, hpc]
        exact Bool.false_ne_true
      · rw [hothers j hj]
        exact fun hx => hj (hk.alone howner hx)
  obtain ⟨hstuck, hlog, t', hn, hmem⟩ := Program.Mutex.stuck_run (M := mutex ι phead)
    (fun l hl => commits_outside hl) hr htr fun t' hn => (hfirst t' hn).1
  obtain ⟨-, hheap, hquiet⟩ := hfirst t' hn
  refine ⟨hstuck.owner, fun j => Bool.eq_false_iff.2 (hstuck.outside j), ?_, ?_, fun j f hj b => ?_⟩
  · rw [htr, ← List.singleton_append, calls, Program.Mutex.log_append, Program.Mutex.log_append,
      Program.Mutex.log_singleton, hquiet, hlog]
    simp [calls]
  · exact (show t.shared.heap = t'.shared.heap from hmem).trans hheap
  · have hs : (program ι phead).step j b (.locking f) t.shared = none := by
      have howner : t.shared.mutex = some i := hstuck.owner
      cases b with
      | go =>
        show (if t.shared.mutex.isNone then _ else none) = none
        rw [howner]
        rfl
      | _ => rfl
    rw [Program.next, hj, hs]
    rfl

/-- A node is added, and sent to in vain; then the other thread looks for it. -/
def broken : List (Bool × Choice) :=
  [(true, .call (.addList ⟨⟨5, 10, ⟨1, 80⟩⟩, none⟩)), (true, .go), (true, .malloc 1 ⟨⟨0, 0, ⟨0, 0⟩⟩, none⟩),
    (true, .go), (true, .go), (true, .go), (true, .go), (true, .call .sendAll), (true, .go), (true, .go),
    (true, .sendto false), (false, .call (.searchList 5 .byId))]

theorem sendto_freezes_broken :
    (stateAfter broken).shared.mutex = some true ∧ (stateAfter broken).pc false = .locking (.searchList 5 .byId) ∧
      ∀ b, (program Bool 0).next (stateAfter broken) (false, b) = none := by
  obtain ⟨hmutex, -, -, -, hblocked⟩ := sendto_freezes (run_steps broken (by decide))
    (show stepsOf broken = stepsOf (broken.take 10) ++ (stateAfter (broken.take 10), (true, .sendto false)) ::
      Lts.steps (program Bool 0).act (stateAfter (broken.take 11)) (broken.drop 11) from rfl)
  exact ⟨hmutex, by decide, hblocked false (.searchList 5 .byId) (by decide)⟩

end UnixNote.Concurrent
