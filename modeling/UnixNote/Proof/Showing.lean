import UnixNote.Proof.Races

/-!
# `show_list` beside the other threads

`show_list` walks the list without the mutex. New nodes come in front of it, so that
`show_snapshot` holds as long as no node is taken out: it prints the list as it was at one moment of
the call. `unlocked_reads` is what a `del_list` can do to it.
-/

namespace UnixNote.Concurrent

open Linklist

variable {ι : Type*} [DecidableEq ι] {phead p : Nat} {i j : ι} {b : Choice} {l l' : Pc} {s s' : Shared ι}
  {H : Heap OnlineNode} {xs now now' done todo rest : List (Nat × OnlineNode)} {y : Nat × OnlineNode}
  {lines : List OnlineNode} {C : Threads ι Pc (Shared ι) → ι × Choice → Prop} {t t' t₁ : Threads ι Pc (Shared ι)}
  {x₀ : OnlineNode} {tr before after : List (Threads ι Pc (Shared ι) × (ι × Choice))}

/-- In `show_list`. -/
def Pc.showing : Pc → Bool
  | .looking _ _ | .moving _ _ | .printing _ _ => true
  | _ => false

/-- The step from here takes a node out of the list. -/
def Pc.unlinks : Pc → Bool
  | .bypassing _ _ _ => true
  | _ => false

/-- Behind `done`, which is printed, and in front of `todo`; the list has grown in front since. -/
structure Shown (phead : Nat) (xs now : List (Nat × OnlineNode)) (p : Nat) (lines : List OnlineNode)
    (done todo : List (Nat × OnlineNode)) : Prop where
  split : xs = done ++ todo
  suffix : xs <:+ now
  nonempty : done ≠ []
  position : p = Heap.position phead done
  printed : lines = done.map Prod.snd

/-- Where `show_list` stands when it prints `xs` and the list has become `now`. -/
def Shows (phead : Nat) (xs now : List (Nat × OnlineNode)) : Pc → Prop
  | .looking p lines => (p = phead ∧ lines = []) ∨ ∃ done todo, Shown phead xs now p lines done todo
  | .moving p lines =>
    (p = phead ∧ lines = [] ∧ now ≠ []) ∨ ∃ done y rest, Shown phead xs now p lines done (y :: rest)
  | .printing p lines =>
    ∃ done y rest, xs = done ++ y :: rest ∧ xs <:+ now ∧ p = y.1 ∧ lines = done.map Prod.snd
  | .out (.shown lines) => lines = xs.map Prod.snd
  | _ => False

omit [DecidableEq ι] in
theorem Shown.grow (h : Shown phead xs now p lines done todo) (hg : now <:+ now') :
    Shown phead xs now' p lines done todo := { h with suffix := h.suffix.trans hg }

omit [DecidableEq ι] in
theorem Shows.grow (h : Shows phead xs now l) (hg : now <:+ now') : Shows phead xs now' l := by
  cases l with
  | looking p lines =>
    rcases h with h | ⟨done, todo, h⟩
    · exact .inl h
    · exact .inr ⟨done, todo, h.grow hg⟩
  | moving p lines =>
    rcases h with ⟨hp, hlines, hne⟩ | ⟨done, y, rest, h⟩
    · refine .inl ⟨hp, hlines, fun he => hne ?_⟩
      rw [he] at hg
      exact List.suffix_nil.1 hg
    · exact .inr ⟨done, y, rest, h.grow hg⟩
  | printing p lines =>
    obtain ⟨done, y, rest, hsplit, hsuffix, hp, hlines⟩ := h
    exact ⟨done, y, rest, hsplit, hsuffix.trans hg, hp, hlines⟩
  | out r => cases r <;> exact h
  | _ => exact h.elim

omit [DecidableEq ι] in
/-- What the next pointer is. -/
theorem Shown.link (h : Shown phead xs now p lines done todo) (hc : H.Chain (some phead) ((phead, x₀) :: now)) :
    ∃ x, H.read p = some ⟨x, todo.head?.map Prod.fst⟩ := by
  obtain ⟨new, rfl⟩ := h.suffix
  have hpos : Heap.position phead (new ++ done) = p := by
    obtain ⟨y, hy⟩ := Option.ne_none_iff_exists'.1 (mt List.getLast?_eq_none_iff.1 h.nonempty)
    rw [h.position, Heap.position, Heap.position, List.getLast?_append, hy]
    rfl
  rw [h.split, ← List.append_assoc] at hc
  obtain ⟨x, hread⟩ := hc.link (new ++ done) todo
  exact ⟨x, hpos ▸ hread⟩

omit [DecidableEq ι] in
/-- **One step of `show_list`**: it prints what it has begun to print, or begins with the list as it is. -/
theorem shows_step (h : Shows phead xs now l) (hl : l.showing = true)
    (hc : s.heap.Chain (some phead) ((phead, x₀) :: now)) (hs : step phead i b l s = some (l', s')) :
    Shows phead xs now l' ∨ Shows phead now now l' := by
  have hlink : ∃ x, s.heap.read phead = some ⟨x, now.head?.map Prod.fst⟩ :=
    Heap.Chain.link [] now hc
  cases l with
  | looking p lines =>
    cases b with
    | go =>
      rcases h with ⟨rfl, rfl⟩ | ⟨done, todo, h⟩
      · obtain ⟨x, hread⟩ := hlink
        simp only [step, load_some hread, Option.some.injEq, Prod.mk.injEq] at hs
        obtain ⟨rfl, -⟩ := hs
        cases now with
        | nil => exact .inr rfl
        | cons y rest => exact .inl (.inl ⟨rfl, rfl, List.cons_ne_nil _ _⟩)
      · obtain ⟨x, hread⟩ := h.link hc
        simp only [step, load_some hread, Option.some.injEq, Prod.mk.injEq] at hs
        obtain ⟨rfl, -⟩ := hs
        cases todo with
        | nil =>
          refine .inl ?_
          show lines = xs.map Prod.snd
          rw [h.split, List.append_nil]
          exact h.printed
        | cons y rest => exact .inl (.inr ⟨done, y, rest, h⟩)
    | _ => cases hs
  | moving p lines =>
    cases b with
    | go =>
      rcases h with ⟨rfl, rfl, hne⟩ | ⟨done, y, rest, h⟩
      · obtain ⟨y, rest, rfl⟩ := List.exists_cons_of_ne_nil hne
        obtain ⟨x, hread⟩ := hlink
        simp only [step, load_some hread, List.head?_cons, Option.map_some, follow_some, Option.some.injEq,
          Prod.mk.injEq] at hs
        obtain ⟨rfl, -⟩ := hs
        exact .inr ⟨[], y, rest, rfl, List.suffix_refl _, rfl, rfl⟩
      · obtain ⟨x, hread⟩ := h.link hc
        simp only [step, load_some hread, List.head?_cons, Option.map_some, follow_some, Option.some.injEq,
          Prod.mk.injEq] at hs
        obtain ⟨rfl, -⟩ := hs
        exact .inl ⟨done, y, rest, h.split, h.suffix, rfl, h.printed⟩
    | _ => cases hs
  | printing p lines =>
    cases b with
    | go =>
      obtain ⟨done, y, rest, hsplit, hsuffix, rfl, hlines⟩ := h
      have hread : s.heap.read y.1 = some ⟨y.2, rest.head?.map Prod.fst⟩ := by
        obtain ⟨new, rfl⟩ := hsuffix
        rw [hsplit] at hc
        exact Heap.Chain.cell ((phead, x₀) :: (new ++ done)) (by simpa using hc)
      simp only [step, load_some hread, Option.some.injEq, Prod.mk.injEq] at hs
      obtain ⟨rfl, -⟩ := hs
      refine .inl (.inr ⟨done ++ [y], rest, by rw [hsplit]; simp, hsuffix, by simp, by simp, ?_⟩)
      rw [hlines, List.map_append]
      rfl
    | _ => cases hs
  | _ => cases hl

omit [DecidableEq ι] in
/-- A step that takes nothing out lets the list grow in front. -/
theorem seq_grows (h : Right phead (calls tr) (t.pc j)) (hq : (t.pc j).unlinks = false) :
    seq (calls tr) <:+ seq (calls (tr ++ [(t, (j, b))])) := by
  by_cases hr : (t.pc j).relinks = true
  · cases hpc : t.pc j with
    | entering ptemp pnode =>
      rw [calls_concat, hpc]
      show _ <:+ seq (calls tr ++ [.addList ptemp pnode])
      rw [seq_append]
      exact List.suffix_cons _ _
    | bypassing => rw [hpc] at hq; cases hq
    | _ => rw [hpc] at hr; cases hr
  · rw [seq_quiet h (by simpa using hr)]

/-- **`show_list` prints a snapshot** when no node is taken out meanwhile: it does not fault, and what it has printed
when it returns is the list as it was at one moment since its call. -/
theorem show_snapshot (hr : ((program ι phead).lts (Shared.Fresh phead)).Run C tr t)
    (htr : tr = before ++ (t₁, (i, .showList)) :: after) (hshow : ∀ x ∈ after, (x.1.pc i).showing = true)
    (hquiet : ∀ x ∈ after, (x.1.pc x.2.1).unlinks = false) :
    t.pc i ≠ .fault ∧ ∀ lines, t.pc i = .out (.shown lines) →
      ∃ mid, mid <+: after ∧ lines = (seq (calls (before ++ (t₁, (i, .showList)) :: mid))).map Prod.snd := by
  have hW : ∃ mid, mid <+: after ∧ Shows phead (seq (calls (before ++ (t₁, (i, .showList)) :: mid)))
      (seq (calls (before ++ (t₁, (i, .showList)) :: after))) (t.pc i) := by
    refine hr.since (D := fun t a => (t.pc i).showing = true ∧ (t.pc a.1).unlinks = false)
      (W := fun after t => ∃ mid, mid <+: after ∧ Shows phead (seq (calls (before ++ (t₁, (i, .showList)) :: mid)))
        (seq (calls (before ++ (t₁, (i, .showList)) :: after))) (t.pc i)) htr
      (fun x hx => ⟨hshow x hx, hquiet x hx⟩) ?_ ?_
    · intro t' _ _ hn
      obtain ⟨l', s', hs, -, hpc, -⟩ := Program.next_some hn
      refine ⟨[], List.prefix_rfl, ?_⟩
      rw [hpc]
      cases h : t₁.pc i <;> rw [h] at hs <;> cases hs
      exact .inl ⟨rfl, rfl⟩
    · rintro after t ⟨j, b⟩ t' hrun ⟨mid, hmid, hshows⟩ - ⟨hin, hkeep⟩ hn
      obtain ⟨l', s', hs, -, hpc, hothers⟩ := Program.next_some hn
      have hgrow := seq_grows (b := b) (run_right hrun j) hkeep
      rw [List.append_assoc, List.cons_append] at hgrow
      have hprefix : mid <+: after ++ [(t, (j, b))] := hmid.trans (List.prefix_append ..)
      by_cases hj : j = i
      · subst hj
        obtain ⟨x₀, hc⟩ := run_chain hrun
        rw [hpc]
        rcases shows_step hshows hin hc hs with h | h
        · exact ⟨mid, hprefix, h.grow hgrow⟩
        · exact ⟨after, List.prefix_append .., h.grow hgrow⟩
      · rw [hothers i (Ne.symm hj)]
        exact ⟨mid, hprefix, hshows.grow hgrow⟩
  obtain ⟨mid, hmid, hshows⟩ := hW
  refine ⟨fun hf => ?_, fun lines hlines => ⟨mid, hmid, ?_⟩⟩
  · rw [hf] at hshows
    exact hshows
  · rw [hlines] at hshows
    exact hshows

/-- A list is printed while a node comes in. -/
def printing : List (Bool × Choice) :=
  adding ⟨5, 10, ⟨1, 80⟩⟩ 1 ++ [(false, .showList), (false, .go)] ++ adding ⟨6, 11, ⟨2, 80⟩⟩ 2 ++
    [(false, .go), (false, .go), (false, .go), (false, .go), (false, .go), (false, .go)]

theorem show_snapshot_printing :
    ∃ mid, mid <+: Lts.steps (program Bool 0).act (stateAfter (printing.take 8)) (printing.drop 8) ∧
      [⟨6, 11, ⟨2, 80⟩⟩, ⟨5, 10, ⟨1, 80⟩⟩] = (seq (calls (stepsOf (printing.take 7) ++
        (stateAfter (printing.take 7), (false, .showList)) :: mid))).map Prod.snd :=
  (show_snapshot (run_steps printing (by decide)) rfl (by decide) (by decide)).2 _ (by decide)

end UnixNote.Concurrent
