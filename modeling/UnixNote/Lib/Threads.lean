import UnixNote.Lib.Runs
import Mathlib.Logic.Function.Basic
import Mathlib.Logic.Relation

/-!
# Threads over a shared state

Any number of threads, each with a program of its own, take atomic steps in any order on a
state they share. What a step does may depend on a choice that is not the thread's, such as
whether a call fails.

* `Program.run_annotated`: the rule for invariants. Every thread has an assertion about
  where it stands and what is shared, which its own steps maintain and the steps of others
  do not disturb.
* `Program.Solo`: a thread that is not interrupted.
* `Program.arrival`: a thread that is not at its start has come there by a step of its own.
* `Program.run_script`: a run from a list of steps.
-/

namespace UnixNote

variable {ι β κ σ : Type*} [DecidableEq ι]

/-- Where each thread stands, and what they share. -/
structure Threads (ι κ σ : Type*) where
  pc : ι → κ
  shared : σ

/-- Where each thread starts, and the step it takes from there, if it has one. -/
structure Program (ι β κ σ : Type*) where
  start : ι → κ
  step : ι → β → κ → σ → Option (κ × σ)

namespace Program

/-- One step of one thread. -/
def next (P : Program ι β κ σ) (p : Threads ι κ σ) (a : ι × β) : Option (Threads ι κ σ) :=
  (P.step a.1 a.2 (p.pc a.1) p.shared).map fun r => ⟨Function.update p.pc a.1 r.1, r.2⟩

/-- One step, or none where the thread has none. -/
def act (P : Program ι β κ σ) (p : Threads ι κ σ) (a : ι × β) : Threads ι κ σ := (P.next p a).getD p

/-- All threads at their start, over a shared state with `I`. -/
def lts (P : Program ι β κ σ) (I : σ → Prop) : Lts (Threads ι κ σ) (ι × β) where
  init p := p.pc = P.start ∧ I p.shared
  step p a p' := P.next p a = some p'

variable {P : Program ι β κ σ} {p p' : Threads ι κ σ} {I G : σ → Prop} {L : ι → κ → σ → Prop} {i : ι} {b : β}
  {C : Threads ι κ σ → ι × β → Prop} {tr : List (Threads ι κ σ × (ι × β))}

/-- What one step changes. -/
theorem next_some (h : P.next p (i, b) = some p') :
    ∃ l s, P.step i b (p.pc i) p.shared = some (l, s) ∧ p'.shared = s ∧ p'.pc i = l ∧
      ∀ j, j ≠ i → p'.pc j = p.pc j := by
  unfold next at h
  obtain ⟨⟨l, s⟩, hstep, rfl⟩ := Option.map_eq_some_iff.1 h
  refine ⟨l, s, hstep, rfl, Function.update_self .., ?_⟩
  intro j hj
  exact Function.update_of_ne hj ..

/-- **Annotated threads.** The shared state has `G` and every thread has `L`, if they do at the start and a
step of a thread gives both to itself and leaves the others theirs. -/
theorem run_annotated (hinit : ∀ s, I s → G s ∧ ∀ i, L i (P.start i) s)
    (hstep : ∀ p i b l s, C p (i, b) → G p.shared → L i (p.pc i) p.shared →
      P.step i b (p.pc i) p.shared = some (l, s) →
      G s ∧ L i l s ∧ ∀ j k, j ≠ i → L j k p.shared → L j k s)
    (hr : (P.lts I).Run C tr p) : G p.shared ∧ ∀ i, L i (p.pc i) p.shared := by
  refine hr.invariant (I := fun p => G p.shared ∧ ∀ i, L i (p.pc i) p.shared) ?_ ?_
  · rintro p ⟨hpc, hI⟩
    rw [hpc]
    exact hinit _ hI
  · rintro p ⟨i, b⟩ p' ⟨hG, hL⟩ hC hnext
    obtain ⟨l, s, hs, rfl, rfl, hothers⟩ := next_some hnext
    obtain ⟨hG', hown, hkeep⟩ := hstep p i b _ _ hC hG (hL i) hs
    refine ⟨hG', fun j => ?_⟩
    by_cases hj : j = i
    · rw [hj]
      exact hown
    · rw [hothers j hj]
      exact hkeep j _ hj (hL j)

/-- **How a thread came to where it stands**: by a step of its own, since when it has taken none. -/
theorem arrival (hr : (P.lts I).Run C tr p) (hi : p.pc i ≠ P.start i) :
    ∃ before p₁ b after s', tr = before ++ (p₁, (i, b)) :: after ∧
      P.step i b (p₁.pc i) p₁.shared = some (p.pc i, s') ∧ ∀ x ∈ after, x.2.1 ≠ i := by
  induction hr with
  | start hp => exact absurd (congrFun hp.1 i) hi
  | @next tr p p' a hrun hC hnext ih =>
    obtain ⟨l, s, hs, -, hpc, hothers⟩ := next_some hnext
    by_cases ha : a.1 = i
    · subst ha
      rw [hpc]
      exact ⟨tr, p, a.2, [], s, rfl, hs, fun _ hx => absurd hx List.not_mem_nil⟩
    · have hsame : p'.pc i = p.pc i := hothers i (Ne.symm ha)
      rw [hsame] at hi ⊢
      obtain ⟨before, p₁, b, after, s', rfl, hstep, hafter⟩ := ih hi
      refine ⟨before, p₁, b, after ++ [(p, a)], s', by simp, hstep, fun x hx => ?_⟩
      rcases List.mem_append.1 hx with hx | hx
      · exact hafter x hx
      · rw [List.mem_singleton.1 hx]
        exact ha

/-- What one thread comes to when nobody interrupts it. -/
abbrev Solo (P : Program ι β κ σ) (i : ι) : κ × σ → κ × σ → Prop :=
  Relation.ReflTransGen fun c c' => ∃ b, P.step i b c.1 c.2 = some c'

omit [DecidableEq ι] in
/-- A first step. -/
theorem Solo.head {l l' : κ} {s s' : σ} {c : κ × σ} (b : β) (h : P.step i b l s = some (l', s'))
    (hc : P.Solo i (l', s') c) : P.Solo i (l, s) c := Relation.ReflTransGen.head ⟨b, h⟩ hc

omit [DecidableEq ι] in
/-- A last step. -/
theorem Solo.last {l : κ} {s : σ} {c : κ × σ} (b : β) (h : P.step i b l s = some c) : P.Solo i (l, s) c :=
  .single ⟨b, h⟩

/-- Steps that the threads have make a run. -/
theorem run_script (hC : ∀ p a, C p a) (hr : (P.lts I).Run C tr p) (as : List (ι × β))
    (h : Lts.Script (fun p a => (P.next p a).isSome) P.act p as) :
    (P.lts I).Run C (tr ++ Lts.steps P.act p as) (as.foldl P.act p) := by
  refine hr.script (fun p a ha => ⟨hC p a, ?_⟩) as h
  obtain ⟨p', hp⟩ := Option.isSome_iff_exists.1 ha
  show P.next p a = some (P.act p a)
  rw [act, hp]
  rfl

end Program

end UnixNote
