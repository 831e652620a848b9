import Mathlib.Algebra.BigOperators.Finprod
import Mathlib.Algebra.Order.BigOperators.Group.Finset
import Mathlib.Data.Prod.Lex
import Mathlib.Order.WellFounded

/-!
# Queues that run dry

Two rows of queues, finitely many of them not empty. A step takes from the second row, or takes from the first row
and puts what it likes into the second. Such steps come to an end (`accessible`).
-/

namespace UnixNote.Queues

open Function

variable {σ ι : Type*} {f g : ι → ℕ}

/-- What is in the queues of a row. -/
noncomputable def total (f : ι → ℕ) : ℕ := ∑ᶠ i, f i

/-- From `f` to `g` one queue gets shorter. -/
def Shortens (f g : ι → ℕ) : Prop := ∃ i, g i < f i ∧ ∀ j, j ≠ i → g j = f j

/-- Nothing comes in elsewhere. -/
theorem Shortens.support (h : Shortens f g) : support g ⊆ support f := by
  obtain ⟨i, hlt, heq⟩ := h
  intro j hj
  by_cases hji : j = i
  · subst hji
    exact Nat.ne_of_gt (Nat.zero_lt_of_lt hlt)
  · rw [mem_support, heq j hji] at hj
    exact hj

theorem Shortens.total_lt (h : Shortens f g) (hf : (Function.support f).Finite) : total g < total f := by
  have hsub : Function.support g ⊆ ↑hf.toFinset := by
    rw [Set.Finite.coe_toFinset]
    exact h.support
  have hself : Function.support f ⊆ ↑hf.toFinset := by rw [Set.Finite.coe_toFinset]
  obtain ⟨i, hlt, heq⟩ := h
  rw [total, total, finsum_eq_sum_of_support_subset _ hsub, finsum_eq_sum_of_support_subset _ hself]
  refine Finset.sum_lt_sum (fun j _ => ?_) ⟨i, ?_, hlt⟩
  · by_cases hji : j = i
    · subst hji
      exact hlt.le
    · exact (heq j hji).le
  · rw [Set.Finite.mem_toFinset]
    exact Nat.ne_of_gt (Nat.zero_lt_of_lt hlt)

/-- **Steps that take come to an end**, by induction on what the first row holds and then the second. -/
theorem accessible (first second : σ → ι → ℕ) (R : σ → σ → Prop)
    (hR : ∀ s s', R s s' → (first s' = first s ∧ Shortens (second s) (second s')) ∨
      (Shortens (first s) (first s') ∧ ((support (second s)).Finite → (support (second s')).Finite)))
    {s : σ} (hfirst : (support (first s)).Finite) (hsecond : (support (second s)).Finite) :
    Acc (fun s' s => R s s') s := by
  generalize hp : (total (first s), total (second s)) = p
  have hwf : WellFounded (Prod.Lex (· < ·) (· < ·) : ℕ × ℕ → ℕ × ℕ → Prop) :=
    WellFounded.prod_lex wellFounded_lt wellFounded_lt
  induction p using hwf.induction generalizing s with
  | _ p ih =>
    subst hp
    refine ⟨s, fun s' hstep => ?_⟩
    rcases hR s s' hstep with ⟨heq, hshort⟩ | ⟨hshort, hfin⟩
    · have hsecond' : (support (second s')).Finite := hsecond.subset hshort.support
      refine ih _ ?_ (heq ▸ hfirst) hsecond' rfl
      rw [heq]
      exact Prod.Lex.right _ (hshort.total_lt hsecond)
    · exact ih _ (Prod.Lex.left _ _ (hshort.total_lt hfirst)) (hfirst.subset hshort.support) (hfin hsecond) rfl

end UnixNote.Queues
