import UnixNote.Lib.Runs

/-!
# Forward simulations between transition systems

Every step of a concrete system is invisible to an abstract one, or matched by one step of it. Then every
run has an abstract run beside it (`Run.simulate`), and `Beside` says which steps stand beside which, so that
what is known of an earlier abstract step is known of a concrete one.
-/

namespace UnixNote.Lts

variable {σ τ α β : Type*}

/-- An element of a list with one more at its end is the last one, or was there before. -/
theorem concat_split {l before after : List α} {x y : α} (h : l ++ [x] = before ++ y :: after) :
    (l = before ∧ x = y ∧ after = []) ∨ ∃ after', after = after' ++ [x] ∧ l = before ++ y :: after' := by
  rcases List.eq_nil_or_concat after with rfl | ⟨after', last, rfl⟩
  · obtain ⟨rfl, heq⟩ := List.append_inj' h rfl
    exact Or.inl ⟨rfl, (List.singleton_inj.1 heq), rfl⟩
  · have hsplit : l ++ [x] = (before ++ y :: after') ++ [last] := by rw [h]; simp
    obtain ⟨rfl, heq⟩ := List.append_inj' hsplit rfl
    obtain rfl := List.singleton_inj.1 heq
    exact Or.inr ⟨after', by simp, rfl⟩

/-- The steps `tr'` stand beside those of `tr` in their order: `T` relates the ones that match, the others meet
`S`. -/
inductive Beside (S : σ → α → Prop) (T : σ → α → τ → β → Prop) : List (σ × α) → List (τ × β) → Prop
  | nil : Beside S T [] []
  | alone {tr : List (σ × α)} {tr' : List (τ × β)} {s : σ} {a : α} :
      Beside S T tr tr' → S s a → Beside S T (tr ++ [(s, a)]) tr'
  | both {tr : List (σ × α)} {tr' : List (τ × β)} {s : σ} {a : α} {t : τ} {b : β} :
      Beside S T tr tr' → T s a t b → Beside S T (tr ++ [(s, a)]) (tr' ++ [(t, b)])

namespace Beside

variable {S : σ → α → Prop} {T : σ → α → τ → β → Prop} {tr before after : List (σ × α)}
  {tr' before' after' : List (τ × β)} {s : σ} {a : α} {t : τ} {b : β}

/-- **An abstract step stands beside a concrete one**, and so do the steps before them and the steps after them. -/
theorem back (h : Beside S T tr tr') (htr : tr' = before' ++ (t, b) :: after') :
    ∃ before after s a, tr = before ++ (s, a) :: after ∧ T s a t b ∧ Beside S T before before' ∧
      Beside S T after after' := by
  induction h generalizing after' with
  | nil => simp at htr
  | @alone tr tr' s a _ hS ih =>
    obtain ⟨before, after, s₁, a₁, rfl, hT, hbefore, hafter⟩ := ih htr
    exact ⟨before, after ++ [(s, a)], s₁, a₁, by simp, hT, hbefore, hafter.alone hS⟩
  | @both tr tr' s a t' b' hrest hT ih =>
    rcases concat_split htr with ⟨rfl, ⟨⟩, rfl⟩ | ⟨after₁, rfl, hsplit⟩
    · exact ⟨tr, [], s, a, rfl, hT, hrest, .nil⟩
    · obtain ⟨before, after, s₁, a₁, rfl, hT₁, hbefore, hafter⟩ := ih hsplit
      exact ⟨before, after ++ [(s, a)], s₁, a₁, by simp, hT₁, hbefore, hafter.both hT⟩

/-- **A concrete step stands alone, or beside an abstract one.** -/
theorem mem (h : Beside S T tr tr') (hmem : (s, a) ∈ tr) : S s a ∨ ∃ t b, (t, b) ∈ tr' ∧ T s a t b := by
  induction h with
  | nil => cases hmem
  | @alone tr tr' s₁ a₁ _ hS ih =>
    rcases List.mem_append.1 hmem with hmem | hmem
    · exact ih hmem
    · cases List.mem_singleton.1 hmem
      exact Or.inl hS
  | @both tr tr' s₁ a₁ t b _ hT ih =>
    rcases List.mem_append.1 hmem with hmem | hmem
    · refine (ih hmem).imp_right ?_
      rintro ⟨t₁, b₁, hmem₁, hT₁⟩
      exact ⟨t₁, b₁, List.mem_append_left _ hmem₁, hT₁⟩
    · cases List.mem_singleton.1 hmem
      exact Or.inr ⟨t, b, List.mem_concat_self, hT⟩

end Beside

variable {M : Lts σ α} {N : Lts τ β} {C : σ → α → Prop} {D : τ → β → Prop} {R : σ → τ → Prop} {S : σ → α → Prop}
  {T : σ → α → τ → β → Prop} {tr : List (σ × α)} {s : σ}

/-- **The simulation rule.** An abstract state beside every initial state, and beside every step no step or one:
then a run has a run beside it. -/
theorem Run.simulate (hinit : ∀ s, M.init s → ∃ t, N.init t ∧ R s t)
    (hstep : ∀ s a s' t, R s t → C s a → M.step s a s' →
      (S s a ∧ R s' t) ∨ ∃ b t', D t b ∧ N.step t b t' ∧ T s a t b ∧ R s' t')
    (hr : M.Run C tr s) : ∃ tr' t, N.Run D tr' t ∧ R s t ∧ Beside S T tr tr' := by
  induction hr with
  | start hi =>
    obtain ⟨t, ht, hR⟩ := hinit _ hi
    exact ⟨[], t, .start ht, hR, .nil⟩
  | next _ hC hst ih =>
    obtain ⟨tr', t, hrun, hR, hb⟩ := ih
    rcases hstep _ _ _ _ hR hC hst with ⟨hS, hR'⟩ | ⟨b, t', hD, hst', hT, hR'⟩
    · exact ⟨tr', t, hrun, hR', hb.alone hS⟩
    · exact ⟨_, t', hrun.next hD hst', hR', hb.both hT⟩

end UnixNote.Lts
