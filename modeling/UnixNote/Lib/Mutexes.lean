import UnixNote.Lib.Threads

/-!
# Threads behind a mutex

Threads share a memory that a mutex guards: a thread writes it only inside, where it holds the
mutex, and from outside it comes in through the free mutex only. What goes on outside, reading
included, is not bound to the mutex.

* `Mutex.resource`: **the resource rule.** Between critical sections the memory has what the log of
  the past ones says; the thread inside has its own view of it, and nobody else is inside.
* `Mutex.stuck_run`: **a mutex that is kept** by a thread outside is kept for good, and with it the
  memory and the log.
* `Mutex.bounded`: a rank that the steps inside lower bounds the stay of a thread.
-/

namespace UnixNote.Program

variable {ι β κ σ μ ω : Type*} [DecidableEq ι]

/-- Who holds the mutex, the memory, and where a thread counts on both. -/
structure Mutex (P : Program ι β κ σ) (μ : Type*) where
  owner : σ → Option ι
  mem : σ → μ
  inside : κ → Prop
  outer : ∀ {i b l s l' s'}, ¬inside l → P.step i b l s = some (l', s') →
    mem s' = mem s ∧ (¬inside l' ∧ owner s' = owner s ∨ owner s = none ∧ owner s' = some i)
  inner : ∀ {i b l s l' s'}, inside l → owner s = some i → P.step i b l s = some (l', s') →
    owner s' = some i ∨ owner s' = none ∧ ¬inside l'

/-- What the steps of a trace add to a log, by where the thread stood. -/
def log (emit : κ → Option ω) (tr : List (Threads ι κ σ × (ι × β))) : List ω :=
  tr.filterMap fun x => emit (x.1.pc x.2.1)

namespace Mutex

variable {P : Program ι β κ σ} {I : σ → Prop} {C : Threads ι κ σ → ι × β → Prop} {p p' p₁ : Threads ι κ σ}
  {tr before after : List (Threads ι κ σ × (ι × β))} {i j : ι} {b : β} {a : ι × β} {emit : κ → Option ω}
  {free : List ω → μ → Prop} {held : List ω → κ → μ → Prop} {cs : List ω} {l l' : κ} {s s' : σ}

omit [DecidableEq ι] in
theorem log_append : log emit (before ++ after) = log emit before ++ log emit after := List.filterMap_append ..

omit [DecidableEq ι] in
theorem log_singleton : log emit [(p, a)] = (emit (p.pc a.1)).toList := by
  unfold log
  cases h : emit (p.pc a.1) <;> simp [h]

variable (M : P.Mutex μ)

/-- Whoever is inside holds the mutex and has `held`; when nobody is, the memory has `free`. -/
structure Keeps (free : List ω → μ → Prop) (held : List ω → κ → μ → Prop) (cs : List ω)
    (p : Threads ι κ σ) : Prop where
  owner : ∀ i, M.inside (p.pc i) → M.owner p.shared = some i
  held : ∀ i, M.inside (p.pc i) → held cs (p.pc i) (M.mem p.shared)
  free : (∀ i, ¬M.inside (p.pc i)) → free cs (M.mem p.shared)

/-- What a thread that has come to `l` leaves. -/
structure View (free : List ω → μ → Prop) (held : List ω → κ → μ → Prop) (cs : List ω) (l : κ) (m : μ) : Prop where
  held : M.inside l → held cs l m
  free : ¬M.inside l → free cs m

variable {M}

omit [DecidableEq ι] in
/-- Nobody but the holder is inside. -/
theorem Keeps.alone (h : M.Keeps free held cs p) (hi : M.owner p.shared = some i) (hj : M.inside (p.pc j)) : j = i :=
  Option.some.inj ((h.owner j hj).symm.trans hi)

omit [DecidableEq ι] in
/-- A free mutex: nobody is inside. -/
theorem Keeps.unlocked (h : M.Keeps free held cs p) (hn : M.owner p.shared = none) : free cs (M.mem p.shared) :=
  h.free fun i hi => Option.some_ne_none i ((h.owner i hi).symm.trans hn)

/-- One step by a thread that holds the mutex afterwards, or has just given it back. -/
theorem Keeps.moved (hn : P.next p (i, b) = some p') (hothers : ∀ j, j ≠ i → ¬M.inside (p.pc j))
    (hown : M.inside (p'.pc i) → M.owner p'.shared = some i)
    (hv : M.View free held cs (p'.pc i) (M.mem p'.shared)) : M.Keeps free held cs p' := by
  obtain ⟨l, s, -, -, -, hpc⟩ := next_some hn
  have hout : ∀ j, j ≠ i → ¬M.inside (p'.pc j) := fun j hj => by
    rw [hpc j hj]
    exact hothers j hj
  refine ⟨fun j hj => ?_, fun j hj => ?_, fun hall => hv.free (hall i)⟩
  · by_cases hji : j = i
    · subst hji
      exact hown hj
    · exact absurd hj (hout j hji)
  · by_cases hji : j = i
    · subst hji
      exact hv.held hj
    · exact absurd hj (hout j hji)

/-- **The resource rule.** -/
theorem resource (hstart : ∀ i, ¬M.inside (P.start i)) (hinit : ∀ s, I s → free [] (M.mem s))
    (hquiet : ∀ l, ¬M.inside l → emit l = none)
    (henter : ∀ cs i b l s l' s', ¬M.inside l → M.inside l' → P.step i b l s = some (l', s') →
      free cs (M.mem s) → held cs l' (M.mem s'))
    (hown : ∀ cs p i b l' s', C p (i, b) → M.inside (p.pc i) → P.step i b (p.pc i) p.shared = some (l', s') →
      held cs (p.pc i) (M.mem p.shared) → M.View free held (cs ++ (emit (p.pc i)).toList) l' (M.mem s'))
    (hr : (P.lts I).Run C tr p) : M.Keeps free held (log emit tr) p := by
  refine hr.history (I := fun tr p => M.Keeps free held (log emit tr) p) ?_ ?_
  · rintro p ⟨hpc, hI⟩
    have hnone : ∀ i, ¬M.inside (p.pc i) := fun i => by
      rw [hpc]
      exact hstart i
    exact ⟨fun i hi => absurd hi (hnone i), fun i hi => absurd hi (hnone i), fun _ => hinit _ hI⟩
  · rintro tr p ⟨i, b⟩ p' h hC hn
    rw [log_append, log_singleton]
    obtain ⟨l', s', hstep, hs', hpc, hothers⟩ := next_some hn
    by_cases hin : M.inside (p.pc i)
    · -- the holder goes on: the others are outside
      have howner := h.owner i hin
      refine Keeps.moved hn (fun j hj hjin => hj (h.alone howner hjin)) (fun hin' => ?_) ?_
      · rw [hpc] at hin'
        rw [hs']
        exact (M.inner hin howner hstep).resolve_right fun hout => hout.2 hin'
      · rw [hpc, hs']
        exact hown _ p i b l' s' hC hin hstep (h.held i hin)
    · obtain ⟨hmem, hcase⟩ := M.outer hin hstep
      rw [hquiet _ hin, Option.toList_none, List.append_nil]
      rcases hcase with ⟨hout, hkept⟩ | ⟨hnone, htaken⟩
      · -- a step outside: nothing that counts has changed
        have hiff : ∀ j, M.inside (p'.pc j) ↔ M.inside (p.pc j) := fun j => by
          by_cases hj : j = i
          · subst hj
            rw [hpc]
            exact ⟨fun hx => absurd hx hout, fun hx => absurd hx hin⟩
          · rw [hothers j hj]
        refine ⟨fun j hj => ?_, fun j hj => ?_, fun hall => ?_⟩
        · rw [hs', hkept]
          exact h.owner j ((hiff j).1 hj)
        · have hne : j ≠ i := by
            rintro rfl
            exact hin ((hiff j).1 hj)
          rw [hs', hmem, hothers j hne]
          exact h.held j ((hiff j).1 hj)
        · rw [hs', hmem]
          exact h.free fun j hj => hall j ((hiff j).2 hj)
      · have hfree := h.unlocked hnone
        have hnobody : ∀ j, ¬M.inside (p.pc j) := fun j hj =>
          Option.some_ne_none j ((h.owner j hj).symm.trans hnone)
        refine Keeps.moved hn (fun j _ => hnobody j) (fun _ => ?_) ⟨fun hin' => ?_, fun _ => ?_⟩
        · rw [hs']
          exact htaken
        · rw [hpc] at hin' ⊢
          rw [hs']
          exact henter _ i b _ _ l' s' hin hin' hstep hfree
        · rw [hs', hmem]
          exact hfree

/-! ## A mutex that is kept -/

/-- `i` holds the mutex, and nobody is inside to give it back. -/
structure Stuck (M : P.Mutex μ) (i : ι) (p : Threads ι κ σ) : Prop where
  owner : M.owner p.shared = some i
  outside : ∀ j, ¬M.inside (p.pc j)

theorem Stuck.next (h : M.Stuck i p) (hn : P.next p a = some p') :
    M.Stuck i p' ∧ M.mem p'.shared = M.mem p.shared := by
  obtain ⟨l', s', hstep, hs', hpc, hothers⟩ := next_some hn
  obtain ⟨hmem, hcase⟩ := M.outer (h.outside a.1) hstep
  obtain ⟨hout, hkept⟩ := hcase.resolve_right fun ht => Option.some_ne_none i (h.owner.symm.trans ht.1)
  refine ⟨⟨?_, fun j => ?_⟩, ?_⟩
  · rw [hs', hkept]
    exact h.owner
  · by_cases hj : j = a.1
    · rw [hj, hpc]
      exact hout
    · rw [hothers j hj]
      exact h.outside j
  · rw [hs', hmem]

/-- **A mutex that is kept is kept for good**, with the memory and the log: here, from a step on. -/
theorem stuck_run (hquiet : ∀ l, ¬M.inside l → emit l = none) (hr : (P.lts I).Run C tr p)
    (htr : tr = before ++ (p₁, a) :: after) (hfirst : ∀ p', P.next p₁ a = some p' → M.Stuck i p') :
    M.Stuck i p ∧ log emit after = [] ∧
      ∃ p', P.next p₁ a = some p' ∧ M.mem p.shared = M.mem p'.shared := by
  refine hr.since (D := fun _ _ => True) (W := fun after p => M.Stuck i p ∧ log emit after = [] ∧
    ∃ p', P.next p₁ a = some p' ∧ M.mem p.shared = M.mem p'.shared) htr (fun _ _ => trivial) ?_ ?_
  · intro p' _ _ hn
    exact ⟨hfirst p' hn, rfl, p', hn, rfl⟩
  · rintro after p b p' - ⟨hs, hlog, p₂, hn₂, hmem⟩ - - hn
    obtain ⟨hs', hmem'⟩ := hs.next hn
    refine ⟨hs', ?_, p₂, hn₂, hmem'.trans hmem⟩
    rw [log_append, hlog, log_singleton, hquiet _ (hs.outside _)]
    rfl

/-! ## The stay of a thread -/

/-- **How long a thread stays inside.** While it does, its steps lower its rank and those of the others leave it. -/
theorem bounded (rank : List ω → κ → μ → Nat) {R : Nat} (hquiet : ∀ l, ¬M.inside l → emit l = none)
    (hkeeps : ∀ tr p, (P.lts I).Run C tr p → M.Keeps free held (log emit tr) p)
    (hlower : ∀ cs (p : Threads ι κ σ) i b l' s', M.inside (p.pc i) → P.step i b (p.pc i) p.shared = some (l', s') →
      held cs (p.pc i) (M.mem p.shared) → M.inside l' →
      rank (cs ++ (emit (p.pc i)).toList) l' (M.mem s') < rank cs (p.pc i) (M.mem p.shared))
    (hr : (P.lts I).Run C tr p) (htr : tr = before ++ (p₁, a) :: after)
    (hfirst : ∀ p', P.next p₁ a = some p' → M.inside (p'.pc i) →
      rank (log emit (before ++ [(p₁, a)])) (p'.pc i) (M.mem p'.shared) ≤ R)
    (hstays : ∀ x ∈ after, M.inside (x.1.pc i)) (hin : M.inside (p.pc i)) :
    rank (log emit tr) (p.pc i) (M.mem p.shared) + after.countP (fun x => decide (x.2.1 = i)) ≤ R := by
  subst htr
  refine hr.since (D := fun p _ => M.inside (p.pc i)) (W := fun after p => M.inside (p.pc i) →
    rank (log emit (before ++ (p₁, a) :: after)) (p.pc i) (M.mem p.shared) +
      after.countP (fun x => decide (x.2.1 = i)) ≤ R) rfl hstays ?_ ?_ hin
  · intro p' _ _ hn hin'
    exact hfirst p' hn hin'
  · rintro after p ⟨j, b⟩ p' hrun hle - hin₀ hn hin'
    have hk := hkeeps _ p hrun
    obtain ⟨l', s', hstep, hs', hpc, hothers⟩ := next_some hn
    have hlog : log emit (before ++ (p₁, a) :: (after ++ [(p, (j, b))])) =
        log emit (before ++ (p₁, a) :: after) ++ (emit (p.pc j)).toList := by
      rw [← List.cons_append, ← List.append_assoc, log_append, log_singleton]
    have hbefore := hle hin₀
    rw [List.countP_append, List.countP_singleton, hlog]
    by_cases hj : j = i
    · subst hj
      rw [hpc] at hin'
      have hlow := hlower _ p j b l' s' hin₀ hstep (hk.held j hin₀) hin'
      rw [hpc, hs', if_pos (decide_eq_true rfl)]
      omega
    · -- another thread: it is outside, and leaves the memory as it is
      have hout : ¬M.inside (p.pc j) := fun hx => hj (hk.alone (hk.owner i hin₀) hx)
      rw [if_neg (by simpa using hj), hs', (M.outer hout hstep).1, hothers i (Ne.symm hj), hquiet _ hout,
        Option.toList_none, List.append_nil]
      exact hbefore

end Mutex

end UnixNote.Program
