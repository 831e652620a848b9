import UnixNote.Lib.Keyed

/-!
# Lists kept up to date by changes

A list is a view of a set when it has exactly the elements of the set, each key once
(`Mirrors`). `Tracks P cs Q` says that the changes `cs` take every view of `P` to one of
`Q`: the set may move from `P` to `Q` without looking at the list, as long as `cs` is sent
to whoever holds it.
-/

namespace UnixNote.Views

variable {α κ : Type*}

/-- An element comes in, or the one with a key goes. -/
inductive Change (α κ : Type*) where
  | add (a : α)
  | drop (k : κ)

variable {key : α → κ} {l bs : List α} {P Q R : α → Prop} {b : α} {k : κ}

/-- The list holds exactly the elements with `P`, each key once. -/
structure Mirrors (key : α → κ) (l : List α) (P : α → Prop) : Prop where
  distinct : Keyed.Distinct key l
  mem : ∀ a, a ∈ l ↔ P a

theorem Mirrors.nil (h : ∀ a, ¬ P a) : Mirrors key [] P :=
  ⟨Keyed.Distinct.nil, fun a => ⟨fun ha => absurd ha List.not_mem_nil, fun ha => absurd ha (h a)⟩⟩

theorem Mirrors.congr (h : Mirrors key l P) (hQ : ∀ a, Q a ↔ P a) : Mirrors key l Q :=
  ⟨h.distinct, fun a => (h.mem a).trans (hQ a).symm⟩

theorem Mirrors.add (h : Mirrors key l P) (hb : ∀ a, P a → key a ≠ key b) :
    Mirrors key (b :: l) (fun a => a = b ∨ P a) where
  distinct := h.distinct.cons fun a ha => hb a ((h.mem a).1 ha)
  mem := by
    intro a
    rw [List.mem_cons, h.mem]

variable [DecidableEq κ]

theorem Mirrors.drop (h : Mirrors key l P) :
    Mirrors key (l.eraseP fun a => key a = k) (fun a => P a ∧ key a ≠ k) where
  distinct := h.distinct.sublist List.eraseP_sublist
  mem := by
    intro a
    rw [h.distinct.mem_eraseP, h.mem]

/-- One change. -/
def update (key : α → κ) (l : List α) : Change α κ → List α
  | .add a => a :: l
  | .drop k => l.eraseP fun a => key a = k

/-- The changes `cs` take every view of `P` to one of `Q`. -/
def Tracks (key : α → κ) (P : α → Prop) (cs : List (Change α κ)) (Q : α → Prop) : Prop :=
  ∀ l, Mirrors key l P → Mirrors key (cs.foldl (update key) l) Q

namespace Tracks

variable {cs cs' : List (Change α κ)}

/-- Nothing has to be sent when the set stays. -/
theorem nil (hQ : ∀ a, Q a ↔ P a) : Tracks key P [] Q := fun _ h => h.congr hQ

/-- A new element with a new key. -/
theorem add (hb : ∀ a, P a → key a ≠ key b) (hQ : ∀ a, Q a ↔ a = b ∨ P a) : Tracks key P [.add b] Q :=
  fun _ h => (h.add hb).congr hQ

/-- A key goes, whether there was an element with it or not. -/
theorem drop (hQ : ∀ a, Q a ↔ P a ∧ key a ≠ k) : Tracks key P [.drop k] Q := fun _ h => h.drop.congr hQ

theorem append (h₁ : Tracks key P cs Q) (h₂ : Tracks key Q cs' R) : Tracks key P (cs ++ cs') R := by
  intro l h
  rw [List.foldl_append]
  exact h₂ _ (h₁ l h)

/-- The elements of a list come in one by one. -/
theorem adds (hd : Keyed.Distinct key bs) (hb : ∀ b ∈ bs, ∀ a, P a → key a ≠ key b)
    (hQ : ∀ a, Q a ↔ a ∈ bs ∨ P a) : Tracks key P (bs.map .add) Q := by
  induction bs generalizing P with
  | nil => exact nil fun a => by simp [hQ]
  | cons b bs ih =>
    obtain ⟨hnot, hd⟩ := List.nodup_cons.1 hd
    have h₁ : Tracks key P [.add b] (fun a => a = b ∨ P a) :=
      add (fun a ha => hb b List.mem_cons_self a ha) fun a => Iff.rfl
    refine h₁.append (ih hd ?_ fun a => ?_)
    · rintro c hc a (rfl | ha)
      · intro heq
        exact hnot (List.mem_map.2 ⟨c, hc, heq.symm⟩)
      · exact hb c (List.mem_cons_of_mem _ hc) a ha
    · rw [hQ, List.mem_cons]
      tauto

end Tracks

end UnixNote.Views
