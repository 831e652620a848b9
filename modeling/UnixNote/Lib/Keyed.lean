import Mathlib.Data.List.Nodup
import Mathlib.Data.List.Perm.Basic

/-!
# Lists as tables with a key

First-match search and first-match removal on a list whose elements are told
apart by a key. With pairwise distinct keys they are the lookup and the removal
of a table (`find?_iff`, `eraseP_eq_filter`), and both survive on sublists.
-/

namespace UnixNote.Keyed

variable {α κ : Type*} {key : α → κ} {l l' : List α} {k : κ} {a b : α}

/-- The elements of `l` have pairwise distinct keys. -/
def Distinct (key : α → κ) (l : List α) : Prop := (l.map key).Nodup

theorem Distinct.nil : Distinct key [] := List.nodup_nil

theorem Distinct.sublist (h : Distinct key l) (hs : l'.Sublist l) : Distinct key l' :=
  List.Nodup.sublist (hs.map key) h

theorem Distinct.cons (h : Distinct key l) (ha : ∀ b ∈ l, key b ≠ key a) : Distinct key (a :: l) := by
  refine List.nodup_cons.2 ⟨fun hm => ?_, h⟩
  obtain ⟨b, hb, he⟩ := List.mem_map.1 hm
  exact ha b hb he

/-- Two elements with one key are one element. -/
theorem Distinct.eq (h : Distinct key l) (ha : a ∈ l) (hb : b ∈ l) (he : key a = key b) : a = b :=
  List.inj_on_of_nodup_map h ha hb he

/-- An element that a removal does not find first stays. -/
theorem mem_eraseP_of_find?_ne {q : α → Bool} (ha : a ∈ l) (hne : l.find? q ≠ some a) : a ∈ l.eraseP q := by
  induction l with
  | nil => cases ha
  | cons b l ih =>
    by_cases hb : q b = true
    · rw [List.find?_cons_of_pos hb] at hne
      rw [List.eraseP_cons_of_pos hb]
      rcases List.mem_cons.1 ha with rfl | ha
      · exact absurd rfl hne
      · exact ha
    · rw [List.find?_cons_of_neg hb] at hne
      rw [List.eraseP_cons_of_neg hb]
      rcases List.mem_cons.1 ha with rfl | ha
      · exact List.mem_cons_self
      · exact List.mem_cons_of_mem _ (ih ha hne)

variable [DecidableEq κ]

/-- A found element is in the list and has the key. -/
theorem find?_spec (h : l.find? (fun a => key a = k) = some a) : a ∈ l ∧ key a = k :=
  ⟨List.mem_of_find?_eq_some h, by simpa using List.find?_some h⟩

/-- Nothing is found exactly when no element has the key. -/
theorem find?_none : l.find? (fun a => key a = k) = none ↔ ∀ a ∈ l, key a ≠ k := by
  simp [List.find?_eq_none]

/-- With distinct keys, search returns the element with the key. -/
theorem Distinct.find?_iff (h : Distinct key l) :
    l.find? (fun a => key a = k) = some a ↔ a ∈ l ∧ key a = k := by
  refine ⟨find?_spec, fun ⟨ha, hk⟩ => ?_⟩
  cases hf : l.find? (fun a => key a = k) with
  | none => exact absurd hk (find?_none.1 hf a ha)
  | some b =>
    obtain ⟨hb, hbk⟩ := find?_spec hf
    rw [h.eq hb ha (hbk.trans hk.symm)]

/-- With distinct keys, removing the first match removes every match. -/
theorem Distinct.eraseP_eq_filter (h : Distinct key l) :
    l.eraseP (fun a => key a = k) = l.filter (fun a => key a ≠ k) := by
  induction l with
  | nil => rfl
  | cons a l ih =>
    obtain ⟨hna, hl⟩ := List.nodup_cons.1 h
    by_cases ha : key a = k
    · have hrest : l.filter (fun b => key b ≠ k) = l := by
        refine List.filter_eq_self.2 fun b hb => ?_
        have : key b ≠ key a := fun he => hna (List.mem_map.2 ⟨b, hb, he⟩)
        simpa [ha] using this
      simp only [List.eraseP_cons, ha, decide_true, cond_true, List.filter_cons, ne_eq, not_true,
        decide_false, Bool.false_eq_true, if_false]
      exact hrest.symm
    · simp only [List.eraseP_cons, ha, decide_false, cond_false, List.filter_cons, ne_eq, not_false_eq_true,
        decide_true, if_true]
      rw [ih hl]

theorem Distinct.mem_eraseP (h : Distinct key l) :
    a ∈ l.eraseP (fun a => key a = k) ↔ a ∈ l ∧ key a ≠ k := by
  rw [h.eraseP_eq_filter, List.mem_filter]; simp

end UnixNote.Keyed
