import UnixNote.Lib.Heap

/-!
# Splicing a list, one write at a time

`push_spec` and `unlink_spec` give what a whole operation does to a list. Here are the states in
between, as another thread may find them: the list is whole in all of them, with at most one live
cell beside it (`Spare`).

* `Chain.link`: what a position in the list points to.
* `IsList.malloc`, `Spare.store`, `Spare.setNext`, `Spare.enter`: a cell on its way in.
* `IsList.bypass`, `Spare.free`: a cell on its way out.
-/

namespace UnixNote.Heap

variable {α : Type} {H H' : Heap α} {a b p head : Nat} {c : Cell α} {n q : Option Nat} {x v x₀ : α} {y : Nat × α}
  {xs done todo rest pre post post' : List (Nat × α)}

/-! ## Positions -/

/-- The last cell of `done`, or the sentinel. -/
def position (head : Nat) (done : List (Nat × α)) : Nat := (done.getLast?.map Prod.fst).getD head

@[simp] theorem position_nil : position head ([] : List (Nat × α)) = head := rfl

@[simp] theorem position_concat : position head (done ++ [y]) = y.1 := by simp [position]

/-- The sentinel and `done`, the position last. -/
theorem position_split (head : Nat) (x₀ : α) (done : List (Nat × α)) :
    ∃ pre x, (head, x₀) :: done = pre ++ [(position head done, x)] := by
  rcases List.eq_nil_or_concat done with rfl | ⟨done, y, rfl⟩
  · exact ⟨[], x₀, rfl⟩
  · rw [List.concat_eq_append, position_concat]
    exact ⟨(head, x₀) :: done, y.2, rfl⟩

theorem Chain.cell (done : List (Nat × α)) (hc : H.Chain q (done ++ y :: rest)) :
    H.read y.1 = some ⟨y.2, rest.head?.map Prod.fst⟩ := by
  obtain ⟨-, n, hr, hn⟩ := hc.suffix done
  rw [hr, hn.start_eq]

/-- **What a position points to.** -/
theorem Chain.link (done todo : List (Nat × α)) (hc : H.Chain (some head) ((head, x₀) :: (done ++ todo))) :
    ∃ x, H.read (position head done) = some ⟨x, todo.head?.map Prod.fst⟩ := by
  obtain ⟨pre, x, hsplit⟩ := position_split head x₀ done
  rw [← List.cons_append, hsplit, List.append_assoc] at hc
  exact ⟨x, hc.cell pre⟩

/-- A pointer of the chain is turned to another chain. -/
theorem Chain.splice (pre : List (Nat × α)) (hc : H.Chain q (pre ++ (p, x) :: post)) (hn : H.Chain n post')
    (hp : p ∉ post'.map Prod.fst) (hread : ∀ b, H'.read b = if b = p then some ⟨x, n⟩ else H.read b) :
    H'.Chain q (pre ++ (p, x) :: post') := by
  induction pre generalizing q with
  | nil =>
    refine ⟨hc.1, n, by rw [hread, if_pos rfl], hn.frame fun b hb => ?_⟩
    have hbp : b ≠ p := fun he => hp (he ▸ hb)
    rw [hread, if_neg hbp]
  | cons z pre ih =>
    have hz : z.1 ≠ p := by
      rintro rfl
      exact (List.nodup_cons.1 hc.nodup).1 (by simp)
    obtain ⟨hq, m, hr, hm⟩ := hc
    refine ⟨hq, m, ?_, ih hm⟩
    rw [hread, if_neg hz, hr]

/-! ## One cell beside the list -/

/-- The list, and `a` live beside it. -/
structure Spare (H : Heap α) (head : Nat) (xs : List (Nat × α)) (a : Nat) : Prop where
  chain : ∃ x₀, H.Chain (some head) ((head, x₀) :: xs)
  off : a ∉ head :: xs.map Prod.fst
  live : ∀ b, b ∈ H.cells ↔ b = a ∨ b ∈ head :: xs.map Prod.fst

/-- A write to the cell beside the list. -/
theorem Spare.write (h : H.Spare head xs a) (hread : ∀ b, H'.read b = if b = a then some c else H.read b) :
    H'.Spare head xs a := by
  obtain ⟨x₀, hc⟩ := h.chain
  refine ⟨⟨x₀, hc.frame fun b hb => ?_⟩, h.off, fun b => ?_⟩
  · have hba : b ≠ a := fun he => h.off (he ▸ hb)
    rw [hread, if_neg hba]
  · have hlive := h.live b
    rw [mem_cells] at hlive ⊢
    rw [hread]
    by_cases hb : b = a
    · simp [hb]
    · rw [if_neg hb, hlive]

/-- `malloc`. -/
theorem IsList.malloc (h : H.IsList head xs) (ha : a ∉ H.cells) : (H.malloc a c).Spare head xs a := by
  obtain ⟨x₀, hc⟩ := h.chain
  have hoff : a ∉ head :: xs.map Prod.fst := fun hm => ha ((h.live a).2 hm)
  refine ⟨⟨x₀, hc.frame fun b hb => ?_⟩, hoff, fun b => ?_⟩
  · have hba : b ≠ a := fun he => hoff (he ▸ hb)
    rw [read_malloc, if_neg hba]
  · have hlive := h.live b
    rw [mem_cells] at hlive ⊢
    rw [read_malloc]
    by_cases hb : b = a
    · simp [hb]
    · rw [if_neg hb, hlive]
      simp [hb]

/-- An assignment to the cell. -/
theorem Spare.store (h : H.Spare head xs a) : (H.malloc a c).Spare head xs a := h.write fun _ => read_malloc

/-- An assignment to its pointer. -/
theorem Spare.setNext (h : H.Spare head xs a) (hr : H.read a = some c) :
    ∃ H', H.setNext a n = some H' ∧ H'.Spare head xs a ∧ H'.read a = some ⟨c.val, n⟩ ∧ H'.freed = H.freed := by
  obtain ⟨H', he, hread, hf⟩ := setNext_spec (n := n) hr
  exact ⟨H', he, h.write hread, by rw [hread, if_pos rfl], hf⟩

/-- **The cell comes in**: the sentinel is turned to it. -/
theorem Spare.enter (h : H.Spare head xs a) (hr : H.read a = some ⟨v, xs.head?.map Prod.fst⟩) :
    ∃ H', H.setNext head (some a) = some H' ∧ H'.IsList head ((a, v) :: xs) ∧ H'.freed = H.freed := by
  obtain ⟨x₀, hc⟩ := h.chain
  obtain ⟨-, m, hrh, hm⟩ := id hc
  obtain ⟨H', he, hread, hf⟩ := setNext_spec (n := some a) hrh
  have hnew : H.Chain (some a) ((a, v) :: xs) := ⟨rfl, _, hr, hm.start_eq ▸ hm⟩
  have hhead : head ∉ ((a, v) :: xs).map Prod.fst := by
    rw [List.map_cons, List.mem_cons, not_or]
    exact ⟨fun he => h.off (he ▸ List.mem_cons_self), (List.nodup_cons.1 hc.nodup).1⟩
  refine ⟨H', he, ⟨⟨x₀, Chain.splice [] hc hnew hhead hread⟩, fun b => ?_⟩, hf⟩
  have hlive := h.live b
  rw [mem_cells] at hlive ⊢
  rw [hread]
  by_cases hb : b = head
  · simp [hb]
  · rw [if_neg hb, hlive]
    simp [hb]

/-- **A cell goes out**: what is in front of it is turned to what is behind it. -/
theorem IsList.bypass (h : H.IsList head (done ++ y :: rest)) :
    ∃ H', H.setNext (position head done) (rest.head?.map Prod.fst) = some H' ∧ H'.Spare head (done ++ rest) y.1 ∧
      H'.read y.1 = H.read y.1 ∧ H'.freed = H.freed := by
  obtain ⟨x₀, hc⟩ := h.chain
  obtain ⟨pre, x, hsplit⟩ := position_split head x₀ done
  have hc' : H.Chain (some head) (pre ++ (position head done, x) :: y :: rest) := by
    have := hc
    rw [← List.cons_append, hsplit, List.append_assoc] at this
    exact this
  obtain ⟨H', he, hread, hf⟩ := setNext_spec (n := rest.head?.map Prod.fst) (hc'.cell pre)
  obtain ⟨-, m, -, hrest⟩ := hc.suffix ((head, x₀) :: done)
  have hafter : position head done ∉ (y :: rest).map Prod.fst := (List.nodup_cons.1 (hc'.suffix pre).nodup).1
  have hne : y.1 ≠ position head done := fun he => hafter (he ▸ List.mem_cons_self)
  have hchain := Chain.splice pre hc' (hrest.start_eq ▸ hrest) (fun hm => hafter (List.mem_cons_of_mem _ hm)) hread
  have heq : pre ++ (position head done, x) :: rest = (head, x₀) :: (done ++ rest) := by
    rw [← List.cons_append, hsplit, List.append_assoc]
    rfl
  rw [heq] at hchain
  -- the same cells, the one that goes out in front
  have hperm : (head :: (done ++ y :: rest).map Prod.fst).Perm (y.1 :: head :: (done ++ rest).map Prod.fst) :=
    ((List.perm_middle.map Prod.fst).cons head).trans (List.Perm.swap ..)
  have hnd := List.nodup_cons.1 (hperm.nodup_iff.1 hc.nodup)
  refine ⟨H', he, ⟨⟨x₀, hchain⟩, hnd.1, fun b => ?_⟩, by rw [hread, if_neg hne], hf⟩
  have hlive := h.live b
  rw [mem_cells, hperm.mem_iff, List.mem_cons] at hlive
  rw [mem_cells, hread]
  by_cases hb : b = position head done
  · have hm : position head done ∈ ((head, x₀) :: (done ++ rest)).map Prod.fst := by
      rw [← heq]
      simp
    rw [hb, if_pos rfl]
    exact ⟨fun _ => .inr hm, fun _ => Option.some_ne_none _⟩
  · rw [if_neg hb, hlive]

/-- `free`. -/
theorem Spare.free (h : H.Spare head xs a) :
    ∃ H', H.free a = some H' ∧ H'.IsList head xs ∧ H'.freed = H.freed ++ [a] := by
  obtain ⟨x₀, hc⟩ := h.chain
  obtain ⟨c, hr⟩ : ∃ c, H.read a = some c := Option.ne_none_iff_exists'.1 (mem_cells.1 ((h.live a).2 (.inl rfl)))
  obtain ⟨H', he, hread, hf⟩ := free_spec hr
  refine ⟨H', he, ⟨⟨x₀, hc.frame fun b hb => ?_⟩, fun b => ?_⟩, hf⟩
  · have hba : b ≠ a := fun he => h.off (he ▸ hb)
    rw [hread, if_neg hba]
  · have hlive := h.live b
    rw [mem_cells] at hlive ⊢
    rw [hread]
    by_cases hb : b = a
    · subst hb
      simpa using h.off
    · rw [if_neg hb, hlive]
      simp [hb]

end UnixNote.Heap
