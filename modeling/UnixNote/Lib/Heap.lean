import Mathlib.Data.Finmap
import UnixNote.Lib.Keyed

/-!
# Singly linked lists on a heap

A heap is a finite map from addresses to cells, with the log of what `free` took. Reading,
writing or freeing what is not live faults (`none`), so a call that returns has touched live cells
only and has freed nothing twice. The loops get the number of live cells as their fuel.

* `Chain`: the cells from a pointer to `NULL`. A chain to `NULL` has no cycle (`Chain.nodup`).
* `IsList`: the list behind a sentinel, and nothing else on the heap.
* `push_spec`, `unlink_spec`, `search_spec`, `walk_spec`, `clear_spec`: each operation on a list.
-/

namespace UnixNote

/-- A record with a pointer to the next one. -/
structure Cell (α : Type) where
  val : α
  next : Option Nat
  deriving DecidableEq

/-- The live cells and the addresses given to `free`, first one first. -/
structure Heap (α : Type) where
  cells : Finmap fun _ : Nat => Cell α
  freed : List Nat

namespace Heap

variable {α : Type}

/-! ## Cells -/

def read (H : Heap α) (a : Nat) : Option (Cell α) := H.cells.lookup a

/-- `malloc` returns `a`, and the cell there is assigned. -/
def malloc (H : Heap α) (a : Nat) (c : Cell α) : Heap α := { H with cells := H.cells.insert a c }

/-- An assignment to the pointer of a cell. -/
def setNext (H : Heap α) (a : Nat) (n : Option Nat) : Option (Heap α) := do
  let c ← H.read a
  some { H with cells := H.cells.insert a { c with next := n } }

def free (H : Heap α) (a : Nat) : Option (Heap α) := do
  let _ ← H.read a
  some ⟨H.cells.erase a, H.freed ++ [a]⟩

/-- How many cells are live. -/
def size (H : Heap α) : Nat := H.cells.keys.card

variable {H H' : Heap α} {a b p head : Nat} {c : Cell α} {n : Option Nat} {x x₀ : α} {xs ys : List (Nat × α)}

@[simp] theorem read_malloc : (H.malloc a c).read b = if b = a then some c else H.read b := by
  by_cases h : b = a
  · subst h
    simp [read, malloc]
  · simp [read, malloc, h]

@[simp] theorem malloc_freed : (H.malloc a c).freed = H.freed := rfl

theorem mem_cells : a ∈ H.cells ↔ H.read a ≠ none := by
  rw [read, Ne, Finmap.lookup_eq_none, not_not]

theorem setNext_spec (h : H.read a = some c) :
    ∃ H', H.setNext a n = some H' ∧ (∀ b, H'.read b = if b = a then some ⟨c.val, n⟩ else H.read b) ∧
      H'.freed = H.freed := by
  refine ⟨{ H with cells := H.cells.insert a { c with next := n } }, by simp [setNext, h], fun b => ?_, rfl⟩
  exact read_malloc (H := H)

theorem free_spec (h : H.read a = some c) :
    ∃ H', H.free a = some H' ∧ (∀ b, H'.read b = if b = a then none else H.read b) ∧
      H'.freed = H.freed ++ [a] := by
  refine ⟨⟨H.cells.erase a, H.freed ++ [a]⟩, by simp [free, h], fun b => ?_, rfl⟩
  by_cases hb : b = a
  · subst hb
    simp [read]
  · simp [read, hb, Finmap.lookup_erase_ne]

/-! ## Operations -/

/-- The sentinel alone. -/
def create (head : Nat) (x : α) : Heap α := malloc ⟨∅, []⟩ head ⟨x, none⟩

/-- A new cell right behind the sentinel. -/
def push (H : Heap α) (head a : Nat) (c : Cell α) : Option (Heap α) := do
  let H := H.malloc a c
  let h ← H.read head
  let H ← H.setNext a h.next
  H.setNext head (some a)

/-- The first cell behind `p` that `q` accepts is taken out and freed. -/
def unlink (q : α → Bool) : Nat → Nat → Heap α → Option (Heap α)
  | 0, _, _ => none
  | fuel + 1, p, H => do
    let c ← H.read p
    match c.next with
    | none => some H
    | some a => do
      let d ← H.read a
      if q d.val then do
        let H ← H.setNext p d.next
        H.free a
      else unlink q fuel a H

/-- The first cell behind `p` that `q` accepts, or `NULL`. -/
def search (q : α → Bool) (H : Heap α) : Nat → Nat → Option (Option Nat)
  | 0, _ => none
  | fuel + 1, p => do
    let c ← H.read p
    match c.next with
    | none => some none
    | some a => do
      let d ← H.read a
      if q d.val then some (some a) else search q H fuel a

/-- The cells from a pointer on, as they are. -/
def walk (H : Heap α) : Nat → Option Nat → Option (List (Cell α))
  | _, none => some []
  | 0, some _ => none
  | fuel + 1, some a => do
    let c ← H.read a
    let cs ← walk H fuel c.next
    some (c :: cs)

/-- The cells from a pointer on are freed, each one's pointer read first. -/
def freeAll : Nat → Option Nat → Heap α → Option (Heap α)
  | _, none, H => some H
  | 0, some _, _ => none
  | fuel + 1, some a, H => do
    let c ← H.read a
    let H ← H.free a
    freeAll fuel c.next H

/-- All cells behind the sentinel are freed. -/
def clear (H : Heap α) (head : Nat) : Option (Heap α) := do
  let h ← H.read head
  let H ← freeAll H.size h.next H
  H.setNext head none

/-! ## Chains -/

/-- `xs` are the addresses and contents of the cells from `p` to `NULL`. -/
def Chain (H : Heap α) : Option Nat → List (Nat × α) → Prop
  | p, [] => p = none
  | p, (a, x) :: xs => p = some a ∧ ∃ n, H.read a = some ⟨x, n⟩ ∧ H.Chain n xs

/-- A chain stays one while its cells do. -/
theorem Chain.frame {p : Option Nat} (hc : H.Chain p xs) (hf : ∀ a ∈ xs.map Prod.fst, H'.read a = H.read a) :
    H'.Chain p xs := by
  induction xs generalizing p with
  | nil => exact hc
  | cons y xs ih =>
    obtain ⟨hp, n, hr, hn⟩ := hc
    refine ⟨hp, n, ?_, ih hn fun a ha => hf a (List.mem_cons_of_mem _ ha)⟩
    rw [hf _ List.mem_cons_self]
    exact hr

/-- A pointer starts one chain only. -/
theorem Chain.unique {p : Option Nat} (hx : H.Chain p xs) (hy : H.Chain p ys) : xs = ys := by
  induction xs generalizing p ys with
  | nil =>
    cases ys with
    | nil => rfl
    | cons y ys => exact absurd (hx.symm.trans hy.1) (by simp)
  | cons x xs ih =>
    cases ys with
    | nil => exact absurd (hy.symm.trans hx.1) (by simp)
    | cons y ys =>
      obtain ⟨hpx, n, hrx, hnx⟩ := hx
      obtain ⟨hpy, m, hry, hmy⟩ := hy
      have ha : x.1 = y.1 := Option.some.inj (hpx.symm.trans hpy)
      rw [ha] at hrx
      obtain ⟨hv, hn⟩ := Cell.mk.inj (Option.some.inj (hrx.symm.trans hry))
      subst hn
      rw [ih hnx hmy, Prod.ext ha hv]

/-- What comes after a prefix of a chain is a chain. -/
theorem Chain.suffix {p : Option Nat} {y : Nat × α} (pre : List (Nat × α))
    (hc : H.Chain p (pre ++ y :: ys)) : H.Chain (some y.1) (y :: ys) := by
  induction pre generalizing p with
  | nil => exact hc.1 ▸ hc
  | cons z pre ih =>
    obtain ⟨_, n, _, hn⟩ := hc
    exact ih hn

/-- **A chain to `NULL` visits no address twice.** -/
theorem Chain.nodup {p : Option Nat} (hc : H.Chain p xs) : (xs.map Prod.fst).Nodup := by
  induction xs generalizing p with
  | nil => exact List.nodup_nil
  | cons y xs ih =>
    refine List.nodup_cons.2 ⟨fun hm => ?_, ?_⟩
    · -- the address again further on would start a second, shorter chain
      obtain ⟨z, hz, he⟩ := List.mem_map.1 hm
      obtain ⟨pre, post, rfl⟩ := List.append_of_mem hz
      have hlate : H.Chain (some z.1) (z :: post) := Chain.suffix (y :: pre) hc
      have hearly : H.Chain (some z.1) (y :: (pre ++ z :: post)) := by
        rw [he]
        exact hc.1 ▸ hc
      have := congrArg List.length (hlate.unique hearly)
      simp only [List.length_cons, List.length_append] at this
      omega
    · obtain ⟨_, n, _, hn⟩ := hc
      exact ih hn

theorem Chain.live {p : Option Nat} (hc : H.Chain p xs) (ha : a ∈ xs.map Prod.fst) : a ∈ H.cells := by
  induction xs generalizing p with
  | nil => cases ha
  | cons y xs ih =>
    obtain ⟨_, n, hr, hn⟩ := hc
    rcases List.mem_cons.1 ha with rfl | ha
    · rw [mem_cells, hr]
      simp
    · exact ih hn ha

/-- The cells of a chain: each points to the next. -/
def links : List (Nat × α) → List (Cell α)
  | [] => []
  | (_, x) :: xs => ⟨x, xs.head?.map Prod.fst⟩ :: links xs

theorem Chain.start_eq {p : Option Nat} (hc : H.Chain p xs) : p = xs.head?.map Prod.fst := by
  cases xs with
  | nil => exact hc
  | cons y xs => exact hc.1

/-! ## Lists -/

/-- The chain from the sentinel runs through `xs` to `NULL`, and nothing else is live. -/
structure IsList (H : Heap α) (head : Nat) (xs : List (Nat × α)) : Prop where
  chain : ∃ x₀, H.Chain (some head) ((head, x₀) :: xs)
  live : ∀ a, a ∈ H.cells ↔ a ∈ head :: xs.map Prod.fst

theorem IsList.nodup (h : H.IsList head xs) : (head :: xs.map Prod.fst).Nodup := by
  obtain ⟨_, hc⟩ := h.chain
  exact hc.nodup

/-- What a heap holds behind the sentinel is determined. -/
theorem IsList.unique (hx : H.IsList head xs) (hy : H.IsList head ys) : xs = ys := by
  obtain ⟨_, hcx⟩ := hx.chain
  obtain ⟨_, hcy⟩ := hy.chain
  exact (List.cons.inj (hcx.unique hcy)).2

theorem IsList.size (h : H.IsList head xs) : H.size = xs.length + 1 := by
  have hk : H.cells.keys = (head :: xs.map Prod.fst).toFinset := by
    ext a
    rw [Finmap.mem_keys, h.live, List.mem_toFinset]
  rw [Heap.size, hk, List.toFinset_card_of_nodup h.nodup, List.length_cons, List.length_map]

theorem create_isList : (create head x).IsList head [] := by
  refine ⟨⟨x, rfl, none, by simp [create], rfl⟩, fun a => ?_⟩
  rw [mem_cells, create, read_malloc]
  by_cases h : a = head
  · simp [h]
  · simp [h, read]

/-- **Adding in front.** -/
theorem push_spec (h : H.IsList head xs) (ha : a ∉ H.cells) :
    ∃ H', H.push head a c = some H' ∧ H'.IsList head ((a, c.val) :: xs) ∧ H'.freed = H.freed := by
  obtain ⟨x₀, -, n, hr, hn⟩ := h.chain
  have hna : a ∉ head :: xs.map Prod.fst := fun hm => ha ((h.live a).2 hm)
  have hne : head ≠ a := fun he => hna (he ▸ List.mem_cons_self)
  have hr₁ : (H.malloc a c).read head = some ⟨x₀, n⟩ := by rw [read_malloc, if_neg hne, hr]
  have hra : (H.malloc a c).read a = some c := by rw [read_malloc, if_pos rfl]
  obtain ⟨H₁, he₁, hH₁, hf₁⟩ := setNext_spec (n := n) hra
  have hr₂ : H₁.read head = some ⟨x₀, n⟩ := by rw [hH₁, if_neg hne, hr₁]
  obtain ⟨H₂, he₂, hH₂, hf₂⟩ := setNext_spec (n := some a) hr₂
  have hread : ∀ b, H₂.read b = if b = head then some ⟨x₀, some a⟩ else
      if b = a then some ⟨c.val, n⟩ else H.read b := by
    intro b
    rw [hH₂, hH₁, read_malloc]
    split_ifs <;> rfl
  refine ⟨H₂, ?_, ⟨⟨x₀, rfl, some a, ?_, rfl, n, ?_, ?_⟩, fun b => ?_⟩, ?_⟩
  · simp only [push, hr₁, he₁, he₂, Option.bind_eq_bind, Option.bind_some]
  · rw [hread, if_pos rfl]
  · rw [hread, if_neg (Ne.symm hne), if_pos rfl]
  · refine hn.frame fun b hb => ?_
    have hbh : b ≠ head := fun he => (List.nodup_cons.1 h.nodup).1 (he ▸ hb)
    have hba : b ≠ a := fun he => hna (List.mem_cons_of_mem _ (he ▸ hb))
    rw [hread, if_neg hbh, if_neg hba]
  · have hlive := h.live b
    rw [mem_cells] at hlive ⊢
    rw [hread]
    by_cases hbh : b = head
    · simp [hbh]
    · by_cases hba : b = a
      · simp [hba, hne.symm]
      · rw [if_neg hbh, if_neg hba, hlive]
        simp [hbh, hba]
  · rw [hf₂, hf₁, malloc_freed]

/-- Where a removal puts the elements it goes through. -/
theorem mem_eraseP_or {q : Nat × α → Bool} (hb : b ∈ xs.map Prod.fst) :
    b ∈ (xs.eraseP q).map Prod.fst ∨ b ∈ ((xs.find? q).map Prod.fst).toList := by
  obtain ⟨y, hy, rfl⟩ := List.mem_map.1 hb
  by_cases hf : xs.find? q = some y
  · right
    rw [hf]
    exact List.mem_singleton_self _
  · exact .inl (List.mem_map_of_mem (Keyed.mem_eraseP_of_find?_ne hy hf))

variable {q : α → Bool} {k : Nat}

/-- The walk of `unlink` along a chain: the chain without the first match, the cells off the chain
as they were, the match freed. -/
theorem unlink_chain (hc : H.Chain (some p) ((p, x) :: xs)) (hf : xs.length < k) :
    ∃ H', unlink q k p H = some H' ∧ H'.Chain (some p) ((p, x) :: xs.eraseP fun y => q y.2) ∧
      (∀ b, b ∉ p :: xs.map Prod.fst → H'.read b = H.read b) ∧
      (∀ b ∈ ((xs.find? fun y => q y.2).map Prod.fst).toList, H'.read b = none) ∧
      H'.freed = H.freed ++ ((xs.find? fun y => q y.2).map Prod.fst).toList := by
  induction xs generalizing p x k with
  | nil =>
    obtain ⟨k, rfl⟩ : ∃ j, k = j + 1 := ⟨k - 1, by simp only [List.length_nil] at hf; omega⟩
    obtain ⟨-, n, hr, rfl⟩ := hc
    refine ⟨H, by simp [unlink, hr], ⟨rfl, none, hr, rfl⟩, fun _ _ => rfl, by simp, by simp⟩
  | cons y xs ih =>
    obtain ⟨k, rfl⟩ : ∃ j, k = j + 1 := ⟨k - 1, by simp only [List.length_cons] at hf; omega⟩
    have hnd := hc.nodup
    obtain ⟨a, v⟩ := y
    obtain ⟨-, n, hr, hca⟩ := hc
    obtain ⟨rfl, m, hra, hm⟩ := hca
    have hpa : p ≠ a := fun he => (List.nodup_cons.1 hnd).1 (he ▸ List.mem_cons_self)
    by_cases hq : q v = true
    · -- the match: its predecessor takes over its pointer, then it is freed
      obtain ⟨H₁, he₁, hH₁, hf₁⟩ := setNext_spec (n := m) hr
      have hra₁ : H₁.read a = some ⟨v, m⟩ := by rw [hH₁, if_neg hpa.symm, hra]
      obtain ⟨H₂, he₂, hH₂, hf₂⟩ := free_spec hra₁
      have hread : ∀ b, b ≠ p → b ≠ a → H₂.read b = H.read b := by
        intro b hbp hba
        rw [hH₂, if_neg hba, hH₁, if_neg hbp]
      have hfind : ((a, v) :: xs).find? (fun y => q y.2) = some (a, v) := List.find?_cons_of_pos hq
      have herase : ((a, v) :: xs).eraseP (fun y => q y.2) = xs := List.eraseP_cons_of_pos hq
      rw [hfind, herase]
      refine ⟨H₂, ?_, ⟨rfl, m, ?_, hm.frame fun b hb => ?_⟩, fun b hb => ?_, fun b hb => ?_, ?_⟩
      · simp only [unlink, hr, hra, hq, if_true, he₁, he₂, Option.bind_eq_bind, Option.bind_some]
      · rw [hH₂, if_neg hpa, hH₁, if_pos rfl]
      · have hnd' := List.nodup_cons.1 hnd
        refine hread b ?_ ?_
        · rintro rfl
          exact hnd'.1 (List.mem_cons_of_mem _ hb)
        · rintro rfl
          exact (List.nodup_cons.1 hnd'.2).1 hb
      · exact hread b (fun he => hb (he ▸ List.mem_cons_self))
          (fun he => hb (List.mem_cons_of_mem _ (he ▸ List.mem_cons_self)))
      · obtain rfl : b = a := by simpa using hb
        rw [hH₂, if_pos rfl]
      · rw [hf₂, hf₁]
        rfl
    · -- no match: the loop goes on from here, and the cell it leaves behind is off its chain
      have hfind : ((a, v) :: xs).find? (fun y => q y.2) = xs.find? fun y => q y.2 :=
        List.find?_cons_of_neg hq
      have herase : ((a, v) :: xs).eraseP (fun y => q y.2) = (a, v) :: xs.eraseP fun y => q y.2 :=
        List.eraseP_cons_of_neg hq
      obtain ⟨H', he, hc', hframe, hdead, hfreed⟩ := ih (p := a) (x := v) (k := k) ⟨rfl, m, hra, hm⟩
        (by simp only [List.length_cons] at hf; omega)
      rw [hfind, herase]
      have hp : H'.read p = some ⟨x, some a⟩ := (hframe p (List.nodup_cons.1 hnd).1).trans hr
      refine ⟨H', ?_, ⟨rfl, some a, hp, hc'⟩, fun b hb => ?_, hdead, hfreed⟩
      · simp only [unlink, hr, hra, hq, Bool.false_eq_true, if_false, he, Option.bind_eq_bind, Option.bind_some]
      · exact hframe b fun hm => hb (List.mem_cons_of_mem _ hm)

/-- **Removing the first match.** -/
theorem unlink_spec (h : H.IsList head xs) :
    ∃ H', unlink q H.size head H = some H' ∧ H'.IsList head (xs.eraseP fun y => q y.2) ∧
      H'.freed = H.freed ++ ((xs.find? fun y => q y.2).map Prod.fst).toList := by
  obtain ⟨x₀, hc⟩ := h.chain
  obtain ⟨H', he, hc', hframe, hdead, hfreed⟩ :=
    unlink_chain (q := q) (k := H.size) hc (by rw [h.size]; omega)
  refine ⟨H', he, ⟨⟨x₀, hc'⟩, fun b => ⟨fun hb => ?_, fun hb => hc'.live hb⟩⟩, hfreed⟩
  rw [mem_cells] at hb
  by_cases hm : b ∈ head :: xs.map Prod.fst
  · rcases List.mem_cons.1 hm with rfl | hm
    · exact List.mem_cons_self
    · rcases mem_eraseP_or (q := fun y => q y.2) hm with hkept | hgone
      · exact List.mem_cons_of_mem _ hkept
      · exact absurd (hdead b hgone) hb
  · rw [hframe b hm] at hb
    exact absurd ((h.live b).1 (mem_cells.2 hb)) hm

theorem search_chain (hc : H.Chain (some p) ((p, x) :: xs)) (hf : xs.length < k) :
    search q H k p = some ((xs.find? fun y => q y.2).map Prod.fst) := by
  induction xs generalizing p x k with
  | nil =>
    obtain ⟨k, rfl⟩ : ∃ j, k = j + 1 := ⟨k - 1, by simp only [List.length_nil] at hf; omega⟩
    obtain ⟨-, n, hr, rfl⟩ := hc
    simp [search, hr]
  | cons y xs ih =>
    obtain ⟨k, rfl⟩ : ∃ j, k = j + 1 := ⟨k - 1, by simp only [List.length_cons] at hf; omega⟩
    obtain ⟨a, v⟩ := y
    obtain ⟨-, n, hr, hca⟩ := hc
    obtain ⟨rfl, m, hra, hm⟩ := hca
    by_cases hq : q v = true
    · simp [search, hr, hra, hq]
    · have hrest := ih (p := a) (x := v) (k := k) ⟨rfl, m, hra, hm⟩
        (by simp only [List.length_cons] at hf; omega)
      simp [search, hr, hra, hq, hrest]

/-- **Searching finds the first match.** -/
theorem search_spec (h : H.IsList head xs) :
    search q H H.size head = some ((xs.find? fun y => q y.2).map Prod.fst) := by
  obtain ⟨x₀, hc⟩ := h.chain
  exact search_chain hc (by rw [h.size]; omega)

/-- **Walking reads the cells in order.** -/
theorem walk_spec {p : Option Nat} (hc : H.Chain p xs) (hf : xs.length ≤ k) :
    H.walk k p = some (links xs) := by
  induction xs generalizing p k with
  | nil =>
    obtain rfl : p = none := hc
    cases k <;> rfl
  | cons y xs ih =>
    obtain ⟨k, rfl⟩ : ∃ j, k = j + 1 := ⟨k - 1, by simp only [List.length_cons] at hf; omega⟩
    obtain ⟨a, v⟩ := y
    obtain ⟨rfl, n, hr, hn⟩ := hc
    have hrest := ih (k := k) hn (by simp only [List.length_cons] at hf; omega)
    simp only [walk, hr, hrest, links, Option.bind_eq_bind, Option.bind_some]
    rw [hn.start_eq]

theorem freeAll_chain {p : Option Nat} (hc : H.Chain p xs) (hf : xs.length ≤ k) :
    ∃ H', freeAll k p H = some H' ∧
      (∀ b, H'.read b = if b ∈ xs.map Prod.fst then none else H.read b) ∧
      H'.freed = H.freed ++ xs.map Prod.fst := by
  induction xs generalizing p k H with
  | nil =>
    obtain rfl : p = none := hc
    exact ⟨H, by cases k <;> rfl, fun _ => by simp, by simp⟩
  | cons y xs ih =>
    obtain ⟨k, rfl⟩ : ∃ j, k = j + 1 := ⟨k - 1, by simp only [List.length_cons] at hf; omega⟩
    have hnd := List.nodup_cons.1 hc.nodup
    obtain ⟨a, v⟩ := y
    obtain ⟨rfl, n, hr, hn⟩ := hc
    obtain ⟨H₁, he₁, hH₁, hf₁⟩ := free_spec hr
    have hn₁ : H₁.Chain n xs := by
      refine hn.frame fun b hb => ?_
      have hba : b ≠ a := fun he => hnd.1 (he ▸ hb)
      rw [hH₁, if_neg hba]
    obtain ⟨H', he, hread, hfreed⟩ := ih (k := k) hn₁ (by simp only [List.length_cons] at hf; omega)
    refine ⟨H', by simp [freeAll, hr, he₁, he], fun b => ?_, ?_⟩
    · rw [hread, hH₁, List.map_cons]
      by_cases hba : b = a
      · simp [hba]
      · simp only [List.mem_cons, hba, false_or, if_false]
    · rw [hfreed, hf₁]
      simp

/-- **Clearing frees every cell behind the sentinel.** -/
theorem clear_spec (h : H.IsList head xs) :
    ∃ H', H.clear head = some H' ∧ H'.IsList head [] ∧ H'.freed = H.freed ++ xs.map Prod.fst := by
  obtain ⟨x₀, -, n, hr, hn⟩ := h.chain
  obtain ⟨H₁, he₁, hH₁, hf₁⟩ := freeAll_chain (k := H.size) hn (by rw [h.size]; omega)
  have hhead : head ∉ xs.map Prod.fst := (List.nodup_cons.1 h.nodup).1
  have hr₁ : H₁.read head = some ⟨x₀, n⟩ := by rw [hH₁, if_neg hhead, hr]
  obtain ⟨H₂, he₂, hH₂, hf₂⟩ := setNext_spec (n := none) hr₁
  refine ⟨H₂, by simp [clear, hr, he₁, he₂], ⟨⟨x₀, rfl, none, by rw [hH₂, if_pos rfl], rfl⟩, fun b => ?_⟩, ?_⟩
  · have hlive := h.live b
    rw [mem_cells] at hlive ⊢
    rw [hH₂]
    by_cases hb : b = head
    · simp [hb]
    · rw [if_neg hb, hH₁]
      by_cases hbx : b ∈ xs.map Prod.fst
      · simp [hbx, hb]
      · rw [if_neg hbx, hlive]
        simp only [List.mem_cons, hb, hbx, List.map_nil, List.not_mem_nil]
  · rw [hf₂, hf₁]

end Heap

end UnixNote
