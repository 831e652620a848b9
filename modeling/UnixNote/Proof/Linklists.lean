import Mathlib.Data.List.Count
import UnixNote.Chat.Linklist

/-!
# The linked list is a sequence

* `exec_spec`: what one call does to a list, stated on the sequence it holds.
* `linklist_refines`: after any calls the chain from the sentinel holds the sequence that the
  calls describe, and `free` was given what `del_list` took out, each node once.
* `addList_represents`, `delList_represents`, `searchList_represents`: `OnlineList`, the list of
  the other modules, is such a sequence up to the addresses.
-/

namespace UnixNote.Linklist

variable {phead a : Nat} {x : OnlineNode} {xs : List (Nat × OnlineNode)} {c : Call} {cs : List Call}
  {H H' : Heap OnlineNode} {fdId : Int} {flag : Flag}

/-! ## Calls on a sequence -/

/-- The first node with the key. -/
def first (fdId : Int) (flag : Flag) (xs : List (Nat × OnlineNode)) : Option (Nat × OnlineNode) :=
  xs.find? fun y => key flag y.2 = fdId

/-- What a call does to the sequence of nodes, each with its address. -/
def Call.onSeq (xs : List (Nat × OnlineNode)) : Call → List (Nat × OnlineNode)
  | .addList ptemp pnode => (pnode, ptemp.val) :: xs
  | .delList fdId flag => xs.eraseP fun y => key flag y.2 = fdId
  | .searchList _ _ => xs

/-- The pointer a call returns. -/
def Call.returns (xs : List (Nat × OnlineNode)) : Call → Option Nat
  | .searchList fdId flag => (first fdId flag xs).map Prod.fst
  | _ => none

/-- The addresses a call frees. -/
def Call.frees (xs : List (Nat × OnlineNode)) : Call → List Nat
  | .delList fdId flag => ((first fdId flag xs).map Prod.fst).toList
  | _ => []

/-- The addresses a call gets from `malloc`. -/
def Call.mallocs : Call → List Nat
  | .addList _ pnode => [pnode]
  | _ => []

/-- The sequence after calls on the empty one. -/
def seq (cs : List Call) : List (Nat × OnlineNode) := cs.foldl Call.onSeq []

/-- The addresses freed by calls on `xs`, in order. -/
def removed : List (Nat × OnlineNode) → List Call → List Nat
  | _, [] => []
  | xs, c :: cs => c.frees xs ++ removed (c.onSeq xs) cs

theorem seq_append : seq (cs ++ [c]) = c.onSeq (seq cs) := by
  rw [seq, List.foldl_append]
  rfl

theorem removed_append : removed xs (cs ++ [c]) = removed xs cs ++ c.frees (cs.foldl Call.onSeq xs) := by
  induction cs generalizing xs with
  | nil => simp [removed]
  | cons d cs ih => simp only [List.cons_append, removed, ih, List.foldl_cons, List.append_assoc]

/-- What leaves a sequence is freed, what enters it comes from `malloc`. -/
theorem count_onSeq (c : Call) (xs : List (Nat × OnlineNode)) (a : Nat) :
    c.mallocs.count a + (xs.map Prod.fst).count a = (c.frees xs).count a + ((c.onSeq xs).map Prod.fst).count a := by
  cases c with
  | addList ptemp pnode =>
    simp only [Call.mallocs, Call.frees, Call.onSeq, List.map_cons, List.count_cons, List.count_nil]
    omega
  | searchList fdId flag => rfl
  | delList fdId flag =>
    simp only [Call.mallocs, Call.frees, Call.onSeq, first, List.count_nil, zero_add]
    induction xs with
    | nil => rfl
    | cons y xs ih =>
      by_cases hk : key flag y.2 = fdId
      · rw [List.find?_cons_of_pos (by simpa using hk), List.eraseP_cons_of_pos (by simpa using hk)]
        simp only [Option.map_some, Option.toList_some, List.map_cons, List.count_cons, List.count_nil]
        omega
      · rw [List.find?_cons_of_neg (by simpa using hk), List.eraseP_cons_of_neg (by simpa using hk)]
        simp only [List.map_cons, List.count_cons]
        omega

/-! ## One call -/

/-- **One call on the heap** is one on the sequence: it returns, and what it removes is dead. -/
theorem exec_spec (h : H.IsList phead xs) (hc : c.Fresh H) :
    ∃ H', c.exec H phead = some (H', c.returns xs) ∧ H'.IsList phead (c.onSeq xs) ∧
      H'.freed = H.freed ++ c.frees xs := by
  cases c with
  | addList ptemp pnode =>
    obtain ⟨H', he, hl, hf⟩ := Heap.push_spec (c := ptemp) h hc
    refine ⟨H', ?_, hl, ?_⟩
    · simp only [Call.exec, addList, he, Option.bind_eq_bind, Option.bind_some]
      rfl
    · simpa [Call.frees] using hf
  | delList fdId flag =>
    obtain ⟨H', he, hl, hf⟩ := Heap.unlink_spec (q := fun n => decide (key flag n = fdId)) h
    refine ⟨H', ?_, hl, hf⟩
    simp only [Call.exec, delList, he, Option.bind_eq_bind, Option.bind_some]
    rfl
  | searchList fdId flag =>
    have he := Heap.search_spec (q := fun n => decide (key flag n = fdId)) h
    refine ⟨H, ?_, h, ?_⟩
    · simp only [Call.exec, searchList, he, Option.bind_eq_bind, Option.bind_some]
      rfl
    · simp [Call.frees]

/-- A search leaves the heap as it is. -/
theorem searchList_unchanged {r : Option Nat} (h : (Call.searchList fdId flag).exec H phead = some (H', r)) :
    H' = H := by
  simp only [Call.exec, Option.bind_eq_bind, Option.bind_eq_some_iff, Option.some.injEq, Prod.mk.injEq] at h
  obtain ⟨_, _, rfl, _⟩ := h
  rfl

/-- A removed node is in the sequence before, and not after. -/
theorem frees_spec (hn : (xs.map Prod.fst).Nodup) (ha : a ∈ c.frees xs) :
    a ∈ xs.map Prod.fst ∧ a ∉ (c.onSeq xs).map Prod.fst := by
  have hcount := count_onSeq c xs a
  have hpos := List.count_pos_iff.2 ha
  have hle := List.nodup_iff_count_le_one.1 hn a
  have hmalloc : c.mallocs = [] := by cases c <;> first | rfl | cases ha
  rw [hmalloc, List.count_nil] at hcount
  refine ⟨List.count_pos_iff.1 (by omega), fun hm => ?_⟩
  have := List.count_pos_iff.2 hm
  omega

/-! ## All calls -/

/-- The heap after the calls `cs` on a new list, and what the next call does. -/
structure Refines (phead : Nat) (cs : List Call) (H : Heap OnlineNode) : Prop where
  list : H.IsList phead (seq cs)
  acyclic : (phead :: (seq cs).map Prod.fst).Nodup
  freed : H.freed = removed [] cs
  once : ∀ a, (cs.flatMap Call.mallocs).count a = H.freed.count a + ((seq cs).map Prod.fst).count a
  sentinel : phead ∉ H.freed
  next : ∀ c : Call, c.Fresh H → ∃ H', c.exec H phead = some (H', c.returns (seq cs)) ∧
    H'.IsList phead (c.onSeq (seq cs)) ∧ H'.freed = H.freed ++ c.frees (seq cs) ∧
    (∀ a ∈ c.frees (seq cs), a ∉ H'.cells) ∧ (∀ fdId flag, c = .searchList fdId flag → H' = H)

theorem Refines.of (hl : H.IsList phead (seq cs)) (hf : H.freed = removed [] cs) (hs : phead ∉ H.freed)
    (ho : ∀ a, (cs.flatMap Call.mallocs).count a = H.freed.count a + ((seq cs).map Prod.fst).count a) :
    Refines phead cs H where
  list := hl
  acyclic := hl.nodup
  freed := hf
  once := ho
  sentinel := hs
  next := by
    intro c hc
    have hnd := List.nodup_cons.1 hl.nodup
    obtain ⟨H', he, hl', hf'⟩ := exec_spec hl hc
    refine ⟨H', he, hl', hf', fun a ha hlive => ?_, ?_⟩
    · obtain ⟨hmem, hgone⟩ := frees_spec hnd.2 ha
      rcases List.mem_cons.1 ((hl'.live a).1 hlive) with rfl | hm
      · exact hnd.1 hmem
      · exact hgone hm
    · rintro fdId flag rfl
      exact searchList_unchanged he

theorem Refines.created : Refines phead [] (created phead x) :=
  .of Heap.create_isList rfl List.not_mem_nil fun _ => rfl

/-- One more call. -/
theorem Refines.step (h : Refines phead cs H) (hs : (lts phead x).step H c H') :
    Refines phead (cs ++ [c]) H' := by
  obtain ⟨hfresh, r, hexec⟩ := hs
  obtain ⟨H₁, he, hl, hf, -, -⟩ := h.next c hfresh
  obtain rfl : H₁ = H' := congrArg Prod.fst (Option.some.inj (he.symm.trans hexec))
  refine .of ?_ ?_ ?_ fun a => ?_
  · rw [seq_append]
    exact hl
  · rw [removed_append, hf, h.freed]
    rfl
  · rw [hf, List.mem_append]
    rintro (hm | hm)
    · exact h.sentinel hm
    · have hnd := List.nodup_cons.1 h.acyclic
      exact hnd.1 (frees_spec hnd.2 hm).1
  · have hcount := count_onSeq c (seq cs) a
    have honce := h.once a
    rw [seq_append, hf]
    simp only [List.flatMap_append, List.count_append, List.flatMap_cons, List.flatMap_nil, List.append_nil]
    omega

/-- **The linked list refines a sequence.** -/
theorem linklist_refines {tr : List (Heap OnlineNode × Call)}
    (hr : (lts phead x).Run (fun _ _ => True) tr H) : Refines phead (tr.map Prod.snd) H := by
  refine hr.history (I := fun tr H => Refines phead (tr.map Prod.snd) H) ?_ ?_
  · rintro H rfl
    exact .created
  · intro tr H c H' h _ hs
    rw [List.map_append]
    exact h.step hs

/-- The heap after a call on the list at 0. -/
def after (H : Heap OnlineNode) (c : Call) : Heap OnlineNode := ((c.exec H 0).map Prod.fst).getD H

/-- Calls that can be made one after the other are a run. -/
theorem run_after (cs : List Call)
    (h : Lts.Script (fun H c => c.Fresh H ∧ (c.exec H 0).isSome = true) after (created 0 x) cs) :
    (lts 0 x).Run (fun _ _ => True) (Lts.steps after (created 0 x) cs) (cs.foldl after (created 0 x)) := by
  have h₀ : (lts 0 x).Run (fun _ _ => True) [] (created 0 x) := .start rfl
  refine h₀.script (fun H c => ?_) cs h
  rintro ⟨hfresh, hexec⟩
  obtain ⟨⟨H', r⟩, he⟩ := Option.isSome_iff_exists.1 hexec
  refine ⟨trivial, hfresh, r, ?_⟩
  rw [after, he]
  rfl

/-- Two nodes with one id, one of them taken out, and a search. -/
def twice : List Call :=
  [.addList ⟨⟨5, 10, ⟨1, 80⟩⟩, none⟩ 1, .addList ⟨⟨5, 11, ⟨2, 90⟩⟩, some 7⟩ 2, .delList 5 .byId,
    .searchList 10 .bySockfd]

theorem linklist_refines_twice :
    Refines 0 twice (twice.foldl after (created 0 ⟨0, 0, ⟨0, 0⟩⟩)) ∧ (seq twice).map Prod.fst = [1] :=
  ⟨linklist_refines (run_after twice (by decide)), by decide⟩

/-! ## `OnlineList` -/

/-- The list at `phead` holds the nodes of `l`, the one that `l` has at `ref` at the address `ρ ref`. -/
def Represents (ρ : Nat → Nat) (H : Heap OnlineNode) (phead : Nat) (l : OnlineList) : Prop :=
  H.IsList phead (l.nodes.map fun n => (ρ n.ref, n.toOnlineNode))

variable {ρ : Nat → Nat} {l : OnlineList}

theorem create_represents : Represents ρ (created phead x) phead OnlineList.create := Heap.create_isList

theorem addList_represents {ptemp : Cell OnlineNode} (h : Represents ρ H phead l) (ha : a ∉ H.cells) :
    ∃ H', addList H (some phead) a ptemp = some H' ∧
      Represents (Function.update ρ l.brk a) H' phead (l.addList ptemp.val) := by
  obtain ⟨H', he, hl, -⟩ := Heap.push_spec (c := ptemp) h ha
  refine ⟨H', he, ?_⟩
  have hold : ∀ n ∈ l.nodes, Function.update ρ l.brk a n.ref = ρ n.ref := by
    intro n hn
    rw [Function.update_of_ne (Nat.ne_of_lt (l.allocated n hn))]
  rw [Represents, OnlineList.addList_nodes, List.map_cons, Function.update_self]
  rwa [List.map_congr_left fun n hn => by rw [hold n hn]]

theorem delList_represents (h : Represents ρ H phead l) :
    ∃ H', delList H (some phead) fdId flag = some H' ∧ Represents ρ H' phead (l.delList fdId flag) := by
  obtain ⟨H', he, hl, -⟩ := Heap.unlink_spec (q := fun n => decide (key flag n = fdId)) h
  refine ⟨H', he, ?_⟩
  rw [List.eraseP_map] at hl
  cases flag <;> exact hl

theorem searchList_represents (h : Represents ρ H phead l) :
    searchList H (some phead) fdId flag = some ((l.searchList fdId flag).map fun n => ρ n.ref) := by
  have he := Heap.search_spec (q := fun n => decide (key flag n = fdId)) h
  rw [List.find?_map, Option.map_map] at he
  cases flag <;> exact he

end UnixNote.Linklist
