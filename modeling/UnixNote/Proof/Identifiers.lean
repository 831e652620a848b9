import UnixNote.TcpUdp.Server

/-!
# The ids of the connected clients

No call looks for an id that is free. The ids along the list fall from the head on
(`Descending`), so that the one after the first is above all others; a removal keeps the order
wherever it is. With fewer than 2^31 - 1001 joins no id passes the largest `int`.

* `addList_spec`, `delList_spec`: the calls on the list as a sequence.
* `ids_decreasing`: the order after any calls, hence no id twice.
-/

namespace UnixNote.TcpUdp.Server

variable {phead pnode : Nat} {x : CNode} {xs : List (Nat × CNode)} {H H' : Heap CNode} {c : Call} {fd : Int}
  {ptemp : Cell CNode} {tr : List (Heap CNode × Call)} {n : Nat}

/-- The ids along the list. -/
def ids (xs : List (Nat × CNode)) : List Int := xs.map fun y => y.2.cliattr.id

/-- The id a new node gets: the first node decides. -/
def nextId (xs : List (Nat × CNode)) : Int :=
  match xs with
  | [] => 1001
  | y :: _ => CInt.wrap (y.2.cliattr.id + 1)

/-! ## The calls -/

theorem newId_spec (h : H.IsList phead xs) : newId H phead = some (nextId xs) := by
  obtain ⟨x₀, -, p, hr, hc⟩ := h.chain
  cases xs with
  | nil =>
    obtain rfl : p = none := hc
    simp only [newId, hr, Option.bind_eq_bind, Option.bind_some]
    rfl
  | cons y xs =>
    obtain ⟨rfl, m, hr', -⟩ := hc
    simp only [newId, hr, hr', Option.bind_eq_bind, Option.bind_some]
    rfl

theorem addList_spec (ptemp : Cell CNode) (h : H.IsList phead xs) (hp : pnode ∉ H.cells) :
    ∃ H', addList H phead pnode ptemp = some H' ∧
      H'.IsList phead ((pnode, (withId ptemp (nextId xs)).val) :: xs) := by
  obtain ⟨H', he, hl, -⟩ := Heap.push_spec (c := withId ptemp (nextId xs)) h hp
  refine ⟨H', ?_, hl⟩
  rw [addList, newId_spec h]
  exact he

theorem delList_spec (fd : Int) (h : H.IsList phead xs) :
    ∃ H', delList H phead fd = some H' ∧ H'.IsList phead (xs.eraseP fun y => y.2.sockfd = fd) := by
  obtain ⟨H', he, hl, -⟩ := Heap.unlink_spec (q := fun n => decide (n.sockfd = fd)) h
  exact ⟨H', he, hl⟩

/-! ## The order -/

/-- The ids fall from the head on, between 1001 and `1000 + n`. -/
structure Descending (n : Nat) (xs : List (Nat × CNode)) : Prop where
  order : (ids xs).Pairwise (· > ·)
  low : ∀ id ∈ ids xs, 1001 ≤ id
  high : ∀ id ∈ ids xs, id ≤ 1000 + n

@[simp] theorem ids_nil : ids [] = [] := rfl

@[simp] theorem ids_cons {y : Nat × CNode} : ids (y :: xs) = y.2.cliattr.id :: ids xs := rfl

theorem Descending.nil : Descending n [] := ⟨by simp, by simp, by simp⟩

/-- The next id is above those of all nodes. -/
theorem Descending.nextId_spec (h : Descending n xs) (hn : n < 2147482646) :
    1001 ≤ nextId xs ∧ nextId xs ≤ 1000 + ((n + 1 : Nat) : Int) ∧ ∀ id ∈ ids xs, id < nextId xs := by
  cases xs with
  | nil =>
    refine ⟨Int.le_refl _, ?_, fun id hid => by cases hid⟩
    simp only [nextId]
    omega
  | cons y xs =>
    have hlow : 1001 ≤ y.2.cliattr.id := h.low _ List.mem_cons_self
    have hhigh : y.2.cliattr.id ≤ 1000 + n := h.high _ List.mem_cons_self
    have hnext : nextId (y :: xs) = y.2.cliattr.id + 1 := by
      simp only [nextId, CInt.wrap]
      omega
    rw [hnext]
    refine ⟨by omega, by omega, fun id hid => ?_⟩
    rw [ids_cons] at hid
    rcases List.mem_cons.1 hid with rfl | hid
    · omega
    · have : id < y.2.cliattr.id := (List.pairwise_cons.1 h.order).1 id hid
      omega

theorem Descending.addList (h : Descending n xs) (hn : n < 2147482646) :
    Descending (n + 1) ((pnode, (withId ptemp (nextId xs)).val) :: xs) := by
  obtain ⟨hlow, hhigh, hab⟩ := h.nextId_spec hn
  refine ⟨List.pairwise_cons.2 ⟨hab, h.order⟩, fun id hid => ?_, fun id hid => ?_⟩
  · rcases List.mem_cons.1 hid with rfl | hid
    · exact hlow
    · exact h.low id hid
  · rcases List.mem_cons.1 hid with rfl | hid
    · exact hhigh
    · have := h.high id hid
      omega

/-- What is removed, the order stays. -/
theorem Descending.delList (h : Descending n xs) : Descending n (xs.eraseP fun y => y.2.sockfd = fd) := by
  have hsub : (ids (xs.eraseP fun y => y.2.sockfd = fd)).Sublist (ids xs) := List.eraseP_sublist.map _
  exact ⟨h.order.sublist hsub, fun id hid => h.low id (hsub.subset hid), fun id hid => h.high id (hsub.subset hid)⟩

/-! ## All calls -/

/-- The calls for a join among those of a trace. -/
def joins (tr : List (Heap CNode × Call)) : Nat :=
  tr.countP fun a => match a.2 with
    | .addList .. => true
    | .delList _ => false

/-- Every call returns, on a list that keeps the order while there were few joins. -/
theorem exec_spec (h : H.IsList phead xs) (hexec : c.exec H phead = some H') :
    ∃ xs', H'.IsList phead xs' ∧ ∀ n, n < 2147482647 - joins [(H, c)] → Descending n xs →
      Descending (n + joins [(H, c)]) xs' := by
  cases c with
  | addList ptemp pnode =>
    simp only [Call.exec] at hexec
    split at hexec
    · cases hexec
    · rename_i hfresh
      obtain ⟨H₁, he, hl⟩ := addList_spec ptemp h hfresh
      obtain rfl : H₁ = H' := Option.some.inj (he.symm.trans hexec)
      exact ⟨_, hl, fun n hn hd => hd.addList hn⟩
  | delList fd =>
    obtain ⟨H₁, he, hl⟩ := delList_spec fd h
    obtain rfl : H₁ = H' := Option.some.inj (he.symm.trans hexec)
    exact ⟨_, hl, fun n _ hd => hd.delList⟩

/-- **The ids of the connected clients are distinct**: they fall from the head of the list on. A join puts its node in
front, and a leave takes out the first node with its descriptor. -/
theorem ids_decreasing (hr : (lts phead x).Run (fun _ _ => True) tr H) (hj : joins tr < 2 ^ 31 - 1001) :
    ∃ xs, H.IsList phead xs ∧ (ids xs).Pairwise (· > ·) ∧ (∀ id ∈ ids xs, 1001 ≤ id) ∧ (ids xs).Nodup ∧
      (∀ ptemp pnode, pnode ∉ H.cells → ∃ H', (Call.addList ptemp pnode).exec H phead = some H' ∧
        H'.IsList phead ((pnode, (withId ptemp (nextId xs)).val) :: xs)) ∧
      ∀ fd, ∃ H', (Call.delList fd).exec H phead = some H' ∧
        H'.IsList phead (xs.eraseP fun y => y.2.sockfd = fd) := by
  have hinv : ∃ xs, H.IsList phead xs ∧ (joins tr < 2147482647 → Descending (joins tr) xs) := by
    refine hr.history (I := fun tr H => ∃ xs, H.IsList phead xs ∧ (joins tr < 2147482647 → Descending (joins tr) xs))
      ?_ ?_
    · rintro H rfl
      exact ⟨[], Heap.create_isList, fun _ => .nil⟩
    · rintro tr H c H' ⟨xs, hl, hd⟩ _ hs
      obtain ⟨xs', hl', hstep⟩ := exec_spec hl hs
      refine ⟨xs', hl', fun hlt => ?_⟩
      have hsplit : joins (tr ++ [(H, c)]) = joins tr + joins [(H, c)] := List.countP_append
      rw [hsplit] at hlt ⊢
      exact hstep _ (by omega) (hd (by omega))
  obtain ⟨xs, hl, hd⟩ := hinv
  have hdesc := hd (by omega)
  have hnodup : (ids xs).Nodup := hdesc.order.imp fun h => ne_of_gt h
  refine ⟨xs, hl, hdesc.order, hdesc.low, hnodup, fun ptemp pnode hp => ?_, fun fd => ?_⟩
  · obtain ⟨H', he, hl'⟩ := addList_spec ptemp hl hp
    refine ⟨H', ?_, hl'⟩
    rw [Call.exec, if_neg hp]
    exact he
  · exact delList_spec fd hl

/-- The heap after a call on the list at 0. -/
def after (H : Heap CNode) (c : Call) : Heap CNode := (c.exec H 0).getD H

/-- Calls that can be made one after the other are a run. -/
theorem run_after (cs : List Call)
    (h : Lts.Script (fun H c => (c.exec H 0).isSome = true) after (Heap.create 0 x) cs) :
    (lts 0 x).Run (fun _ _ => True) (Lts.steps after (Heap.create 0 x) cs) (cs.foldl after (Heap.create 0 x)) := by
  have h₀ : (lts 0 x).Run (fun _ _ => True) [] (Heap.create 0 x) := .start rfl
  refine h₀.script (fun H c hexec => ⟨trivial, ?_⟩) cs h
  have hne : c.exec H 0 ≠ none := Option.isSome_iff_ne_none.1 hexec
  exact (Option.getD_of_ne_none hne H).symm

/-- The record of a connection as `main` fills it in, its id and its pointer left over. -/
def fresh (fd : Int) : Cell CNode := ⟨⟨⟨⟨fd.toNat, 40000⟩, 0⟩, fd⟩, none⟩

/-- Two joins, the second client leaves, a third one joins and gets its id. -/
def reused : List Call := [.addList (fresh 5) 1, .addList (fresh 6) 2, .delList 6, .addList (fresh 7) 3]

theorem ids_decreasing_reused : ∃ xs, (reused.foldl after (Heap.create 0 (fresh 0).val)).IsList 0 xs ∧
    (ids xs).Nodup := by
  obtain ⟨xs, hl, _, _, hnodup, _⟩ := ids_decreasing (run_after (x := (fresh 0).val) reused (by decide)) (by decide)
  exact ⟨xs, hl, hnodup⟩

example : (reused.foldl after (Heap.create 0 (fresh 0).val)).read 3 =
    some ⟨⟨⟨⟨7, 40000⟩, 1002⟩, 7⟩, some 1⟩ := by decide

end UnixNote.TcpUdp.Server
