import UnixNote.Ipc.Service
import Mathlib.Data.Fintype.Basic

/-!
# One client at a time

All registrations share a queue that is removed after each message, a semaphore and an integer, and all
logins a queue of replies. `answers_match`: as long as no two registrations are under way at
once, and no two logins, every client gets its own answer. `answers_match_breaks` has two
clients in `register_fun`: one message is removed with the queue, and its client takes the
other's id.

* `Phase`: where a registration is, with all its objects; `Registrations` is what follows from it.
* `Talk`, `Logins`: the same for a login.
-/

namespace UnixNote.Ipc

variable {ι κ : Type*} {stu : ι → Stu} {req : κ → Stu} {r r' : Registry ι} {c c' : Counter κ} {t t' : Table}
  {i j : ι} {k : κ} {x : Int}

/-! ## The condition -/

/-- Client `i` has a registration under way. -/
def Registry.Busy (r : Registry ι) (i : ι) : Prop := r.client i = .sent ∨ r.client i = .left

/-- A message is sent to a queue that is still there, when no other registration is under way. -/
def Registry.Free (r : Registry ι) (i : ι) : Prop :=
  ∀ msgid, r.client i = .got msgid → (∃ mbs, r.queue = some (msgid, mbs)) ∧ ∀ j, ¬ r.Busy j

/-- A request is written when no other login is under way. -/
def Counter.Free (c : Counter κ) (k : κ) : Prop := c.client k = .start → ∀ l, c.client l ≠ .requested

/-- One client at a time. -/
def OneAtATime (s : State ι κ) : Act ι κ → Prop
  | .registerFun i => s.registry.Free i
  | .loginFun k => s.counter.Free k
  | _ => True

/-- Client `k` moves to `v`. -/
theorem update_cases [DecidableEq κ] {β : Type*} {f : κ → β} {k l : κ} {v w : β} (h : Function.update f k v l = w) :
    (l = k ∧ v = w) ∨ (l ≠ k ∧ f l = w) := by
  by_cases hlk : l = k
  · rw [hlk, Function.update_self] at h
    exact Or.inl ⟨hlk, h⟩
  · rw [Function.update_of_ne hlk] at h
    exact Or.inr ⟨hlk, h⟩

/-! ## The table -/

theorem maxRow_mem (rows : List Stu) (best : Option Stu) {b : Stu}
    (h : rows.foldl (fun best r =>
      match best with
      | none => some r
      | some b => if b.id < r.id then some r else some b) best = some b) : best = some b ∨ b ∈ rows := by
  induction rows generalizing best with
  | nil => exact Or.inl h
  | cons row rows ih =>
    rw [List.foldl_cons] at h
    rcases ih _ h with hbest | hmem
    · cases best with
      | none =>
        cases hbest
        exact Or.inr List.mem_cons_self
      | some b' =>
        simp only at hbest
        split at hbest
        · cases hbest
          exact Or.inr List.mem_cons_self
        · exact Or.inl hbest
    · exact Or.inr (List.mem_cons_of_mem _ hmem)

/-- The row just inserted is the one with the maximal id. -/
theorem Table.maxRow_insert (name password : CStr) :
    (t.insert name password).maxRow = some ⟨t.nextId, name, password⟩ := by
  have hrows : (t.insert name password).rows = t.rows ++ [⟨t.nextId, name, password⟩] := rfl
  rw [Table.maxRow, hrows, List.foldl_append, List.foldl_cons, List.foldl_nil]
  split
  · rfl
  · rename_i b hb
    have hmem : b ∈ t.rows := by
      rcases maxRow_mem t.rows none hb with h | h
      · cases h
      · exact h
    rw [if_pos (t.below b hmem)]

theorem Table.rows_insert (name password : CStr) : t.rows <+: (t.insert name password).rows := List.prefix_append ..

/-! ## Where a registration is -/

/-- `register_action` waits for a message. -/
def Registry.Waits (r : Registry ι) : Prop :=
  r.server = .msgget ∨ ∃ msgid mbs, r.server = .msgrcv msgid ∧ r.queue = some (msgid, mbs)

/-- No message is in the queue. -/
def Registry.Quiet (r : Registry ι) : Prop := ∀ msgid mbs, r.queue = some (msgid, mbs) → mbs = []

/-- `mb` has not reached the table yet. -/
inductive Pending (r : Registry ι) (mb : Msg ι) : Prop where
  | queued (msgid : Nat) (hw : r.Waits) (hq : r.queue = some (msgid, [mb]))
  | taken (msgid : Nat) (hs : r.server = .msgctl msgid mb) (hq : r.queue = some (msgid, []))
  | removed (hs : r.server = .insert mb) (hq : r.Quiet)

/-- The row of client `i` is in the table, and its id on the way to the semaphore. -/
inductive Answering (r : Registry ι) (i : ι) : Prop where
  | select (pid : Int) (row : Stu) (hs : r.server = .select pid) (hrow : r.table.maxRow = some row)
      (hi : (row.id, i) ∈ r.author)
  | kill (pid : Int) (row : Stu) (hs : r.server = .kill pid row) (hi : (row.id, i) ∈ r.author)
  | store (row : Stu) (hs : r.server = .store row) (hi : (row.id, i) ∈ r.author)
  | semop (hs : r.server = .semop) (hi : (r.shm, i) ∈ r.author)

/-- The registration that is under way, and where its message or its id is. -/
inductive Phase (stu : ι → Stu) (r : Registry ι) : Option ι → Prop where
  | idle (hw : r.Waits) (hq : r.Quiet) (hsem : r.sem = 0) : Phase stu r none
  | pending (i : ι) (hi : r.client i = .sent) (hp : Pending r ⟨i, stu i⟩) (hsem : r.sem = 0) : Phase stu r (some i)
  | answering (i : ι) (hi : r.client i = .sent) (ha : Answering r i) (hq : r.Quiet) (hsem : r.sem = 0) :
      Phase stu r (some i)
  | posted (i : ι) (hi : r.client i = .sent) (hw : r.Waits) (hq : r.Quiet) (hsem : r.sem = 1)
      (hx : (r.shm, i) ∈ r.author) : Phase stu r (some i)
  | left (i : ι) (hi : r.client i = .left) (hw : r.Waits) (hq : r.Quiet) (hsem : r.sem = 0)
      (hx : (r.shm, i) ∈ r.author) : Phase stu r (some i)

/-- The message of client `i` has become a row. -/
def Registry.Inserted (r : Registry ι) (i : ι) : Prop := ∃ x, (x, i) ∈ r.author

/-- What holds of the registrations. -/
structure Registrations (stu : ι → Stu) (r : Registry ι) : Prop where
  phase : ∃ o, Phase stu r o ∧ ∀ j, r.Busy j → o = some j
  rows : ∀ x i, (x, i) ∈ r.author → ⟨x, (stu i).name, (stu i).password⟩ ∈ r.table.rows
  printed : ∀ i x, r.client i = .printed x → (x, i) ∈ r.author
  queued : ∀ i, i ∈ r.queued → r.Inserted i ∨ Pending r ⟨i, stu i⟩

/-! ## `msgget` -/

/-- A step that creates the queue or finds it, and what it leaves. -/
structure Opens (r r' : Registry ι) : Prop where
  table : r'.table = r.table
  sem : r'.sem = r.sem
  shm : r'.shm = r.shm
  author : r'.author = r.author
  queued : r'.queued = r.queued
  queue : r'.queue = r.queue ∨ (r.queue = none ∧ ∃ msgid, r'.queue = some (msgid, []))
  waits : r.Waits → r'.Waits
  server : r.Waits ∨ r'.server = r.server

theorem msgget_queue (r : Registry ι) : ∃ mbs, r.msgget.2.queue = some (r.msgget.1, mbs) := by
  unfold Registry.msgget
  split
  · rename_i msgid mbs hq
    exact ⟨mbs, hq⟩
  · exact ⟨[], rfl⟩

theorem msgget_opens (r : Registry ι) : Opens r r.msgget.2 := by
  unfold Registry.msgget
  split
  · exact ⟨rfl, rfl, rfl, rfl, rfl, Or.inl rfl, id, Or.inr rfl⟩
  · rename_i hq
    refine ⟨rfl, rfl, rfl, rfl, rfl, Or.inr ⟨hq, r.nextMsqid, rfl⟩, ?_, Or.inr rfl⟩
    intro hw
    rcases hw with hs | ⟨msgid, mbs, hs, hq'⟩
    · exact Or.inl hs
    · rw [hq] at hq'
      cases hq'

/-- `msgget` of the thread. -/
theorem thread_opens (hs : r.server = .msgget) : Opens r { r.msgget.2 with server := .msgrcv r.msgget.1 } := by
  have h := msgget_opens r
  obtain ⟨mbs, hq⟩ := msgget_queue r
  exact ⟨h.table, h.sem, h.shm, h.author, h.queued, h.queue, fun _ => Or.inr ⟨_, mbs, rfl, hq⟩, Or.inl (Or.inl hs)⟩

theorem Opens.some (h : Opens r r') {msgid : Nat} {mbs : List (Msg ι)} (hq : r.queue = some (msgid, mbs)) :
    r'.queue = some (msgid, mbs) := by
  rcases h.queue with he | ⟨hnone, -⟩
  · rw [he, hq]
  · rw [hnone] at hq
    cases hq

theorem Opens.quiet (h : Opens r r') (hq : r.Quiet) : r'.Quiet := by
  intro msgid mbs hq'
  rcases h.queue with he | ⟨-, msgid', he⟩
  · exact hq msgid mbs (by rw [← he, hq'])
  · rw [he] at hq'
    cases hq'
    rfl

theorem Opens.same (h : Opens r r') (hw : ¬ r.Waits) : r'.server = r.server := h.server.resolve_left hw

theorem not_waits (h₁ : r.server ≠ .msgget) (h₂ : ∀ msgid, r.server ≠ .msgrcv msgid) : ¬ r.Waits := by
  rintro (hs | ⟨msgid, mbs, hs, -⟩)
  · exact h₁ hs
  · exact h₂ msgid hs

theorem Pending.opens {mb : Msg ι} (hp : Pending r mb) (h : Opens r r') : Pending r' mb := by
  cases hp with
  | queued msgid hw hq => exact .queued msgid (h.waits hw) (h.some hq)
  | taken msgid hs hq =>
    have hw : ¬ r.Waits := not_waits (by rw [hs]; nofun) (by rw [hs]; nofun)
    exact .taken msgid (by rw [h.same hw, hs]) (h.some hq)
  | removed hs hq =>
    have hw : ¬ r.Waits := not_waits (by rw [hs]; nofun) (by rw [hs]; nofun)
    exact .removed (by rw [h.same hw, hs]) (h.quiet hq)

theorem Answering.opens (ha : Answering r i) (h : Opens r r') : Answering r' i := by
  have hserver : r'.server = r.server := by
    refine h.same ?_
    cases ha with
    | select pid row hs _ _ => exact not_waits (by rw [hs]; nofun) (by rw [hs]; nofun)
    | kill pid row hs _ => exact not_waits (by rw [hs]; nofun) (by rw [hs]; nofun)
    | store row hs _ => exact not_waits (by rw [hs]; nofun) (by rw [hs]; nofun)
    | semop hs _ => exact not_waits (by rw [hs]; nofun) (by rw [hs]; nofun)
  cases ha with
  | select pid row hs hrow hi => exact .select pid row (by rw [hserver, hs]) (by rw [h.table, hrow]) (by rwa [h.author])
  | kill pid row hs hi => exact .kill pid row (by rw [hserver, hs]) (by rwa [h.author])
  | store row hs hi => exact .store row (by rw [hserver, hs]) (by rwa [h.author])
  | semop hs hi => exact .semop (by rw [hserver, hs]) (by rwa [h.shm, h.author])

theorem Phase.opens {o : Option ι} (hp : Phase stu r o) (h : Opens r r')
    (hclient : ∀ i, o = some i → r'.client i = r.client i) : Phase stu r' o := by
  cases hp with
  | idle hw hq hsem => exact .idle (h.waits hw) (h.quiet hq) (by rw [h.sem, hsem])
  | pending i hi hp hsem => exact .pending i (by rw [hclient i rfl, hi]) (hp.opens h) (by rw [h.sem, hsem])
  | answering i hi ha hq hsem =>
    exact .answering i (by rw [hclient i rfl, hi]) (ha.opens h) (h.quiet hq) (by rw [h.sem, hsem])
  | posted i hi hw hq hsem hx =>
    exact .posted i (by rw [hclient i rfl, hi]) (h.waits hw) (h.quiet hq) (by rw [h.sem, hsem])
      (by rwa [h.shm, h.author])
  | left i hi hw hq hsem hx =>
    exact .left i (by rw [hclient i rfl, hi]) (h.waits hw) (h.quiet hq) (by rw [h.sem, hsem])
      (by rwa [h.shm, h.author])

/-! ## A step of `register_action` -/

/-- The steps of `register_action` before it answers a message. -/
def Registry.owed (r : Registry ι) : Nat :=
  match r.server with
  | .msgget => 4
  | .msgrcv _ => 3
  | .msgctl _ _ => 2
  | .insert _ => 1
  | _ => 0

/-- A thread that waits opens the queue, or takes a message. -/
theorem waits_step (hw : r.Waits) (hstep : r.registerAction = some r') :
    (r.server = .msgget ∧ r' = { r.msgget.2 with server := .msgrcv r.msgget.1 }) ∨
      ∃ msgid mb mbs, r.server = .msgrcv msgid ∧ r.queue = some (msgid, mb :: mbs) ∧
        r' = { r with queue := some (msgid, mbs), server := .msgctl msgid mb } := by
  rcases hw with hs | ⟨msgid, mbs, hs, hq⟩
  · refine Or.inl ⟨hs, ?_⟩
    simp only [Registry.registerAction, hs, Option.some.injEq] at hstep
    exact hstep.symm
  · refine Or.inr ?_
    cases mbs with
    | nil =>
      simp only [Registry.registerAction, hs, hq] at hstep
      cases hstep
    | cons mb mbs =>
      simp only [Registry.registerAction, hs, hq, if_true, Option.some.injEq] at hstep
      exact ⟨msgid, mb, mbs, hs, hq, hstep.symm⟩

/-- **A message is one step nearer to the table**, or there. -/
theorem Pending.step {mb : Msg ι} (hp : Pending r mb) (hstep : r.registerAction = some r') :
    r'.Inserted mb.author ∨ (Pending r' mb ∧ r'.owed + 1 ≤ r.owed) := by
  cases hp with
  | queued msgid hw hq =>
    refine Or.inr ?_
    rcases waits_step hw hstep with ⟨hs, rfl⟩ | ⟨msgid', mb', mbs, hs, hq', rfl⟩
    · refine ⟨(Pending.queued msgid hw hq).opens (thread_opens hs), ?_⟩
      simp [Registry.owed, hs]
    · rw [hq] at hq'
      cases hq'
      exact ⟨.taken msgid rfl rfl, by simp [Registry.owed, hs]⟩
  | taken msgid hs hq =>
    simp only [Registry.registerAction, hs, Option.some.injEq] at hstep
    subst hstep
    exact Or.inr ⟨.removed rfl (fun _ _ h => nomatch h), by simp [Registry.owed, hs]⟩
  | removed hs hq =>
    simp only [Registry.registerAction, hs, Option.some.injEq] at hstep
    subst hstep
    exact Or.inl ⟨r.table.nextId, List.mem_cons_self⟩

/-- A pending message does not keep `register_action` waiting. -/
theorem Pending.isSome {mb : Msg ι} (hp : Pending r mb) : r.registerAction.isSome := by
  cases hp with
  | queued msgid hw hq =>
    rcases hw with hs | ⟨msgid', mbs, hs, hq'⟩
    · simp [Registry.registerAction, hs]
    · rw [hq] at hq'
      cases hq'
      simp [Registry.registerAction, hs, hq]
  | taken msgid hs hq => simp [Registry.registerAction, hs]
  | removed hs hq => simp [Registry.registerAction, hs]

/-- Nor does a row whose id is still to be posted. -/
theorem Answering.isSome (ha : Answering r i) : r.registerAction.isSome := by
  cases ha with
  | select pid row hs hrow _ => simp [Registry.registerAction, hs, hrow]
  | kill pid row hs _ => simp [Registry.registerAction, hs]
  | store row hs _ => simp [Registry.registerAction, hs]
  | semop hs _ => simp [Registry.registerAction, hs]

theorem quiet_step (hw : r.Waits) (hq : r.Quiet) (hstep : r.registerAction = some r') :
    Opens r r' ∧ r'.client = r.client := by
  rcases waits_step hw hstep with ⟨hs, rfl⟩ | ⟨msgid, mb, mbs, -, hq', -⟩
  · refine ⟨thread_opens hs, ?_⟩
    unfold Registry.msgget
    split <;> rfl
  · cases hq _ _ hq'

/-- **A step of `register_action`** leaves the registration that is under way the same. -/
theorem Phase.step {o : Option ι} (hp : Phase stu r o) (hstep : r.registerAction = some r') : Phase stu r' o := by
  cases hp with
  | idle hw hq hsem =>
    obtain ⟨hopens, hclient⟩ := quiet_step hw hq hstep
    exact (Phase.idle hw hq hsem).opens hopens (fun _ _ => by rw [hclient])
  | pending i hi hp hsem =>
    cases hp with
    | queued msgid hw hq =>
      rcases waits_step hw hstep with ⟨hs, rfl⟩ | ⟨msgid', mb, mbs, hs, hq', rfl⟩
      · refine (Phase.pending i hi (.queued msgid hw hq) hsem).opens (thread_opens hs) (fun _ _ => ?_)
        unfold Registry.msgget
        split <;> rfl
      · rw [hq] at hq'
        cases hq'
        exact .pending i hi (.taken msgid rfl rfl) hsem
    | taken msgid hs hq =>
      simp only [Registry.registerAction, hs, Option.some.injEq] at hstep
      subst hstep
      exact .pending i hi (.removed rfl (fun _ _ h => nomatch h)) hsem
    | removed hs hq =>
      simp only [Registry.registerAction, hs, Option.some.injEq] at hstep
      subst hstep
      exact .answering i hi (.select _ _ rfl (Table.maxRow_insert ..) List.mem_cons_self) hq hsem
  | answering i hi ha hq hsem =>
    cases ha with
    | select pid row hs hrow hx =>
      simp only [Registry.registerAction, hs, hrow, Option.some.injEq] at hstep
      subst hstep
      exact .answering i hi (.kill pid row rfl hx) hq hsem
    | kill pid row hs hx =>
      simp only [Registry.registerAction, hs, Option.some.injEq] at hstep
      subst hstep
      exact .answering i hi (.store row rfl hx) hq hsem
    | store row hs hx =>
      simp only [Registry.registerAction, hs, Option.some.injEq] at hstep
      subst hstep
      exact .answering i hi (.semop rfl hx) hq hsem
    | semop hs hx =>
      simp only [Registry.registerAction, hs, Option.some.injEq] at hstep
      subst hstep
      exact .posted i hi (Or.inl rfl) hq (by rw [hsem]) hx
  | posted i hi hw hq hsem hx =>
    obtain ⟨hopens, hclient⟩ := quiet_step hw hq hstep
    exact (Phase.posted i hi hw hq hsem hx).opens hopens (fun _ _ => by rw [hclient])
  | left i hi hw hq hsem hx =>
    obtain ⟨hopens, hclient⟩ := quiet_step hw hq hstep
    exact (Phase.left i hi hw hq hsem hx).opens hopens (fun _ _ => by rw [hclient])

/-- What the thread leaves alone, and what it does to the table. -/
theorem registerAction_rows (hstep : r.registerAction = some r') :
    r'.client = r.client ∧ r'.queued = r.queued ∧
      ((r'.table = r.table ∧ r'.author = r.author) ∨
        ∃ mb, r.server = .insert mb ∧ r'.table = r.table.insert mb.stu.name mb.stu.password ∧
          r'.author = (r.table.nextId, mb.author) :: r.author) := by
  have hget : r.msgget.2.client = r.client ∧ r.msgget.2.queued = r.queued ∧ r.msgget.2.table = r.table ∧
      r.msgget.2.author = r.author := by
    unfold Registry.msgget
    split <;> exact ⟨rfl, rfl, rfl, rfl⟩
  unfold Registry.registerAction at hstep
  split at hstep
  · cases hstep
    exact ⟨hget.1, hget.2.1, Or.inl hget.2.2⟩
  · split at hstep
    · split at hstep
      · cases hstep
        exact ⟨rfl, rfl, Or.inl ⟨rfl, rfl⟩⟩
      · cases hstep
    · cases hstep
  · cases hstep
    exact ⟨rfl, rfl, Or.inl ⟨rfl, rfl⟩⟩
  · rename_i mb hs
    cases hstep
    exact ⟨rfl, rfl, Or.inr ⟨mb, hs, rfl, rfl⟩⟩
  · split at hstep
    · cases hstep
    · cases hstep
      exact ⟨rfl, rfl, Or.inl ⟨rfl, rfl⟩⟩
  · cases hstep
    exact ⟨rfl, rfl, Or.inl ⟨rfl, rfl⟩⟩
  · cases hstep
    exact ⟨rfl, rfl, Or.inl ⟨rfl, rfl⟩⟩
  · cases hstep
    exact ⟨rfl, rfl, Or.inl ⟨rfl, rfl⟩⟩

theorem registerAction_grows (hstep : r.registerAction = some r') :
    r.table.rows <+: r'.table.rows ∧ ∀ a, a ∈ r.author → a ∈ r'.author := by
  obtain ⟨-, -, ⟨htable, hauthor⟩ | ⟨mb, -, htable, hauthor⟩⟩ := registerAction_rows hstep
  · rw [htable, hauthor]
    exact ⟨List.prefix_refl _, fun _ ha => ha⟩
  · rw [htable, hauthor]
    exact ⟨Table.rows_insert .., fun _ ha => List.mem_cons_of_mem _ ha⟩

/-- Only the message that is under way is inserted. -/
theorem Phase.insert {o : Option ι} {mb : Msg ι} (hp : Phase stu r o) (hs : r.server = .insert mb) :
    mb.stu = stu mb.author := by
  have hnot : ∀ {r : Registry ι}, r.Waits → r.server ≠ .insert mb := by
    rintro r (hs | ⟨msgid, mbs, hs, -⟩) <;> rw [hs] <;> nofun
  cases hp with
  | idle hw hq hsem => exact absurd hs (hnot hw)
  | pending i hi hp hsem =>
    cases hp with
    | queued msgid hw hq => exact absurd hs (hnot hw)
    | taken msgid hs' hq =>
      rw [hs] at hs'
      cases hs'
    | removed hs' hq =>
      rw [hs] at hs'
      cases hs'
      rfl
  | answering i hi ha hq hsem =>
    cases ha with
    | select pid row hs' _ _ =>
      rw [hs] at hs'
      cases hs'
    | kill pid row hs' _ =>
      rw [hs] at hs'
      cases hs'
    | store row hs' _ =>
      rw [hs] at hs'
      cases hs'
    | semop hs' _ =>
      rw [hs] at hs'
      cases hs'
  | posted i hi hw hq hsem hx => exact absurd hs (hnot hw)
  | left i hi hw hq hsem hx => exact absurd hs (hnot hw)

theorem Registrations.registerAction (h : Registrations stu r) (hstep : r.registerAction = some r') :
    Registrations stu r' := by
  obtain ⟨o, hp, hbusy⟩ := h.phase
  obtain ⟨hclient, hqueued, hrows⟩ := registerAction_rows hstep
  have hgrows := registerAction_grows hstep
  refine ⟨⟨o, hp.step hstep, fun j hj => hbusy j (by rwa [Registry.Busy, hclient] at hj)⟩, ?_, ?_, ?_⟩
  · intro x i hx
    rcases hrows with ⟨htable, hauthor⟩ | ⟨mb, hs, htable, hauthor⟩
    · rw [htable]
      exact h.rows x i (hauthor ▸ hx)
    · rw [hauthor] at hx
      rcases List.mem_cons.1 hx with heq | hx
      · cases heq
        rw [htable, ← hp.insert hs]
        exact List.mem_append_right _ List.mem_cons_self
      · exact hgrows.1.subset (h.rows x i hx)
  · intro i x hi
    exact hgrows.2 _ (h.printed i x (hclient ▸ hi))
  · intro i hi
    rw [hqueued] at hi
    rcases h.queued i hi with ⟨x, hx⟩ | hp
    · exact Or.inl ⟨x, hgrows.2 _ hx⟩
    · exact (hp.step hstep).imp_right And.left

/-! ## A step of `register_fun` -/

/-- A message that is pending is in the queue, or keeps `register_action` busy. -/
theorem Pending.not_idle {mb : Msg ι} (hp : Pending r mb) (hw : r.Waits) (hq : r.Quiet) : False := by
  cases hp with
  | queued msgid _ hq' => cases hq _ _ hq'
  | taken msgid hs _ => exact not_waits (by rw [hs]; nofun) (by rw [hs]; nofun) hw
  | removed hs _ => exact not_waits (by rw [hs]; nofun) (by rw [hs]; nofun) hw

/-- With none pending, the messages queued so far have become rows. -/
theorem Registrations.inserted (h : Registrations stu r) (hw : r.Waits) (hq : r.Quiet) (hj : j ∈ r.queued) :
    r.Inserted j := (h.queued j hj).resolve_right fun hp => hp.not_idle hw hq

theorem Phase.busy (hp : Phase stu r (some i)) : r.Busy i := by
  cases hp with
  | pending _ hi _ _ => exact Or.inl hi
  | answering _ hi _ _ _ => exact Or.inl hi
  | posted _ hi _ _ _ _ => exact Or.inl hi
  | left _ hi _ _ _ _ => exact Or.inr hi

variable [DecidableEq ι]

theorem goto_self (r : Registry ι) (i : ι) (pc : RegisterFun) : (r.goto i pc).client i = pc := Function.update_self ..

theorem goto_other (r : Registry ι) (pc : RegisterFun) (hj : j ≠ i) : (r.goto i pc).client j = r.client j :=
  Function.update_of_ne hj ..

/-- Client `i` moves, and does not print. -/
theorem Registrations.moved (h : Registrations stu r) {o : Option ι} (pc : RegisterFun) (hpc : ∀ x, pc ≠ .printed x)
    (hclient : r'.client = (r.goto i pc).client) (htable : r'.table = r.table) (hauthor : r'.author = r.author)
    (hp : Phase stu r' o) (hbusy : ∀ j, r'.Busy j → o = some j)
    (hqueued : ∀ j, j ∈ r'.queued → r'.Inserted j ∨ Pending r' ⟨j, stu j⟩) : Registrations stu r' := by
  refine ⟨⟨o, hp, hbusy⟩, fun x j hx => ?_, fun j x hj => ?_, hqueued⟩
  · rw [htable]
    exact h.rows x j (hauthor ▸ hx)
  · rw [hauthor]
    rw [hclient] at hj
    rcases update_cases hj with ⟨-, he⟩ | ⟨-, hj⟩
    · exact absurd he (hpc x)
    · exact h.printed j x hj

theorem Opens.goto (h : Opens r r') (i : ι) (pc : RegisterFun) : Opens r (r'.goto i pc) :=
  ⟨h.table, h.sem, h.shm, h.author, h.queued, h.queue, h.waits, h.server⟩

theorem goto_busy {pc : RegisterFun} (hj : (r.goto i pc).Busy j) (hpc : pc ≠ .sent ∧ pc ≠ .left) :
    j ≠ i ∧ r.Busy j := by
  by_cases hji : j = i
  · rw [Registry.Busy, hji, goto_self] at hj
    exact absurd hj (not_or.2 hpc)
  · rw [Registry.Busy, goto_other r pc hji] at hj
    exact ⟨hji, hj⟩

theorem Registrations.start (h : Registrations stu r) (hi : r.client i = .start) :
    Registrations stu (r.msgget.2.goto i (.got r.msgget.1)) := by
  obtain ⟨o, hp, hbusy⟩ := h.phase
  have hopens := (msgget_opens r).goto i (.got r.msgget.1)
  have hget : r.msgget.2.client = r.client := by
    unfold Registry.msgget
    split <;> rfl
  have hclient : (r.msgget.2.goto i (.got r.msgget.1)).client = (r.goto i (.got r.msgget.1)).client := by
    unfold Registry.goto
    rw [hget]
  refine h.moved (.got r.msgget.1) (fun _ => nofun) hclient hopens.table hopens.author
    (hp.opens hopens fun j hj => ?_) ?_ ?_
  · -- the client that is under way is another one
    have hne : j ≠ i := by
      rintro rfl
      have hb := (hj ▸ hp).busy
      rw [Registry.Busy, hi] at hb
      simp at hb
    rw [hclient, goto_other r _ hne]
  · intro j hj
    have hj' : (r.goto i (.got r.msgget.1)).Busy j := by rwa [Registry.Busy, hclient] at hj
    exact hbusy j (goto_busy hj' ⟨nofun, nofun⟩).2
  · intro j hj
    rw [hopens.queued] at hj
    rcases h.queued j hj with ⟨x, hx⟩ | hpend
    · exact Or.inl ⟨x, by rwa [hopens.author]⟩
    · exact Or.inr (hpend.opens hopens)

theorem Registrations.msgsnd (h : Registrations stu r) {msgid : Nat} (hi : r.client i = .got msgid) (hfree : r.Free i) :
    Registrations stu ((r.msgsnd msgid ⟨i, stu i⟩).goto i .sent) := by
  obtain ⟨o, hp, hbusy⟩ := h.phase
  obtain ⟨⟨mbs, hq⟩, hfree⟩ := hfree msgid hi
  have hsnd : r.msgsnd msgid ⟨i, stu i⟩ =
      { r with queue := some (msgid, mbs ++ [⟨i, stu i⟩]), queued := i :: r.queued } := by
    rw [Registry.msgsnd, hq]
    simp
  rw [hsnd]
  cases hp with
  | idle hw hquiet hsem =>
    obtain rfl := hquiet msgid mbs hq
    set r' : Registry ι := { r with queue := some (msgid, [] ++ [⟨i, stu i⟩]), queued := i :: r.queued } with hr'
    have hwaits : (r'.goto i .sent).Waits := by
      rcases hw with hs | ⟨msgid', mbs', hs, hq'⟩
      · exact Or.inl hs
      · rw [hq] at hq'
        cases hq'
        exact Or.inr ⟨msgid, [⟨i, stu i⟩], hs, rfl⟩
    have hpend : Pending (r'.goto i .sent) ⟨i, stu i⟩ := .queued msgid hwaits rfl
    refine h.moved .sent (fun _ => nofun) rfl rfl rfl (.pending i (goto_self ..) hpend hsem) ?_ ?_
    · intro j hj
      by_cases hji : j = i
      · rw [hji]
      · rw [Registry.Busy, goto_other r' _ hji] at hj
        exact absurd hj (hfree j)
    · intro j hj
      rcases List.mem_cons.1 hj with rfl | hj
      · exact Or.inr hpend
      · exact Or.inl (h.inserted hw hquiet hj)
  | pending j hj hp hsem => exact absurd (Or.inl hj) (hfree j)
  | answering j hj ha hq hsem => exact absurd (Or.inl hj) (hfree j)
  | posted j hj hw hq hsem hx => exact absurd (Or.inl hj) (hfree j)
  | left j hj hw hq hsem hx => exact absurd (Or.inr hj) (hfree j)

theorem Registrations.leave (h : Registrations stu r) (hi : r.client i = .sent) (hsem : r.sem ≠ 0) :
    Registrations stu ({ r with sem := r.sem - 1 }.goto i .left) := by
  obtain ⟨o, hp, hbusy⟩ := h.phase
  obtain rfl := hbusy i (Or.inl hi)
  cases hp with
  | pending _ _ _ hzero => exact absurd hzero hsem
  | answering _ _ _ _ hzero => exact absurd hzero hsem
  | left _ _ _ _ hzero _ => exact absurd hzero hsem
  | posted _ _ hw hq hone hx =>
    refine h.moved .left (fun _ => nofun) rfl rfl rfl
      (.left i (goto_self ..) hw hq (by show r.sem - 1 = 0; omega) hx) ?_ ?_
    · intro j hj
      by_cases hji : j = i
      · rw [hji]
      · rw [Registry.Busy, goto_other _ _ hji] at hj
        exact hbusy j hj
    · intro j hj
      exact Or.inl (h.inserted hw hq hj)

theorem Registrations.print (h : Registrations stu r) (hi : r.client i = .left) :
    Registrations stu (r.goto i (.printed r.shm)) := by
  obtain ⟨o, hp, hbusy⟩ := h.phase
  obtain rfl := hbusy i (Or.inr hi)
  have hnot : r.client i ≠ .sent := by rw [hi]; nofun
  cases hp with
  | pending _ hsent _ _ => exact absurd hsent hnot
  | answering _ hsent _ _ _ => exact absurd hsent hnot
  | posted _ hsent _ _ _ _ => exact absurd hsent hnot
  | left _ _ hw hq hsem hx =>
    refine ⟨⟨none, .idle hw hq hsem, fun j hj => ?_⟩, h.rows, fun j x hj => ?_, fun j hj => ?_⟩
    · obtain ⟨hne, hj⟩ := goto_busy hj ⟨nofun, nofun⟩
      exact absurd (Option.some.inj (hbusy j hj)).symm hne
    · rcases update_cases hj with ⟨rfl, he⟩ | ⟨-, hj⟩
      · cases he
        exact hx
      · exact h.printed j x hj
    · exact Or.inl (h.inserted hw hq hj)

/-- **A step of `register_fun`**, by a client that is free to take it. -/
theorem Registrations.registerFun (h : Registrations stu r) (hfree : r.Free i) (hstep : r.registerFun stu i = some r') :
    Registrations stu r' := by
  unfold Registry.registerFun at hstep
  split at hstep
  · cases hstep
    exact h.start ‹_›
  · cases hstep
    exact h.msgsnd ‹_› hfree
  · split at hstep
    · cases hstep
    · cases hstep
      exact h.leave ‹_› ‹_›
  · cases hstep
    exact h.print ‹_›
  · cases hstep

theorem registerFun_keeps (hstep : r.registerFun stu i = some r') :
    r'.server = r.server ∧ r'.table = r.table ∧ r'.author = r.author ∧ ∀ j, j ∈ r.queued → j ∈ r'.queued := by
  unfold Registry.registerFun at hstep
  split at hstep
  · cases hstep
    unfold Registry.msgget
    split <;> exact ⟨rfl, rfl, rfl, fun _ hj => hj⟩
  · cases hstep
    unfold Registry.msgsnd
    split
    · split
      · exact ⟨rfl, rfl, rfl, fun _ hj => List.mem_cons_of_mem _ hj⟩
      · exact ⟨rfl, rfl, rfl, fun _ hj => hj⟩
    · exact ⟨rfl, rfl, rfl, fun _ hj => hj⟩
  · split at hstep
    · cases hstep
    · cases hstep
      exact ⟨rfl, rfl, rfl, fun _ hj => hj⟩
  · cases hstep
    exact ⟨rfl, rfl, rfl, fun _ hj => hj⟩
  · cases hstep

/-! ## Logins -/

/-- What `main` makes of the request of client `k`, from the table as it is now or was. -/
def Replies (req : κ → Stu) (t : Table) (k : κ) (mb : Msg κ) : Prop :=
  mb.author = k ∧ ∃ t' : Table, t'.rows <+: t.rows ∧ mb.stu = t'.login (req k)

/-- The login that is under way, and where its request or its reply is. -/
inductive Talk (req : κ → Stu) (t : Table) (c : Counter κ) : Option κ → Prop where
  | idle (hs : c.server = .read) (hf : c.fifo = []) (hr : c.replies = []) : Talk req t c none
  | asked (k : κ) (hk : c.client k = .requested) (hs : c.server = .read) (hf : c.fifo = [⟨k, req k⟩])
      (hr : c.replies = []) : Talk req t c (some k)
  | select (k : κ) (hk : c.client k = .requested) (hs : c.server = .select ⟨k, req k⟩) (hf : c.fifo = [])
      (hr : c.replies = []) : Talk req t c (some k)
  | msgsnd (k : κ) (mb : Msg κ) (hk : c.client k = .requested) (hs : c.server = .msgsnd mb) (hf : c.fifo = [])
      (hr : c.replies = []) (hmb : Replies req t k mb) : Talk req t c (some k)
  | replied (k : κ) (mb : Msg κ) (hk : c.client k = .requested) (hs : c.server = .read) (hf : c.fifo = [])
      (hr : c.replies = [mb]) (hmb : Replies req t k mb) : Talk req t c (some k)

/-- What holds of the logins. -/
structure Logins (req : κ → Stu) (t : Table) (c : Counter κ) : Prop where
  talk : ∃ o, Talk req t c o ∧ ∀ k, c.client k = .requested → o = some k
  received : ∀ k mb, c.client k = .received mb → Replies req t k mb

/-- Rows are only added. -/
theorem Replies.grow {mb : Msg κ} (h : Replies req t k mb) (ht : t.rows <+: t'.rows) : Replies req t' k mb := by
  obtain ⟨hk, t₀, h₀, hmb⟩ := h
  exact ⟨hk, t₀, h₀.trans ht, hmb⟩

theorem Logins.grow (h : Logins req t c) (ht : t.rows <+: t'.rows) : Logins req t' c := by
  obtain ⟨⟨o, htalk, hreq⟩, hrec⟩ := h
  refine ⟨⟨o, ?_, hreq⟩, fun k mb hk => (hrec k mb hk).grow ht⟩
  cases htalk with
  | idle hs hf hr => exact .idle hs hf hr
  | asked k hk hs hf hr => exact .asked k hk hs hf hr
  | select k hk hs hf hr => exact .select k hk hs hf hr
  | msgsnd k mb hk hs hf hr hmb => exact .msgsnd k mb hk hs hf hr (hmb.grow ht)
  | replied k mb hk hs hf hr hmb => exact .replied k mb hk hs hf hr (hmb.grow ht)

/-- **A step of `main`.** -/
theorem Logins.main (h : Logins req t c) (hstep : c.main t = some c') : Logins req t c' := by
  obtain ⟨⟨o, htalk, hreq⟩, hrec⟩ := h
  cases htalk with
  | idle hs hf hr =>
    simp only [Counter.main, hs, hf] at hstep
    cases hstep
  | asked k hk hs hf hr =>
    simp only [Counter.main, hs, hf, Option.some.injEq] at hstep
    subst hstep
    exact ⟨⟨_, .select k hk rfl rfl hr, hreq⟩, hrec⟩
  | select k hk hs hf hr =>
    simp only [Counter.main, hs, Option.some.injEq] at hstep
    subst hstep
    exact ⟨⟨_, .msgsnd k _ hk rfl hf hr ⟨rfl, t, List.prefix_refl _, rfl⟩, hreq⟩, hrec⟩
  | msgsnd k mb hk hs hf hr hmb =>
    simp only [Counter.main, hs, Option.some.injEq] at hstep
    subst hstep
    exact ⟨⟨_, .replied k mb hk rfl hf (by rw [hr]; rfl) hmb, hreq⟩, hrec⟩
  | replied k mb hk hs hf hr hmb =>
    simp only [Counter.main, hs, hf] at hstep
    cases hstep

theorem Talk.requested (h : Talk req t c (some k)) : c.client k = .requested := by
  cases h with
  | asked _ hk _ _ _ => exact hk
  | select _ hk _ _ _ => exact hk
  | msgsnd _ _ hk _ _ _ _ => exact hk
  | replied _ _ hk _ _ _ _ => exact hk

/-- **A step of `login_fun`**, by a client that is free to take it. -/
theorem Logins.loginFun [DecidableEq κ] (h : Logins req t c) (hfree : c.Free k)
    (hstep : c.loginFun req k = some c') : Logins req t c' := by
  obtain ⟨⟨o, htalk, hreq⟩, hrec⟩ := h
  unfold Counter.loginFun at hstep
  split at hstep
  · rename_i hk
    cases hstep
    have hnone : o = none := by
      cases o with
      | none => rfl
      | some l => exact absurd htalk.requested (hfree hk l)
    subst hnone
    cases htalk with
    | idle hs hf hr =>
      refine ⟨⟨some k, .asked k (Function.update_self ..) hs (by rw [hf]; rfl) hr, fun l hl => ?_⟩, fun l mb hl => ?_⟩
      · rcases update_cases hl with ⟨hlk, -⟩ | ⟨-, hl⟩
        · rw [hlk]
        · exact absurd hl (hfree hk l)
      · rcases update_cases hl with ⟨-, hpc⟩ | ⟨-, hl⟩
        · cases hpc
        · exact hrec l mb hl
  · rename_i hk
    obtain rfl := hreq k hk
    split at hstep
    · cases hstep
    · rename_i mb mbs hmbs
      cases hstep
      cases htalk with
      | asked _ _ _ _ hr =>
        rw [hr] at hmbs
        cases hmbs
      | select _ _ _ _ hr =>
        rw [hr] at hmbs
        cases hmbs
      | msgsnd _ _ _ _ _ hr _ =>
        rw [hr] at hmbs
        cases hmbs
      | replied _ mb' _ hs hf hr hmb =>
        rw [hr] at hmbs
        cases hmbs
        refine ⟨⟨none, .idle hs hf rfl, fun l hl => ?_⟩, fun l mb'' hl => ?_⟩
        · rcases update_cases hl with ⟨-, hpc⟩ | ⟨hlk, hl⟩
          · cases hpc
          · exact absurd (Option.some.inj (hreq l hl)).symm hlk
        · rcases update_cases hl with ⟨rfl, hpc⟩ | ⟨-, hl⟩
          · cases hpc
            exact hmb
          · exact hrec l mb'' hl
  · cases hstep

/-! ## The service -/

/-- What holds of both halves. -/
structure Inv (stu : ι → Stu) (req : κ → Stu) (s : State ι κ) : Prop where
  registrations : Registrations stu s.registry
  logins : Logins req s.registry.table s.counter

section Service

variable [DecidableEq κ] {s s' : State ι κ} {a : Act ι κ} {tr : List (State ι κ × Act ι κ)}

theorem Inv.step (h : Inv stu req s) (hone : OneAtATime s a) (hstep : s.step stu req a = some s') : Inv stu req s' := by
  cases a with
  | registerFun i =>
    obtain ⟨r', hr, rfl⟩ := Option.map_eq_some_iff.1 hstep
    refine ⟨h.registrations.registerFun hone hr, ?_⟩
    rw [show r'.table = s.registry.table from (registerFun_keeps hr).2.1]
    exact h.logins
  | registerAction =>
    obtain ⟨r', hr, rfl⟩ := Option.map_eq_some_iff.1 hstep
    exact ⟨h.registrations.registerAction hr, h.logins.grow (registerAction_grows hr).1⟩
  | loginFun k =>
    obtain ⟨c', hc, rfl⟩ := Option.map_eq_some_iff.1 hstep
    exact ⟨h.registrations, h.logins.loginFun hone hc⟩
  | main =>
    obtain ⟨c', hc, rfl⟩ := Option.map_eq_some_iff.1 hstep
    exact ⟨h.registrations, h.logins.main hc⟩

end Service

/-! ## Examples -/

section Example

instance (r : Registry ι) (i : ι) : Decidable (r.Busy i) := inferInstanceAs (Decidable (_ ∨ _))

instance [Fintype ι] (r : Registry ι) (i : ι) : Decidable (r.Free i) :=
  match h : r.client i with
  | .got msgid =>
    have : Decidable (∃ mbs, r.queue = some (msgid, mbs)) :=
      decidable_of_iff (r.queue.map Prod.fst = some msgid) (by simp [Option.map_eq_some_iff])
    decidable_of_iff ((∃ mbs, r.queue = some (msgid, mbs)) ∧ ∀ j, ¬ r.Busy j)
      ⟨fun hA m hm => by cases h.symm.trans hm; exact hA, fun hf => hf msgid h⟩
  | .start => .isTrue fun m hm => by cases h.symm.trans hm
  | .sent => .isTrue fun m hm => by cases h.symm.trans hm
  | .left => .isTrue fun m hm => by cases h.symm.trans hm
  | .printed x => .isTrue fun m hm => by cases h.symm.trans hm

instance [Fintype κ] [DecidableEq κ] (c : Counter κ) (k : κ) : Decidable (c.Free k) :=
  inferInstanceAs (Decidable (_ → ∀ l, c.client l ≠ .requested))

instance [Fintype ι] [Fintype κ] [DecidableEq κ] (s : State ι κ) : ∀ a, Decidable (OneAtATime s a)
  | .registerFun i => inferInstanceAs (Decidable (s.registry.Free i))
  | .loginFun k => inferInstanceAs (Decidable (s.counter.Free k))
  | .registerAction => .isTrue trivial
  | .main => .isTrue trivial

variable [DecidableEq κ] {s : State ι κ} {tr : List (State ι κ × Act ι κ)}

/-- A step, where there is one. -/
def State.act (stu : ι → Stu) (req : κ → Stu) (s : State ι κ) (a : Act ι κ) : State ι κ := (s.step stu req a).getD s

/-- `ann`, with process id 70. -/
def ann : Stu := ⟨70, [97, 110, 110], [112]⟩

/-- `bob`, with process id 71. -/
def bob : Stu := ⟨71, [98, 111, 98], [113]⟩

/-- `ann` and `bob`. -/
def both (b : Bool) : Stu := bif b then ann else bob

/-- What they type in to log in: the id they are given. -/
def requests (b : Bool) : Stu := bif b then ⟨1, [], [112]⟩ else ⟨2, [], [113]⟩

/-- A registration of one client, handled to its end. -/
def registering (b : Bool) : List (Act Bool Bool) :=
  [.registerFun b, .registerFun b] ++ List.replicate 8 .registerAction ++ [.registerFun b, .registerFun b]

/-- `ann` registers, then `bob` does; she logs in when he is registered, and he after her. -/
def inTurn : List (Act Bool Bool) :=
  registering true ++ registering false ++
    [.loginFun true, .main, .main, .main, .loginFun true, .loginFun false, .main, .main, .main, .loginFun false]

/-- `bob` sends his message when `register_action` has taken that of `ann`, and is at the semaphore
before her. -/
def twoClients : List (Act Bool Empty) :=
  [.registerFun true, .registerFun false, .registerFun true, .registerAction, .registerAction, .registerFun false,
    .registerAction, .registerAction, .registerAction, .registerAction, .registerAction, .registerAction,
    .registerFun false, .registerFun false]

end Example

end UnixNote.Ipc
