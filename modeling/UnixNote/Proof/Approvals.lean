import UnixNote.Chat.Approval

/-!
# Whose answer a verdict is

`own_answer`: a verdict 1 is the answer of the user to this very request, as long as no helper ends
with an id unread and no `read` that returns 0 finds an approval in `result`. Without the first the
next helper shows the id of an abandoned request (`own_answer_breaks`).
-/

namespace UnixNote.Approval

variable {s s' : Desk} {a : Act} {tr : List (Desk × Act)} {src dst : Int} {c : UInt8}

/-- No helper ends while an id is unread, and a `read` that returns 0 does not leave an approval. -/
def Attended (s : Desk) : Act → Prop
  | .helperEnd => s.fifoId = []
  | .clientRead stack => s.fifoResult = [] → yes stack = false
  | _ => True

/-- The user saw the id of the requester and agreed. -/
def Answer.Own (x : Answer) : Prop := x.helper.shown = some x.src ∧ ∃ c, x.helper.wrote = some c ∧ yes c = true

/-! ## The invariant -/

/-- Between requests nothing is unread. -/
def Idle (s : Desk) : Prop := s.fifoId = [] ∧ s.fifoResult = [] ∧ (s.helper.pc = .answered ∨ s.helper.pc = .ended)

/-- Before the client has written the id, the helper has nothing to show. -/
def Fresh (s : Desk) : Prop := s.fifoId = [] ∧ s.fifoResult = [] ∧ s.helper.pc ≠ .asking ∧ s.helper.pc ≠ .answered

/-- What is unread in `./fifo_result` is the answer of a user who saw `src`. -/
def Returned (src : Int) (s : Desk) : Prop :=
  s.fifoResult = [] ∨ ∃ c, s.fifoResult = [c] ∧ s.helper.shown = some src ∧ s.helper.wrote = some c

/-- While the client waits for the answer, either its id is unread, or the helper has read it. -/
def Served (src : Int) (s : Desk) : Prop :=
  match s.helper.pc with
  | .openId => False
  | .openResult => s.fifoId = CInt.store src ∧ s.fifoResult = []
  | .reading => s.fifoId = CInt.store src ∧ s.fifoResult = []
  | .asking => s.fifoId = [] ∧ s.fifoResult = [] ∧ s.helper.shown = some src
  | .answered => s.fifoId = [] ∧ Returned src s
  | .ended => s.fifoId = [] ∧ Returned src s

/-- The client and the helper are at matching places. -/
def Phase (s : Desk) : Prop :=
  match s.client with
  | .waiting => Idle s
  | .openId src _ => CInt.InRange src ∧ Fresh s
  | .openResult src _ => CInt.InRange src ∧ Fresh s
  | .writing src _ => CInt.InRange src ∧ Fresh s ∧ s.helper.pc ≠ .openId
  | .reading src _ => CInt.InRange src ∧ Served src s
  | .killed => True

/-- The invariant of attended runs. -/
structure Inv (s : Desk) : Prop where
  phase : Phase s
  own : ∀ x ∈ s.sent, x.verdict = 1 → x.Own

/-- A step of the helper. -/
theorem Phase.move (hp : Phase s) (hc : s'.client = s.client) (hidle : Idle s → Idle s') (hfresh : Fresh s → Fresh s')
    (hopen : s.helper.pc ≠ .openId → s'.helper.pc ≠ .openId)
    (hserved : ∀ src, CInt.InRange src → Served src s → Served src s') : Phase s' := by
  unfold Phase at hp ⊢
  rw [hc]
  cases hcl : s.client with
  | waiting =>
    rw [hcl] at hp
    exact hidle hp
  | openId src dst =>
    rw [hcl] at hp
    exact ⟨hp.1, hfresh hp.2⟩
  | openResult src dst =>
    rw [hcl] at hp
    exact ⟨hp.1, hfresh hp.2⟩
  | writing src dst =>
    rw [hcl] at hp
    exact ⟨hp.1, hfresh hp.2.1, hopen hp.2.2⟩
  | reading src dst =>
    rw [hcl] at hp
    exact ⟨hp.1, hserved src hp.1 hp.2⟩
  | killed => trivial

/-- Nothing is unread when the helper has ended. -/
theorem Phase.ended (hp : Phase s) (hc : s.client = .reading src dst) (hw : s.writer = false) :
    s.helper.pc = .ended ∧ s.fifoId = [] := by
  unfold Phase at hp
  rw [hc] at hp
  obtain ⟨-, hserved⟩ := hp
  have hpc : s.helper.pc = .openId ∨ s.helper.pc = .ended := by
    simp [Desk.writer] at hw
    by_cases h : s.helper.pc = .openId
    · exact Or.inl h
    · exact Or.inr (hw h)
  unfold Served at hserved
  rcases hpc with hpc | hpc
  · rw [hpc] at hserved
    exact hserved.elim
  · rw [hpc] at hserved
    exact ⟨hpc, hserved.1⟩

/-- An answer is that of a user who saw `src`. -/
theorem Phase.returned {result : UInt8} {rest : List UInt8} (hp : Phase s) (hc : s.client = .reading src dst)
    (hr : s.fifoResult = result :: rest) :
    rest = [] ∧ s.fifoId = [] ∧ s.helper.shown = some src ∧ s.helper.wrote = some result ∧
      (s.helper.pc = .answered ∨ s.helper.pc = .ended) := by
  unfold Phase at hp
  rw [hc] at hp
  obtain ⟨-, hserved⟩ := hp
  have hret : Returned src s → rest = [] ∧ s.helper.shown = some src ∧ s.helper.wrote = some result := by
    rintro (hnil | ⟨c, hc, hshown, hwrote⟩)
    · rw [hnil] at hr
      cases hr
    · rw [hc] at hr
      cases hr
      exact ⟨rfl, hshown, hwrote⟩
  unfold Served at hserved
  split at hserved
  · exact hserved.elim
  · rw [hserved.2] at hr
    cases hr
  · rw [hserved.2] at hr
    cases hr
  · rw [hserved.2.1] at hr
    cases hr
  · rename_i hpc
    obtain ⟨hrest, hshown, hwrote⟩ := hret hserved.2
    exact ⟨hrest, hserved.1, hshown, hwrote, Or.inl hpc⟩
  · rename_i hpc
    obtain ⟨hrest, hshown, hwrote⟩ := hret hserved.2
    exact ⟨hrest, hserved.1, hshown, hwrote, Or.inr hpc⟩

/-! ## Steps -/

/-- The client answers, and waits for the next request. -/
theorem Inv.answer {result : UInt8} (h : Inv s) (hid : s.fifoId = [])
    (hpc : s.helper.pc = .answered ∨ s.helper.pc = .ended)
    (hyes : yes result = true → s.helper.shown = some src ∧ s.helper.wrote = some result) :
    Inv (s.answer src dst result []) where
  phase := ⟨hid, rfl, hpc⟩
  own := by
    intro x hx hv
    rcases List.mem_append.1 hx with hx | hx
    · exact h.own x hx hv
    · obtain rfl := List.mem_singleton.1 hx
      dsimp only at hv
      split at hv
      · rename_i hres
        obtain ⟨hshown, hwrote⟩ := hyes hres
        exact ⟨hshown, result, hwrote, hres⟩
      · exact absurd hv (by decide)

theorem Idle.pc_ne {pc : Pc} (h : Idle s) (ha : pc ≠ .answered) (he : pc ≠ .ended) : s.helper.pc ≠ pc := by
  rintro rfl
  exact h.2.2.elim ha he

/-- The helper goes on to the next `open` or `read`. -/
theorem Phase.opened {pc : Pc} (hp : Phase s) (hpc : s.helper.pc = .openId ∨ s.helper.pc = .openResult)
    (hnext : pc = .openResult ∨ pc = .reading) : Phase { s with helper := { s.helper with pc := pc } } := by
  have hne : pc ≠ .asking ∧ pc ≠ .answered ∧ pc ≠ .openId := by rcases hnext with rfl | rfl <;> decide
  refine hp.move rfl ?_ (fun hf => ⟨hf.1, hf.2.1, hne.1, hne.2.1⟩) (fun _ => hne.2.2) ?_
  · intro hidle
    rcases hpc with hpc | hpc
    · exact absurd hpc (hidle.pc_ne (by decide) (by decide))
    · exact absurd hpc (hidle.pc_ne (by decide) (by decide))
  · intro src _ hserved
    unfold Served at hserved ⊢
    rcases hpc with hpc | hpc
    · rw [hpc] at hserved
      exact hserved.elim
    · rw [hpc] at hserved
      rcases hnext with rfl | rfl
      · exact hserved
      · exact hserved

/-- The helper shows the id that it reads. -/
theorem Phase.read {stack : List UInt8} (hp : Phase s) (hpc : s.helper.pc = .reading) (hid : s.fifoId ≠ []) :
    Phase { s with
      helper := { s.helper with
        pc := .asking
        shown := some (CInt.load (Socket.fill stack (min 4 s.fifoId.length) s.fifoId)) }
      fifoId := s.fifoId.drop 4 } := by
  refine hp.move rfl ?_ ?_ (fun _ => Pc.noConfusion) ?_
  · intro hidle
    exact absurd hidle.1 hid
  · intro hfresh
    exact absurd hfresh.1 hid
  · intro src hrange hserved
    unfold Served at hserved ⊢
    rw [hpc] at hserved
    obtain ⟨hstore, hres⟩ := hserved
    have hlen : s.fifoId.length = 4 := by rw [hstore, CInt.store_length]
    have hload : CInt.load (Socket.fill stack (min 4 s.fifoId.length) s.fifoId) = src := by
      unfold Socket.fill
      rw [hlen, Nat.min_self, List.take_of_length_le (by omega), hstore, CInt.load_store hrange]
    refine ⟨List.drop_of_length_le (by omega), hres, ?_⟩
    show some _ = _
    rw [hload]

/-- The user presses a key. -/
theorem Phase.key (hp : Phase s) (hpc : s.helper.pc = .asking) (c : UInt8) :
    Phase { s with
      helper := { s.helper with pc := .answered, wrote := some c }
      fifoResult := s.fifoResult ++ [c] } := by
  refine hp.move rfl ?_ ?_ (fun _ => Pc.noConfusion) ?_
  · intro hidle
    exact absurd hpc (hidle.pc_ne (by decide) (by decide))
  · intro hfresh
    exact absurd hpc hfresh.2.2.1
  · intro src _ hserved
    unfold Served at hserved ⊢
    rw [hpc] at hserved
    obtain ⟨hid, hres, hshown⟩ := hserved
    refine ⟨hid, Or.inr ⟨c, ?_, hshown, rfl⟩⟩
    show s.fifoResult ++ [c] = [c]
    rw [hres, List.nil_append]

/-- The helper ends, and no id is unread. -/
theorem Phase.helperEnd (hp : Phase s) (hid : s.fifoId = []) :
    Phase { s with helper := { s.helper with pc := .ended } } := by
  refine hp.move rfl (fun hidle => ⟨hidle.1, hidle.2.1, Or.inr rfl⟩)
    (fun hf => ⟨hf.1, hf.2.1, Pc.noConfusion, Pc.noConfusion⟩) (fun _ => Pc.noConfusion) ?_
  intro src _ hserved
  have hstored : s.fifoId ≠ CInt.store src := by
    rw [hid]
    exact List.cons_ne_nil _ _ ∘ Eq.symm
  refine ⟨hid, ?_⟩
  unfold Served at hserved
  split at hserved
  · exact hserved.elim
  · exact absurd hserved.1 hstored
  · exact absurd hserved.1 hstored
  · exact Or.inl hserved.2.1
  · exact hserved.2
  · exact hserved.2

/-- The client starts a helper for the next request. -/
theorem Phase.request (hp : Phase s) (hc : s.client = .waiting) (hrange : CInt.InRange src) :
    Phase { s with client := .openId src dst, helper := ⟨.openId, none, none⟩ } := by
  unfold Phase at hp
  rw [hc] at hp
  exact ⟨hrange, hp.1, hp.2.1, Pc.noConfusion, Pc.noConfusion⟩

/-- The client has opened `./fifo_result` when the helper has come to open it. -/
theorem Phase.clientOpened (hp : Phase s) (hc : s.client = .openResult src dst) (hw : s.writer = true) :
    Phase { s with client := .writing src dst, held := true } := by
  have hopen : s.helper.pc ≠ .openId := by
    intro hpc
    simp [Desk.writer, hpc] at hw
  unfold Phase at hp
  rw [hc] at hp
  exact ⟨hp.1, hp.2, hopen⟩

/-- The client writes the id. -/
theorem Phase.clientWrite (hp : Phase s) (hc : s.client = .writing src dst) (hended : s.helper.pc ≠ .ended) :
    Phase { s with client := .reading src dst, fifoId := s.fifoId ++ CInt.store src } := by
  unfold Phase at hp
  rw [hc] at hp
  obtain ⟨hrange, ⟨hid, hres, hasking, hanswered⟩, hopen⟩ := hp
  have hstored : s.fifoId ++ CInt.store src = CInt.store src := by rw [hid, List.nil_append]
  refine ⟨hrange, ?_⟩
  unfold Served
  dsimp only
  -- the helper is at one of the two places before its own `read`
  cases hpc : s.helper.pc with
  | openId => exact hopen hpc
  | openResult => exact ⟨hstored, hres⟩
  | reading => exact ⟨hstored, hres⟩
  | asking => exact absurd hpc hasking
  | answered => exact absurd hpc hanswered
  | ended => exact absurd hpc hended

/-- The client reads the answer, or the end of the FIFO when the helper has ended without one. -/
theorem Inv.clientRead {stack : UInt8} (h : Inv s) (hno : s.fifoResult = [] → yes stack = false)
    (hs : s.step (.clientRead stack) = some s') : Inv s' := by
  simp only [Desk.step] at hs
  split at hs
  swap
  · cases hs
  rename_i src dst hc
  split at hs
  · rename_i result rest hres
    cases hs
    obtain ⟨rfl, hid, hshown, hwrote, hpc⟩ := h.phase.returned hc hres
    exact h.answer hid hpc fun _ => ⟨hshown, hwrote⟩
  · rename_i hres
    split at hs
    · cases hs
    · rename_i hw
      cases hs
      obtain ⟨hpc, hid⟩ := h.phase.ended hc (Bool.eq_false_iff.2 hw)
      refine h.answer hid (Or.inr hpc) fun hyes => ?_
      rw [hno hres] at hyes
      cases hyes

/-- **A step of an attended run.** -/
theorem Inv.step (h : Inv s) (hC : Attended s a) (hs : s.step a = some s') : Inv s' := by
  have hp : Phase s := h.phase
  cases a with
  | request src dst =>
    simp only [Desk.step] at hs
    split at hs
    · rename_i hen
      cases hs
      exact ⟨hp.request hen.1 hen.2.2.1, h.own⟩
    · cases hs
  | clientOpenId =>
    simp only [Desk.step] at hs
    split at hs
    · rename_i src dst hc
      split at hs
      · cases hs
        unfold Phase at hp
        rw [hc] at hp
        exact ⟨hp, h.own⟩
      · cases hs
    · cases hs
  | clientOpenResult =>
    simp only [Desk.step] at hs
    split at hs
    · rename_i src dst hc
      split at hs
      · rename_i hw
        cases hs
        exact ⟨hp.clientOpened hc hw, h.own⟩
      · cases hs
    · cases hs
  | clientWrite =>
    simp only [Desk.step] at hs
    split at hs
    · rename_i src dst hc
      split at hs
      · rename_i hended
        cases hs
        exact ⟨hp.clientWrite hc hended, h.own⟩
      · -- nobody has `./fifo_id` open for reading
        cases hs
        exact ⟨trivial, h.own⟩
    · cases hs
  | clientRead stack => exact h.clientRead hC hs
  | helperOpenId =>
    simp only [Desk.step] at hs
    split at hs
    · rename_i hpc
      cases hs
      exact ⟨hp.opened (Or.inl hpc) (Or.inl rfl), h.own⟩
    · cases hs
  | helperOpenResult =>
    simp only [Desk.step] at hs
    split at hs
    · rename_i hen
      cases hs
      exact ⟨hp.opened (Or.inr hen.1) (Or.inr rfl), h.own⟩
    · cases hs
  | helperRead stack =>
    simp only [Desk.step] at hs
    split at hs
    · rename_i hen
      cases hs
      exact ⟨hp.read hen.1 hen.2.1, h.own⟩
    · cases hs
  | key c =>
    simp only [Desk.step] at hs
    split at hs
    · rename_i hpc
      cases hs
      exact ⟨hp.key hpc c, h.own⟩
    · cases hs
  | helperEnd =>
    simp only [Desk.step] at hs
    split at hs
    · cases hs
      exact ⟨hp.helperEnd hC, h.own⟩
    · cases hs

/-- **A verdict 1 is the answer of the user to this request.** -/
theorem own_answer (hr : lts.Run Attended tr s) : ∀ x ∈ s.sent, x.verdict = 1 → x.Own := by
  have hinv : Inv s := by
    refine hr.invariant ?_ fun s a s' h hC hs => h.step hC hs
    rintro s rfl
    exact ⟨⟨rfl, rfl, Or.inr rfl⟩, fun x hx => absurd hx List.not_mem_nil⟩
  exact hinv.own

/-- What the steps `as` come to. -/
def after (as : List Act) : Desk := as.foldl (fun s a => (s.step a).getD s) start

/-- Steps that can be taken make a run. -/
theorem run_after {C : Desk → Act → Prop} (as : List Act)
    (h : Lts.Script (fun s a => (s.step a).isSome = true ∧ C s a) (fun s a => (s.step a).getD s) start as) :
    lts.Run C (Lts.steps (fun s a => (s.step a).getD s) start as) (after as) := by
  have h₀ : lts.Run C [] start := .start rfl
  refine h₀.script (fun s a ha => ⟨ha.2, ?_⟩) as h
  have hne : s.step a ≠ none := Option.isSome_iff_ne_none.1 ha.1
  exact (Option.getD_of_ne_none hne s).symm

/-- Both sides open their FIFOs for a request of 7, and its id is written. -/
def meeting : List Act :=
  [.request 7 1, .helperOpenId, .clientOpenId, .clientOpenResult, .helperOpenResult, .clientWrite]

instance (s : Desk) (a : Act) : Decidable (Attended s a) := by
  unfold Attended
  cases a <;> infer_instance

/-- The user agrees. -/
theorem own_answer_agreed : (after (meeting ++ [.helperRead [0, 0, 0, 0], .key 121, .clientRead 0])).sent =
      [⟨7, 1, 1, ⟨.answered, some 7, some 121⟩⟩] ∧
    ∀ x ∈ (after (meeting ++ [.helperRead [0, 0, 0, 0], .key 121, .clientRead 0])).sent, x.verdict = 1 → x.Own :=
  ⟨by decide +kernel, own_answer (run_after _ (by decide +kernel))⟩

/-- The helper is closed before it has read the id of 7, and then 8 asks. -/
def abandoned : List Act :=
  meeting ++ [.helperEnd, .clientRead 0, .request 8 1, .helperOpenId, .clientOpenId, .helperOpenResult,
    .clientOpenResult, .clientWrite, .helperRead [0, 0, 0, 0], .key 121, .clientRead 0]

/-- **The request of 8 is granted by a user who saw 7**, and a request nobody saw by what `result`
held before. -/
theorem own_answer_breaks :
    (∃ tr, lts.Run (fun _ _ => True) tr (after abandoned) ∧
      ⟨8, 1, 1, ⟨.answered, some 7, some 121⟩⟩ ∈ (after abandoned).sent) ∧
    ∃ tr, lts.Run (fun _ _ => True) tr (after (meeting ++ [.helperEnd, .clientRead 121])) ∧
      ⟨7, 1, 1, ⟨.ended, none, none⟩⟩ ∈ (after (meeting ++ [.helperEnd, .clientRead 121])).sent :=
  ⟨⟨_, run_after _ (by decide +kernel), by decide +kernel⟩, _, run_after _ (by decide +kernel), by decide +kernel⟩

end UnixNote.Approval
