import UnixNote.Proof.Descriptors

/-!
# What goes out, and what is closed twice

For one pattern of failures. What is written to a connection may fail as long as the farewell of its
teardown goes out and its session is the only one there (`Uncrowded`): a call of the recursion then
closes only connections that no node has afterwards (`Cascade.neat`). `login_action` and
`allow_addf_action` go on after a failed `Write`, and need more (`Welcomes`, `Introduces`). **`closed_once`**
says of all steps of a run which are tidy whatever fails, and which are tidy where things fail as they may
(`Orderly`).
-/

namespace UnixNote

open Server

variable {env : Env} {c : Call} {s s' s₁ s₂ : Server} {fd x id confd src dst : Int} {m : Msg} {e : Event}
  {evs X Y past : List Event} {p n : Node} {user : User} {rows : List Int} {k : Option Nat}

/-! ## What goes out -/

/-- `m` goes out to `fd`, whatever else happens behind `past`. -/
def GoesOut (env : Env) (past : List Event) (fd : Int) (m : Msg) : Prop := ∀ evs, env.write (past ++ evs) fd m = true

/-- Nothing fails on `fd` but the farewell. -/
def Steady (env : Env) (past : List Event) (fd : Int) : Prop := ∀ m, m ≠ .allowDisconnect → GoesOut env past fd m

/-- `OP_OFFLINE` does not fail on `fd`. -/
def Hears (env : Env) (past : List Event) (fd : Int) : Prop := ∀ id, GoesOut env past fd (.offline id)

/-- The farewell does not fail on `fd`. -/
def Parts (env : Env) (past : List Event) (fd : Int) : Prop := GoesOut env past fd .allowDisconnect

theorem GoesOut.sent (h : GoesOut env past fd m) (hl : past <+: s.log) : env.write s.log fd m = true := by
  obtain ⟨evs, hl⟩ := hl
  rw [← hl]
  exact h evs

/-- What fails does not go out. -/
theorem GoesOut.not_failed (hl : past <+: s.log) (hfail : env.write s.log fd m = false) : ¬ GoesOut env past fd m := by
  intro hout
  have hsent := hout.sent hl
  rw [hfail] at hsent
  cases hsent

theorem Steady.not_failed (hl : past <+: s.log) (hm : m ≠ .allowDisconnect) (hfail : env.write s.log fd m = false) :
    ¬ Steady env past fd :=
  fun hst => GoesOut.not_failed hl hfail (hst m hm)

theorem Steady.hears (h : Steady env past fd) : Hears env past fd := fun _ => h _ Msg.noConfusion

/-- Sessions on whose connection anything but the farewell fails are alone there, and part well. -/
def Uncrowded (env : Env) (past : List Event) (nodes : List Node) : Prop :=
  ∀ n ∈ nodes, Steady env past n.sockfd ∨
    (Parts env past n.sockfd ∧ 0 ≤ n.id ∧ ∀ n' ∈ nodes, n'.sockfd = n.sockfd → n' = n)

/-- A state inside a handling that began behind `past`. -/
structure Apart (env : Env) (past : List Event) (s : Server) : Prop where
  ids : OneSession s
  since : past <+: s.log
  own : Uncrowded env past s.pOnline.nodes

theorem Apart.step (h : Apart env past s) (hl : s.log <+: s'.log) (hs : s'.pOnline.nodes.Sublist s.pOnline.nodes) :
    Apart env past s' where
  ids := h.ids.sublist hs
  since := h.since.trans hl
  own n hn := (h.own n (hs.subset hn)).imp_right fun hown =>
    ⟨hown.1, hown.2.1, fun n' hn' => hown.2.2 n' (hs.subset hn')⟩

theorem Apart.calmly (h : Apart env past s) (hc : Calmly s s') : Apart env past s' := by
  refine h.step hc.log_extends ?_
  rw [hc.1]

/-- The session of a connection on which something fails is the only one there. -/
theorem Apart.session (h : Apart env past s) (hfd : ¬ Steady env past fd) (hn : n ∈ s.pOnline.nodes)
    (hx : n.sockfd = fd) : n.id = s.sessionId fd ∧ 0 ≤ n.id ∧ Parts env past fd := by
  unfold sessionId
  cases hp : s.pOnline.searchList fd .bySockfd with
  | none => exact absurd hx (OnlineList.searchSockfd_none.1 hp n hn)
  | some p =>
    obtain ⟨hmem, hpfd⟩ := OnlineList.searchSockfd_some hp
    subst hx
    have hown := (h.own n hn).resolve_left hfd
    obtain rfl := hown.2.2 p hmem hpfd
    exact ⟨rfl, hown.2.1, hown.1⟩

/-- A session that is torn down for a connection is on it. -/
theorem sessionId_node (h : 0 ≤ s.sessionId fd) : ∃ p ∈ s.pOnline.nodes, p.sockfd = fd ∧ p.id = s.sessionId fd := by
  unfold sessionId at h ⊢
  cases hp : s.pOnline.searchList fd .bySockfd with
  | none =>
    rw [hp] at h
    exact absurd h (by decide)
  | some p =>
    obtain ⟨hmem, hfd⟩ := OnlineList.searchSockfd_some hp
    exact ⟨p, hmem, hfd, rfl⟩

/-! ## Calls of the recursion -/

/-- The connection a call is about. -/
def Call.target : Call → Option Int
  | .offline confd _ => some confd
  | .notify _ _ _ => none
  | .write fd _ => some fd

/-- The connection a call closes for a reason of its own. -/
def Call.shuts (env : Env) (s : Server) : Call → Int → Prop
  | .offline confd _, x => x = confd
  | .notify _ _ _, _ => False
  | .write fd m, x => x = fd ∧ env.write s.log fd m = false

/-- What a call may assume. -/
def Call.Ready (env : Env) (past : List Event) (s : Server) : Call → Prop
  | .offline confd id => id < 0 ∨ (Parts env past confd ∧
      (Steady env past confd ∨ ∀ n ∈ s.pOnline.nodes, n.sockfd = confd → n.id = id))
  | .notify _ _ _ => True
  | .write _ m => m ≠ .allowDisconnect

/-- What a call does to the descriptors: it calls only on its own and on those of nodes, and closes its own or
such as hear nothing; behind a `Write` these have no node. -/
structure Neat (env : Env) (past : List Event) (c : Call) (s s' : Server) (evs : List Event) : Prop where
  log : s'.log = s.log ++ evs
  tidy : Tidy evs
  on : ∀ x, ∀ e ∈ evs, e.on x = true → c.target = some x ∨ ∃ n ∈ s.pOnline.nodes, n.sockfd = x
  closed : ∀ x, .close x ∈ evs → (c.shuts env s x ∨ ¬ Hears env past x) ∧
    ((∃ confd id, c = .offline confd id ∧ x = confd) ∨ ∀ n ∈ s'.pOnline.nodes, n.sockfd ≠ x)
  kept : ∀ n ∈ s.pOnline.nodes, Hears env past n.sockfd → ¬ c.shuts env s n.sockfd →
    (∀ confd id, c = .offline confd id → 0 ≤ id → n.id ≠ id) → n ∈ s'.pOnline.nodes

/-- The loop over the friends calls on nothing but their nodes. -/
theorem Neat.notify_on {k : Nat} {rows : List Int} (h : Neat env past (.notify id k rows) s s' evs) {e : Event}
    (he : e ∈ evs) (hon : e.on x = true) : ∃ n ∈ s.pOnline.nodes, n.sockfd = x :=
  (h.on x e he hon).resolve_left (Option.some_ne_none x).symm

/-- What it closes hears nothing, and has no node behind it. -/
theorem Neat.notify_closed {k : Nat} {rows : List Int} (h : Neat env past (.notify id k rows) s s' evs)
    (hx : .close x ∈ evs) : ¬ Hears env past x ∧ ∀ n ∈ s'.pOnline.nodes, n.sockfd ≠ x := by
  obtain ⟨hdeaf, hnone⟩ := h.closed x hx
  refine ⟨hdeaf.resolve_left not_false, hnone.resolve_left ?_⟩
  rintro ⟨confd, id', heq, -⟩
  cases heq

/-- It keeps the nodes that hear. -/
theorem Neat.notify_kept {k : Nat} {rows : List Int} (h : Neat env past (.notify id k rows) s s' evs)
    (hn : n ∈ s.pOnline.nodes) (hears : Hears env past n.sockfd) : n ∈ s'.pOnline.nodes := by
  refine h.kept n hn hears not_false fun confd id' heq => ?_
  cases heq

/-- Behind a `Write` there is no node on what it has closed. -/
theorem Neat.write_closed (h : Neat env past (.write fd m) s s' evs) (hx : .close x ∈ evs) :
    ∀ n ∈ s'.pOnline.nodes, n.sockfd ≠ x := by
  refine (h.closed x hx).2.resolve_left ?_
  rintro ⟨confd, id', heq, -⟩
  cases heq

/-- It keeps the nodes that hear, but for one on its own connection. -/
theorem Neat.write_kept (h : Neat env past (.write fd m) s s' evs) (hn : n ∈ s.pOnline.nodes)
    (hears : Hears env past n.sockfd) (hother : ¬ (n.sockfd = fd ∧ env.write s.log fd m = false)) :
    n ∈ s'.pOnline.nodes := by
  refine h.kept n hn hears hother fun confd id' heq => ?_
  cases heq

theorem Neat.of_quiet (hq : Quietly s s') : ∃ evs, Neat env past c s s' evs := by
  obtain ⟨hp, evs, hl, hevs⟩ := hq
  have hopen := not_close_of_quiet hevs
  refine ⟨evs, hl, tidy_of_open hopen, fun x e he hon => ?_, fun x hmem => absurd hmem (hopen x), fun n hn _ _ _ => ?_⟩
  · rw [hevs e he x] at hon
    cases hon
  · rwa [hp]

/-- Quiet calls in front. -/
theorem Neat.behind {id : Int} {k : Nat} {rows rows' : List Int} (hq : Quietly s s₁)
    (h : Neat env past (.notify id k rows) s₁ s' evs) : ∃ evs', Neat env past (.notify id k rows') s s' evs' := by
  obtain ⟨hp, X, hl, hX⟩ := hq
  have hopen := not_close_of_quiet hX
  refine ⟨X ++ evs, by rw [h.log, hl, List.append_assoc], tidy_append.2 ⟨tidy_of_open hopen, h.tidy, ?_⟩, ?_, ?_, ?_⟩
  · exact fun fd hfd => absurd hfd (hopen fd)
  · intro x e he hon
    rcases List.mem_append.1 he with he | he
    · rw [hX e he x] at hon
      cases hon
    · rw [← hp]
      exact h.on x e he hon
  · intro x hx
    rcases List.mem_append.1 hx with hx | hx
    · exact absurd hx (hopen x)
    · obtain ⟨hdeaf, hnone⟩ := h.notify_closed hx
      exact ⟨Or.inr hdeaf, Or.inr hnone⟩
  · intro n hn hears _ _
    exact h.notify_kept (by rwa [hp]) hears

/-- **`offline_action`** around what it does to the friends: nothing is called on its connection there that is
closed there. -/
theorem Neat.offline {k : Nat} {rows : List Int} {conn : Option Nat} (h : Apart env past s)
    (hc : (Call.offline confd id).Ready env past s) (hid : 0 ≤ id)
    (hn : Neat env past (.notify id k rows) (cut env confd id s) s₁ evs) :
    ∃ evs', Neat env past (.offline confd id) s
      (((s₁.emit (.write confd .allowDisconnect true)).mysqlEnd conn).close confd) evs' := by
  have hready := hc.resolve_left (by omega)
  have hcut : ∀ n ∈ (cut env confd id s).pOnline.nodes, n ∈ s.pOnline.nodes ∧ n.id ≠ id :=
    fun n hn => (Keyed.Distinct.mem_eraseP h.ids).1 hn
  have hown : .close confd ∉ evs := by
    intro hmem
    have hdeaf := (hn.notify_closed hmem).1
    obtain ⟨n, hn, hfd⟩ := hn.notify_on hmem (by simp [Event.on] : (Event.close confd).on confd = true)
    rcases hready.2 with hsteady | hall
    · exact hdeaf hsteady.hears
    · exact (hcut n hn).2 (hall n (hcut n hn).1 hfd)
  refine ⟨([.epollDel confd, .query (.selectFriends id) (((s.epollDel confd).delList id).answer env
    (.selectFriends id)).1] ++ evs) ++ ([.write confd .allowDisconnect true, .freeResult conn, .mysqlClose conn] ++
      [.close confd]), ?_, ?_, ?_, ?_, ?_⟩
  · rw [close_log, mysqlEnd_log, emit_log, hn.log, cut_log]
    simp only [List.append_assoc, List.cons_append, List.nil_append]
  · rw [tidy_append, tidy_append, tidy_append]
    refine ⟨⟨tidy_of_open (by simp), hn.tidy, by simp⟩,
      ⟨tidy_of_open (by simp), fun _ => List.pairwise_singleton .., by simp⟩, fun x hx e he => ?_⟩
    have hx : .close x ∈ evs := by simpa using hx
    have hne : confd ≠ x := by
      rintro rfl
      exact hown hx
    simp only [List.cons_append, List.nil_append, List.mem_cons, List.not_mem_nil, or_false] at he
    rcases he with rfl | rfl | rfl | rfl <;> simp [Event.on, hne]
  · intro x e he hon
    simp only [List.cons_append, List.nil_append, List.mem_append, List.mem_cons, List.not_mem_nil, or_false] at he
    have hself : e.on x = decide (confd = x) → (Call.offline confd id).target = some x := by
      intro heq
      rw [heq] at hon
      exact congrArg some (of_decide_eq_true hon)
    rcases he with rfl | rfl | he | rfl | rfl | rfl | rfl
    · exact Or.inl (hself rfl)
    · cases hon
    · obtain ⟨n, hn', hfd⟩ := hn.notify_on he hon
      exact Or.inr ⟨n, (hcut n hn').1, hfd⟩
    · exact Or.inl (hself rfl)
    · cases hon
    · cases hon
    · exact Or.inl (hself rfl)
  · intro x hx
    have hx : .close x ∈ evs ∨ x = confd := by simpa using hx
    rcases hx with hx | rfl
    · obtain ⟨hdeaf, hnone⟩ := hn.notify_closed hx
      exact ⟨Or.inr hdeaf, Or.inr hnone⟩
    · exact ⟨Or.inl rfl, Or.inl ⟨_, _, rfl, rfl⟩⟩
  · intro n hn' hears _ hid'
    exact hn.notify_kept ((Keyed.Distinct.mem_eraseP h.ids).2 ⟨hn', hid' _ _ rfl hid⟩) hears

/-- A message, and the `offline_action` behind it. -/
theorem Neat.failed (h : Apart env past s) (hm : m ≠ .allowDisconnect) (hfail : env.write s.log fd m = false)
    (hn : Neat env past (.offline fd (s.sessionId fd)) (s.emit (.write fd m false)) s' evs)
    (hs : Cascade env (.offline fd (s.sessionId fd)) (s.emit (.write fd m false)) s') :
    Neat env past (.write fd m) s s' (.write fd m false :: evs) := by
  have hsteady := Steady.not_failed h.since hm hfail
  have hopen : ∀ x, .close x ∉ [Event.write fd m false] := by simp
  refine ⟨by rw [hn.log, emit_log, List.append_assoc]; rfl, ?_, ?_, ?_, ?_⟩
  · exact tidy_append.2 ⟨tidy_of_open hopen, hn.tidy, fun x hx => absurd hx (hopen x)⟩
  · intro x e he hon
    rcases List.mem_cons.1 he with rfl | he
    · exact Or.inl (congrArg some (of_decide_eq_true hon))
    · exact hn.on x e he hon
  · intro x hx
    obtain ⟨hshut, hnone⟩ := hn.closed x ((List.mem_cons.1 hx).resolve_left Event.noConfusion)
    refine ⟨hshut.imp_left fun hx => ⟨hx, hfail⟩, Or.inr ?_⟩
    rcases hnone with ⟨_, _, heq, rfl⟩ | hnone
    · cases heq
      -- the only session of the connection is gone
      intro n hn' hx
      have hmem : n ∈ s.pOnline.nodes := hs.sublist.subset hn'
      obtain ⟨hid, hpos, -⟩ := h.session hsteady hmem hx
      have hids : OneSession (s.emit (.write fd m false)) := h.ids
      exact hs.gone hids (hid ▸ hpos) n hn' hid
    · exact hnone
  · intro n hn' hears hshut _
    have hx : n.sockfd ≠ fd := fun hx => hshut ⟨hx, hfail⟩
    refine hn.kept n hn' hears (fun hx' => hx hx') fun confd id heq hpos hid => ?_
    cases heq
    -- the session that is torn down is another
    obtain ⟨p, hp, hpfd, hpid⟩ := sessionId_node hpos
    have hsame : n = p := Keyed.Distinct.eq h.ids hn' hp (hid.trans hpid.symm)
    exact hx (hsame ▸ hpfd)

/-- **A call of the recursion**, where connections are apart. -/
theorem Cascade.neat (h : Cascade env c s s') (ha : Apart env past s) (hc : c.Ready env past s) :
    ∃ evs, Neat env past c s s' evs := by
  induction h with
  | @offlineNeg confd id s hneg =>
    refine ⟨[.epollDel confd] ++ [.close confd], by simp,
      tidy_append.2 ⟨tidy_of_open (by simp), ?_, by simp⟩, ?_, ?_, ?_⟩
    · exact fun _ => List.pairwise_singleton ..
    · intro x e he hon
      simp only [List.cons_append, List.nil_append, List.mem_cons, List.not_mem_nil, or_false] at he
      rcases he with rfl | rfl
      · exact Or.inl (congrArg some (of_decide_eq_true hon))
      · exact Or.inl (congrArg some (of_decide_eq_true hon))
    · intro x hx
      have hx : x = confd := by simpa using hx
      exact ⟨Or.inl hx, Or.inl ⟨confd, id, rfl, hx⟩⟩
    · exact fun n hn _ _ _ => hn
  | @offlineRows confd id k s s₁ s₂ hid hconn hn hw ih₁ ih₂ =>
    have hcut : Apart env past (cut env confd id s) :=
      ha.step cut_extends (OnlineList.delList_sublist _)
    obtain ⟨evs, hneat⟩ := ih₁ hcut trivial
    have hext : s.log <+: s₁.log := cut_extends.trans hn.log_extends
    cases hw with
    | writeOk _ => exact hneat.offline ha hc hid
    | writeFail hfail _ =>
      -- the farewell goes out
      exact absurd (hc.resolve_left (by omega)).1 (GoesOut.not_failed (ha.since.trans hext) hfail)
  | @offlineNoDb confd id s s₁ hid hconn hw ih =>
    obtain ⟨evs, hneat⟩ : ∃ evs, Neat env past (.notify id 0 []) (cut env confd id s) (cut env confd id s) evs :=
      Neat.of_quiet .refl
    cases hw with
    | writeOk _ => exact hneat.offline ha hc hid
    | writeFail hfail _ =>
      exact absurd (hc.resolve_left (by omega)).1 (GoesOut.not_failed (ha.since.trans cut_extends) hfail)
  | notifyEnd => exact Neat.of_quiet (Quietly.refl.emit fun _ => rfl)
  | @notifySkip id f k rows s s' _ _ ih =>
    have hrow : Quietly s (s.emit (.fetchRow (some k))) := Quietly.refl.emit fun _ => rfl
    obtain ⟨evs, hneat⟩ := ih (ha.calmly hrow.calmly) trivial
    exact hneat.behind hrow
  | @notifySend id f k rows p s s₁ s' hp hw hn ih₁ ih₂ =>
    have hmem : p ∈ s.pOnline.nodes := (OnlineList.searchId_some hp).1
    have hread : Quietly s ((s.emit (.fetchRow (some k))).emit (.deref p.ref true)) :=
      (Quietly.refl.emit fun _ => rfl).emit fun _ => rfl
    have hread' := ha.calmly hread.calmly
    obtain ⟨X, hX⟩ := ih₁ hread' Msg.noConfusion
    obtain ⟨Y, hY⟩ := ih₂ (hread'.step hw.log_extends hw.sublist) trivial
    -- what the message shuts does not hear it
    have hdeaf : ∀ x, (Call.write p.sockfd (.offline id)).shuts env
        ((s.emit (.fetchRow (some k))).emit (.deref p.ref true)) x → ¬ Hears env past x := by
      rintro x ⟨rfl, hfail⟩ hears
      exact GoesOut.not_failed hread'.since hfail (hears id)
    have hgone : ∀ x, .close x ∈ X → ∀ n ∈ s₁.pOnline.nodes, n.sockfd ≠ x := fun x hx => hX.write_closed hx
    have hneat : Neat env past (.notify id k rows) ((s.emit (.fetchRow (some k))).emit (.deref p.ref true)) s'
        (X ++ Y) := by
      refine ⟨?_, tidy_append.2 ⟨hX.tidy, hY.tidy, ?_⟩, ?_, ?_, ?_⟩
      · rw [hY.log, hX.log, List.append_assoc]
      · intro x hx e he
        by_contra hon
        obtain ⟨n, hn', hfd⟩ := hY.notify_on he (by simpa using hon : e.on x = true)
        exact hgone x hx n hn' hfd
      · intro x e he hon
        rcases List.mem_append.1 he with he | he
        · rcases hX.on x e he hon with htarget | hnode
          · exact Or.inr ⟨p, hmem, Option.some.inj htarget⟩
          · exact Or.inr hnode
        · obtain ⟨n, hn', hfd⟩ := hY.notify_on he hon
          exact Or.inr ⟨n, hw.sublist.subset hn', hfd⟩
      · intro x hx
        rcases List.mem_append.1 hx with hx | hx
        · refine ⟨Or.inr ((hX.closed x hx).1.elim (hdeaf x) fun h => h), Or.inr fun n hn' => ?_⟩
          exact hgone x hx n (hn.sublist.subset hn')
        · obtain ⟨hdeaf', hnone⟩ := hY.notify_closed hx
          exact ⟨Or.inr hdeaf', Or.inr hnone⟩
      · intro n hn' hears _ _
        exact hY.notify_kept (hX.write_kept hn' hears fun hshut => hdeaf _ hshut hears) hears
    exact hneat.behind hread
  | @writeOk x m s _ =>
    refine ⟨[.write x m true], rfl, tidy_of_open (by simp), ?_, by simp, fun n hn _ _ _ => hn⟩
    intro y e he hon
    obtain rfl := List.mem_singleton.1 he
    exact Or.inl (congrArg some (of_decide_eq_true hon))
  | @writeFail x m s s' hfail hoff ih =>
    have hemit : Apart env past (s.emit (.write x m false)) := ha.step ⟨_, rfl⟩ (List.Sublist.refl _)
    have hsteady := Steady.not_failed ha.since hc hfail
    have hready : (Call.offline x (s.sessionId x)).Ready env past (s.emit (.write x m false)) := by
      by_cases hneg : s.sessionId x < 0
      · exact Or.inl hneg
      · obtain ⟨p, hp, hpfd, -⟩ := sessionId_node (Int.not_lt.1 hneg)
        exact Or.inr ⟨(ha.session hsteady hp hpfd).2.2, Or.inr fun n hn hx => (ha.session hsteady hn hx).1⟩
    obtain ⟨evs, hneat⟩ := ih hemit hready
    exact ⟨_, Neat.failed ha hc hfail hneat hoff⟩

/-! ## Stretches of a handler -/

theorem Neat.tidied (h : Neat env past c s s' evs) : Tidied s s' := ⟨evs, h.log, h.tidy⟩

/-- One `Write` of a handler. -/
theorem Apart.write (ha : Apart env past s) (fd : Int) (hm : m ≠ .allowDisconnect) :
    ∃ evs, Neat env past (.write fd m) s (s.writeServer env fd m).1 evs :=
  cascade_writeServer.neat ha hm

theorem Apart.written (ha : Apart env past s) (fd : Int) (m : Msg) : Apart env past (s.writeServer env fd m).1 :=
  ha.step cascade_writeServer.log_extends cascade_writeServer.sublist

theorem OneWrite.tidied (h : OneWrite env x s s') (ha : Apart env past s) : Tidied s s' := by
  obtain ⟨t, m, hcalm, hm, hend⟩ := h
  obtain ⟨evs, hn⟩ := (ha.calmly hcalm).write x hm
  exact (hcalm.before hn.tidied).quietly hend

/-- A `Write` does not close a connection that hears, unless it fails on it. -/
theorem Neat.spares (h : Neat env past (.write x m) s s' evs) (hears : Hears env past fd)
    (hsent : x = fd → env.write s.log x m = true) : .close fd ∉ evs := by
  intro hmem
  rcases (h.closed fd hmem).1 with ⟨rfl, hfail⟩ | hdeaf
  · rw [hsent rfl] at hfail
    cases hfail
  · exact hdeaf hears

/-- Between `s` and `s'` the calls are tidy, and on `fd` and descriptors of nodes only. -/
def Around (fd : Int) (s s' : Server) : Prop :=
  ∃ evs, s'.log = s.log ++ evs ∧ Tidy evs ∧
    ∀ x, ∀ e ∈ evs, e.on x = true → x = fd ∨ ∃ n ∈ s.pOnline.nodes, n.sockfd = x

theorem Around.tidied (h : Around fd s s') : Tidied s s' := by
  obtain ⟨evs, hl, htidy, -⟩ := h
  exact ⟨evs, hl, htidy⟩

theorem Quietly.around (h : Quietly s s') : Around fd s s' := by
  obtain ⟨hp, evs, hl, hevs⟩ := h
  refine ⟨evs, hl, tidy_of_open (not_close_of_quiet hevs), fun x e he hon => ?_⟩
  rw [hevs e he x] at hon
  cases hon

theorem Around.behind (hq : Quietly s s₁) (h : Around fd s₁ s') : Around fd s s' := by
  obtain ⟨hp, X, hX, hquiet⟩ := hq
  obtain ⟨Y, hY, htidy, hon⟩ := h
  have hopen := not_close_of_quiet hquiet
  refine ⟨X ++ Y, by rw [hY, hX, List.append_assoc], ?_, fun x e he hx => ?_⟩
  · exact tidy_append.2 ⟨tidy_of_open hopen, htidy, fun x hx => absurd hx (hopen x)⟩
  rcases List.mem_append.1 he with he | he
  · rw [hquiet e he x] at hx
    cases hx
  · rw [← hp]
    exact hon x e he hx

/-- A `Write`, and what is about nodes that are left and a connection that it has not closed. -/
theorem Neat.then (h : Neat env past (.write x m) s s₁ evs) (hsub : s₁.pOnline.nodes ⊆ s.pOnline.nodes)
    (hx : x = fd ∨ ∃ n ∈ s.pOnline.nodes, n.sockfd = x) (hopen : .close fd ∉ evs) (hrest : Around fd s₁ s') :
    Around fd s s' := by
  obtain ⟨Y, hY, htidy, hon⟩ := hrest
  refine ⟨evs ++ Y, by rw [hY, h.log, List.append_assoc], tidy_append.2 ⟨h.tidy, htidy, fun y hy e he => ?_⟩, ?_⟩
  · by_contra hcall
    rcases hon y e he (by simpa using hcall) with rfl | ⟨n, hn, hfd⟩
    · exact hopen hy
    · exact h.write_closed hy n hn hfd
  · intro y e he hcall
    rcases List.mem_append.1 he with he | he
    · rcases h.on y e he hcall with htarget | hnode
      · exact Option.some.inj htarget ▸ hx
      · exact Or.inr hnode
    · refine (hon y e he hcall).imp_right fun hnode => ?_
      obtain ⟨n, hn, hfd⟩ := hnode
      exact ⟨n, hsub hn, hfd⟩

theorem Neat.around (h : Neat env past (.write fd m) s s' evs) : Around fd s s' := by
  refine ⟨evs, h.log, h.tidy, fun y e he hcall => ?_⟩
  exact (h.on y e he hcall).imp_left fun htarget => (Option.some.inj htarget).symm

/-! ## `login_action` -/

/-- **The loop over the friends**: what is written to its own connection goes out, but for an `OP_ONLINE` whose
failure ends the loop. -/
theorem exchange_around {temp : OnlineNode} (ha : Apart env past s) (hears : Hears env past fd)
    (hself : GoesOut env past fd (.online temp)) :
    Around fd s (s.exchangeOnline env fd temp k rows) := by
  induction rows generalizing s with
  | nil => exact (Quietly.refl.emit fun _ => rfl).around
  | cons f rows ih =>
    have hrow : Quietly s (s.emit (.fetchRow k)) := Quietly.refl.emit fun _ => rfl
    simp only [exchangeOnline, emit_pOnline]
    cases hp : s.pOnline.searchList f .byId with
    | none => exact (ih (ha.calmly hrow.calmly)).behind hrow
    | some p =>
      have hmem : p ∈ (s.emit (.fetchRow k)).pOnline.nodes := (OnlineList.searchId_some hp).1
      simp only [deref_live env hmem]
      have hread : Quietly s ((s.emit (.fetchRow k)).emit (.deref p.ref true)) := hrow.emit fun _ => rfl
      have ha₁ := ha.calmly hread.calmly
      obtain ⟨X, hX⟩ := ha₁.write p.sockfd (m := .online temp) Msg.noConfusion
      have hopen : .close fd ∉ X := by
        refine hX.spares hears ?_
        rintro rfl
        exact hself.sent ha₁.since
      have hwritten := ha₁.written p.sockfd (.online temp)
      refine Around.behind hread (hX.then cascade_writeServer.sublist.subset (Or.inr ⟨p, hmem, rfl⟩) hopen ?_)
      cases hok : env.write ((s.emit (.fetchRow k)).emit (.deref p.ref true)).log p.sockfd (.online temp) with
      | false =>
        rw [writeServer_false hok] at hwritten ⊢
        exact ih hwritten
      | true =>
        rw [writeServer_true hok] at hwritten ⊢
        have hagain : p ∈ (((s.emit (.fetchRow k)).emit (.deref p.ref true)).emit
            (.write p.sockfd (.online temp) true)).pOnline.nodes := hmem
        simp only [Bool.true_eq_false, if_false, deref_live env hagain]
        have hdref : Quietly
            (((s.emit (.fetchRow k)).emit (.deref p.ref true)).emit (.write p.sockfd (.online temp) true))
            ((((s.emit (.fetchRow k)).emit (.deref p.ref true)).emit (.write p.sockfd (.online temp) true)).emit
              (.deref p.ref true)) := Quietly.refl.emit fun _ => rfl
        refine Around.behind hdref ?_
        have ha₂ := hwritten.calmly hdref.calmly
        obtain ⟨Y, hY⟩ := ha₂.write fd (m := .online p.toOnlineNode) Msg.noConfusion
        have hback := ha₂.written fd (.online p.toOnlineNode)
        generalize ((((s.emit (.fetchRow k)).emit (.deref p.ref true)).emit (.write p.sockfd (.online temp) true)).emit
          (.deref p.ref true)) = s₂ at hY hback ⊢
        cases hreply : env.write s₂.log fd (.online p.toOnlineNode) with
        | false =>
          rw [writeServer_false hreply] at hY ⊢
          exact hY.around
        | true =>
          have hopen' : .close fd ∉ Y := hY.spares hears fun _ => hreply
          refine hY.then cascade_writeServer.sublist.subset (Or.inl rfl) hopen' ?_
          rw [writeServer_true hreply] at hback ⊢
          exact ih hback

/-- With nobody online it only reads the rows. -/
theorem exchange_quietly {temp : OnlineNode} (h : ∀ f ∈ rows, s.pOnline.searchList f .byId = none) :
    Quietly s (s.exchangeOnline env fd temp k rows) := by
  induction rows generalizing s with
  | nil => exact Quietly.refl.emit fun _ => rfl
  | cons f rows ih =>
    simp only [exchangeOnline, emit_pOnline]
    rw [h f List.mem_cons_self]
    exact (Quietly.refl.emit fun _ => rfl).trans (ih fun f' hf' => h f' (List.mem_cons_of_mem _ hf'))

/-- The friend table of `id` can be read. -/
def Legible (env : Env) (s : Server) (id : Int) : Prop :=
  (s.db.table id).isSome ∧ ∀ evs, env.sql (s.log ++ evs) (.selectFriends id) = true

/-- A login whose connection nothing fails on but the farewell, and that only if it is not sent; or one whose
connection is its own and parts well, with the confirmation, `OP_OFFLINE` and the `OP_ONLINE` about itself going out
there; or one with nobody to tell. -/
def Welcomes (env : Env) (s : Server) (fd : Int) (user : User) (addr : SockAddr) : Prop :=
  (Steady env s.log fd ∧ (Parts env s.log fd ∨ Legible env s user.id)) ∨
    (Parts env s.log fd ∧ 0 ≤ user.id ∧ (∀ n ∈ s.pOnline.nodes, n.sockfd ≠ fd) ∧
      ((GoesOut env s.log fd (.loginFeedback 0) ∧ Hears env s.log fd ∧
          GoesOut env s.log fd (.online ⟨user.id, fd, addr⟩)) ∨
        (Legible env s user.id ∧
          ∀ f ∈ s.db.friends user.id, f ≠ user.id ∧ s.pOnline.searchList f .byId = none)))

theorem Legible.answered (h : Legible env s id) (hl : s.log <+: s'.log) (hdb : s'.db = s.db) :
    (s'.answer env (.selectFriends id)).1 = .ok := by
  obtain ⟨evs, hl⟩ := hl
  unfold answer Database.exec
  rw [if_pos (hl ▸ h.2 evs), hdb]
  dsimp only
  rw [if_pos h.1]

/-- The session of a login, on its own connection or on a steady one. -/
theorem Apart.withSession {addr : SockAddr} (ha : Apart env past s) (hnew : ∀ n ∈ s.pOnline.nodes, n.id ≠ user.id)
    (hfd : Steady env past fd ∨ (Parts env past fd ∧ 0 ≤ user.id ∧ ∀ n ∈ s.pOnline.nodes, n.sockfd ≠ fd)) :
    Apart env past (withSession fd user addr s) where
  ids := ha.ids.cons hnew
  since := ha.since.trans ⟨[.getpeername fd true], rfl⟩
  own := by
    intro n hn
    rcases List.mem_cons.1 hn with rfl | hn
    · refine hfd.imp_right fun hown => ?_
      obtain ⟨hparts, hid, hnone⟩ := hown
      refine ⟨hparts, hid, fun n' hn' hx => ?_⟩
      rcases List.mem_cons.1 hn' with rfl | hn'
      · rfl
      · exact absurd hx (hnone n' hn')
    · by_cases hst : Steady env past n.sockfd
      · exact Or.inl hst
      refine Or.inr ?_
      obtain ⟨hparts, hid, halone⟩ := (ha.own n hn).resolve_left hst
      refine ⟨hparts, hid, fun n' hn' hx => ?_⟩
      rcases List.mem_cons.1 hn' with rfl | hn'
      · -- the new session is on `fd`
        rcases hfd with hsteady | ⟨-, -, hnone⟩
        · exact absurd (hx ▸ hsteady) hst
        · exact absurd hx.symm (hnone n hn)
      · exact halone n' hn' hx

/-- **A login that has passed its checks.** -/
theorem openSession_tidied {addr : SockAddr} (hq : Quietly s s₁) (hdb : s₁.db = s.db) (ha : Apart env s.log s)
    (hnew : ∀ n ∈ s.pOnline.nodes, n.id ≠ user.id) (haddr : env.getpeername s₁.log fd = some addr)
    (h : Welcomes env s fd user addr) : Tidied s (s₁.openSession env fd user k) := by
  have hfd : Steady env s.log fd ∨ (Parts env s.log fd ∧ 0 ≤ user.id ∧ ∀ n ∈ s₁.pOnline.nodes, n.sockfd ≠ fd) := by
    rw [hq.1]
    exact h.imp And.left fun h => ⟨h.1, h.2.1, h.2.2.1⟩
  have ht : Apart env s.log (withSession fd user addr s₁) :=
    (ha.calmly hq.calmly).withSession (by rwa [hq.1]) hfd
  have hstart : Calmly s s₁ := hq.calmly
  have hafter : ∀ {s' : Server}, Tidied (withSession fd user addr s₁) s' → Tidied s s' := by
    rintro s' ⟨evs, hl, htidy⟩
    refine hstart.before ⟨.getpeername fd true :: evs, by rw [hl]; simp [withSession], ?_⟩
    exact tidy_append.2 ⟨tidy_of_open (X := [.getpeername fd true]) (by simp), htidy, by simp⟩
  have hlog : s.log <+: (greeted env fd user addr s₁).log := ht.since.trans cascade_writeServer.log_extends
  have hgdb : (greeted env fd user addr s₁).db = s.db := (cascade_writeServer.db_eq).trans hdb
  have hquery : ∀ {t : Server}, Quietly t (t.query env (.selectFriends user.id)) := Quietly.refl.query env _
  -- what is written to the connection goes out, but for the `OP_ONLINE` about others
  have hheard : GoesOut env s.log fd (.loginFeedback 0) → Hears env s.log fd →
      GoesOut env s.log fd (.online ⟨user.id, fd, addr⟩) → (Parts env s.log fd ∨ Legible env s user.id) →
      Tidied s (s₁.openSession env fd user k) := by
    intro hgreet hears hself hend
    have hsent : greeted env fd user addr s₁ =
        (withSession fd user addr s₁).emit (.write fd (.loginFeedback 0) true) := by
      unfold greeted
      rw [writeServer_true (hgreet.sent ht.since)]
    have hcalm : Calmly (withSession fd user addr s₁)
        ((greeted env fd user addr s₁).query env (.selectFriends user.id)) := by
      rw [hsent]
      exact (Calmly.sent (Quietly.refl.calmly) fd _).trans hquery.calmly
    have hu := ht.calmly hcalm
    refine hafter (hcalm.before ?_)
    by_cases hok : ((greeted env fd user addr s₁).answer env (.selectFriends user.id)).1 = .ok
    · rw [openSession_friends k haddr hok]
      exact (exchange_around hu hears hself).tidied.quietly (Quietly.refl.mysqlEnd _)
    · rw [openSession_friendless k haddr hok]
      have hparts : Parts env s.log fd := hend.resolve_right fun hread => hok (hread.answered hlog hgdb)
      have hready : (Call.offline fd user.id).Ready env s.log
          ((greeted env fd user addr s₁).query env (.selectFriends user.id)) := by
        refine Or.inr ⟨hparts, hfd.imp_right fun hown n hn hx => ?_⟩
        obtain ⟨-, -, hnone⟩ := hown
        rw [hcalm.1] at hn
        rcases List.mem_cons.1 hn with rfl | hn
        · rfl
        · exact absurd hx (hnone n hn)
      obtain ⟨evs, hneat⟩ := cascade_offlineAction.neat hu hready
      exact hneat.tidied.quietly (Quietly.refl.mysqlEnd _)
  rcases h with ⟨hsteady, hend⟩ | ⟨hparts, hid, halone, ⟨hgreet, hears, hself⟩ | ⟨hread, hnobody⟩⟩
  · exact hheard (hsteady _ Msg.noConfusion) hsteady.hears (hsteady _ Msg.noConfusion) hend
  · exact hheard hgreet hears hself (Or.inl hparts)
  · -- whatever becomes of the confirmation, there is nobody to tell
    obtain ⟨evs, hneat⟩ := ht.write fd (m := .loginFeedback 0) Msg.noConfusion
    have hok : ((greeted env fd user addr s₁).answer env (.selectFriends user.id)).1 = .ok := hread.answered hlog hgdb
    rw [openSession_friends k haddr hok]
    refine hafter (hneat.tidied.quietly (hquery.trans ((exchange_quietly ?_).mysqlEnd _)))
    rw [query_selectFriends_db, hgdb]
    intro f hf
    obtain ⟨hne, hoff⟩ := hnobody f hf
    refine OnlineList.searchId_none.2 fun n hn => ?_
    have hw : Cascade env (.write fd (.loginFeedback 0)) (withSession fd user addr s₁) (greeted env fd user addr s₁) :=
      cascade_writeServer
    rcases List.mem_cons.1 (hw.sublist.subset hn) with rfl | hmem
    · exact hne.symm
    · rw [emit_pOnline, hq.1] at hmem
      exact OnlineList.searchId_none.1 hoff n hmem

/-! ## `allow_addf_action` -/

/-- An approval whose answer goes out, and the requester gets the node of the other side, or that side hears that the
requester is gone. -/
def Introduces (env : Env) (s : Server) (src dst : Int) (psrc pdst : Node) : Prop :=
  GoesOut env s.log psrc.sockfd (.allowAddf src dst 1) ∧
    (GoesOut env s.log psrc.sockfd (.online pdst.toOnlineNode) ∨ Hears env s.log pdst.sockfd)

/-- **The nodes of both sides.** -/
theorem introduce_tidied {psrc pdst : Node} (ha : Apart env past s) (hp : psrc ∈ s.pOnline.nodes)
    (hd : pdst ∈ s.pOnline.nodes) (hne : psrc.id ≠ pdst.id)
    (h : GoesOut env past psrc.sockfd (.online pdst.toOnlineNode) ∨ Hears env past pdst.sockfd) :
    Tidied s (s.introduce env (some psrc) (some pdst)) := by
  have hread : Quietly s ((s.emit (.deref psrc.ref true)).emit (.deref pdst.ref true)) :=
    (Quietly.refl.emit fun _ => rfl).emit fun _ => rfl
  have hd' : pdst ∈ (s.emit (.deref psrc.ref true)).pOnline.nodes := hd
  have ha₁ := ha.calmly hread.calmly
  unfold introduce
  dsimp only
  rw [deref_live env hp]
  dsimp only
  rw [deref_live env hd']
  dsimp only
  have hp₁ : psrc ∈ ((s.emit (.deref psrc.ref true)).emit (.deref pdst.ref true)).pOnline.nodes := hp
  have hd₁ : pdst ∈ ((s.emit (.deref psrc.ref true)).emit (.deref pdst.ref true)).pOnline.nodes := hd
  generalize (s.emit (.deref psrc.ref true)).emit (.deref pdst.ref true) = s₁ at hread ha₁ hp₁ hd₁ ⊢
  obtain ⟨X, hX⟩ := ha₁.write psrc.sockfd (m := .online pdst.toOnlineNode) Msg.noConfusion
  have ha₂ := ha₁.written psrc.sockfd (.online pdst.toOnlineNode)
  -- the other side is still there, and its connection open
  have hleft : pdst ∈ (s₁.writeServer env psrc.sockfd (.online pdst.toOnlineNode)).1.pOnline.nodes ∧
      .close pdst.sockfd ∉ X := by
    cases hw : env.write s₁.log psrc.sockfd (.online pdst.toOnlineNode) with
    | true =>
      rw [writeServer_true hw] at hX ⊢
      have hl : [Event.write psrc.sockfd (.online pdst.toOnlineNode) true] = X := List.append_cancel_left hX.log
      exact ⟨hd₁, by simp [← hl]⟩
    | false =>
      have hears : Hears env past pdst.sockfd := h.resolve_left (GoesOut.not_failed ha₁.since hw)
      have hother : psrc.sockfd ≠ pdst.sockfd := by
        intro hx
        obtain ⟨-, -, halone⟩ := (ha₁.own psrc hp₁).resolve_left (Steady.not_failed ha₁.since Msg.noConfusion hw)
        exact hne (congrArg (fun n : Node => n.id) (halone pdst hd₁ hx.symm)).symm
      exact ⟨hX.write_kept hd₁ hears fun hshut => hother hshut.1.symm,
        hX.spares hears fun hx => absurd hx hother⟩
  obtain ⟨hleft, hopen⟩ := hleft
  rw [deref_live env hleft]
  dsimp only
  have hquiet := (Quietly.refl.emit (e := .deref pdst.ref true) fun _ => rfl).deref
    (s := (s₁.writeServer env psrc.sockfd (.online pdst.toOnlineNode)).1) env psrc
  have ha₃ := ha₂.calmly hquiet.calmly
  obtain ⟨Y, hY⟩ := ha₃.write pdst.sockfd (m := .online (((s₁.writeServer env psrc.sockfd
    (.online pdst.toOnlineNode)).1.emit (.deref pdst.ref true)).deref env psrc).2) Msg.noConfusion
  have hrest : Around pdst.sockfd (s₁.writeServer env psrc.sockfd (.online pdst.toOnlineNode)).1 _ :=
    hY.around.behind hquiet
  exact hread.calmly.before (hX.then cascade_writeServer.sublist.subset (Or.inr ⟨psrc, hp₁, rfl⟩) hopen hrest).tidied

/-! ## Every event -/

/-- What a handler that tears down itself, or goes on behind a `Write`, needs beside. -/
def Server.Sure (env : Env) (s : Server) : Act → Prop
  | .hangup fd => Parts env s.log fd
  | .frame fd (.offline id) => Parts env s.log fd ∧
      (Steady env s.log fd ∨ ∀ n ∈ s.pOnline.nodes, n.sockfd = fd → n.id = id)
  | .frame fd (.login user) => s.Admits user → ∀ addr,
      env.getpeername (lookedUp env user s.log.length s).log fd = some addr → Welcomes env s fd user addr
  | .frame _ (.allowAddf src dst v) => v = 1 → s.db.Pairs src dst → ∀ psrc pdst,
      s.pOnline.searchList src .byId = some psrc → s.pOnline.searchList dst .byId = some pdst →
        Introduces env s src dst psrc pdst
  | _ => True

/-- The failures that an event may meet: all of them where it tears nothing down. -/
def Server.Orderly (env : Env) (s : Server) (a : Act) : Prop :=
  s.Inert a ∨ (Uncrowded env s.log s.pOnline.nodes ∧ s.Sure env a)

theorem loginAction_tidied (ha : Apart env s.log s) (h : s.Sure env (.frame fd (.login user))) :
    Tidied s (s.loginAction env fd user) := by
  by_cases had : s.Admits user ∧ (s.answer env (.selectUser user.id)).1 = .ok
  swap
  · exact (loginAction_once had).tidied ha
  rw [loginAction_admitted (answer_ok had.2) had.1]
  have hq := lookedUp_quietly env user s
  cases haddr : env.getpeername (lookedUp env user s.log.length s).log fd with
  | some addr =>
    exact openSession_tidied hq query_selectUser_db ha (OnlineList.searchId_none.1 had.1.2) haddr (h had.1 addr haddr)
  | none =>
    -- the connection is closed, and nothing else
    rw [openSession_unnamed user (some s.log.length) haddr, offlineAction_neg (by decide)]
    refine hq.calmly.before (Tidied.quietly ⟨[.getpeername fd false, .epollDel fd] ++ [.close fd], by simp, ?_⟩
      (Quietly.refl.mysqlEnd _))
    exact tidy_append.2 ⟨tidy_of_open (by simp), fun _ => List.pairwise_singleton .., by simp⟩

theorem allowAddfAction_tidied {v : Int} (ha : Apart env s.log s) (h : s.Sure env (.frame fd (.allowAddf src dst v))) :
    Tidied s (s.allowAddfAction env src dst v) := by
  by_cases hno : v = 1 → BothOk env src dst s →
      s.pOnline.searchList src .byId = none ∨ s.pOnline.searchList dst .byId = none
  · rcases allowAddfAction_once hno with hq | ⟨p, -, -, hw⟩
    · exact hq.calmly.tidied
    · exact hw.tidied ha
  push Not at hno
  obtain ⟨rfl, hboth, hsrc, hdst⟩ := hno
  obtain ⟨psrc, hp⟩ := Option.ne_none_iff_exists'.1 hsrc
  obtain ⟨pdst, hd⟩ := Option.ne_none_iff_exists'.1 hdst
  obtain ⟨hout, hrest⟩ := h rfl (bothOk_pairs hboth) psrc pdst hp hd
  obtain ⟨k, heq⟩ := ((approve_cases env src dst s).resolve_right fun h => h.1 hboth).2
  rw [heq, hp, hd]
  have hins : Quietly s ((bothInserts env src dst s).emit (.deref psrc.ref true)) :=
    (bothInserts_quietly env src dst s).emit fun _ => rfl
  have hmem : psrc ∈ (bothInserts env src dst s).pOnline.nodes := (OnlineList.searchId_some hp).1
  have hanswer : (bothInserts env src dst s).answerRequest env (some psrc) src dst 1 =
      ((bothInserts env src dst s).emit (.deref psrc.ref true)).emit
        (.write psrc.sockfd (.allowAddf src dst 1) true) := by
    unfold answerRequest
    dsimp only
    rw [deref_live env hmem, writeServer_true (hout.sent hins.log_extends)]
  rw [hanswer]
  have hcalm := hins.calmly.sent psrc.sockfd (.allowAddf src dst 1)
  have hne : psrc.id ≠ pdst.id := by
    rw [(OnlineList.searchId_some hp).2, (OnlineList.searchId_some hd).2]
    exact (bothOk_pairs hboth).1
  refine (hcalm.before ?_).quietly (Quietly.refl.mysqlEnd k)
  exact introduce_tidied (ha.calmly hcalm) hmem (OnlineList.searchId_some hd).1 hne hrest

/-- **Where things fail as they may, an event is tidy.** -/
theorem orderly_tidied {a : Act} (hids : OneSession s) (h : s.Orderly env a) : Tidied s (s.act env a) := by
  rcases h with hinert | ⟨hown, hsure⟩
  · exact inert_tidied env s hinert
  have ha : Apart env s.log s := ⟨hids, List.prefix_refl _, hown⟩
  have hoff : ∀ {fd id : Int}, (Call.offline fd id).Ready env s.log s → Tidied s (s.offlineAction env fd id) := by
    intro fd id hready
    obtain ⟨evs, hneat⟩ := cascade_offlineAction.neat ha hready
    exact hneat.tidied
  have hquiet : ∀ {s' : Server}, Quietly s s' → Tidied s s' := fun h => h.calmly.tidied
  cases a with
  | accept fd => exact ⟨[.accept fd], rfl, tidy_of_open (by simp)⟩
  | hangup fd =>
    refine hoff (Or.inr ⟨hsure, ?_⟩)
    by_cases hst : Steady env s.log fd
    · exact Or.inl hst
    · exact Or.inr fun n hn hx => (ha.session hst hn hx).1
  | frame fd f =>
    cases f with
    | register user =>
      rcases registerAction_once env fd user s with hq | hw
      · exact hquiet hq
      · exact hw.tidied ha
    | login user => exact loginAction_tidied ha hsure
    | heartbeat id => exact hquiet .refl
    | offline id => exact hoff (Or.inr hsure)
    | addFriend src dst =>
      obtain ⟨x, hw, -⟩ := addFriendAction_once env fd src dst s
      exact hw.tidied ha
    | allowAddf src dst v => exact allowAddfAction_tidied ha hsure
    | other op => exact hquiet .refl

/-- **Descriptors are closed once and not used afterwards.** At every step of every run: whatever fails, exactly where
nothing can be torn down; and for one pattern of failures, where it is orderly. -/
theorem closed_once {tr : List (Server × Act)} (hr : (lts env).Run (fun _ _ => True) tr s) :
    ∀ s₁ a, (s₁, a) ∈ tr →
      ((∀ env', Tidy (s₁.news (s₁.act env' a))) ↔ s₁.Inert a) ∧
        ∀ env', s₁.Orderly env' a → Tidy (s₁.news (s₁.act env' a)) := by
  intro s₁ a hmem
  obtain ⟨before, after, htr⟩ := List.append_of_mem hmem
  have hids : OneSession s₁ := run_oneSession (hr.before htr).1
  have htidy : ∀ env', Tidied s₁ (s₁.act env' a) ↔ Tidy (s₁.news (s₁.act env' a)) :=
    fun env' => Tidied.iff (act_extends env' s₁ a)
  refine ⟨?_, fun env' h => (htidy env').1 (orderly_tidied hids h)⟩
  rw [← inert_iff]
  exact forall_congr' fun env' => (htidy env').symm

/-- User 1 logs in on the connection 5, and its client goes away. -/
def visit : List Act := [.accept 5, .frame 5 (.login ⟨1, [], []⟩), .hangup 5]

/-- Nothing fails when the session is torn down. -/
theorem closed_once_visit : Tidy (((visit.take 2).foldl (act calm) (boot pairDb)).news
    (visit.foldl (act calm) (boot pairDb))) := by
  have h₀ : (lts calm).Run (fun _ _ => True) [] (boot pairDb) := .start ⟨pairDb, rfl⟩
  have h₁ := h₀.next (a := .accept 5) trivial ⟨by decide, rfl⟩
  have h₂ := h₁.next (a := .frame 5 (.login ⟨1, [], []⟩)) trivial ⟨by decide, rfl⟩
  have h₃ := h₂.next (a := .hangup 5) trivial ⟨by decide, rfl⟩
  refine (closed_once h₃ _ _ List.mem_concat_self).2 calm (Or.inr ⟨fun n _ => Or.inl ?_, ?_⟩)
  · exact fun _ _ _ => rfl
  · exact fun _ => rfl

/-- The farewell is lost. -/
def coldly : Env := { calm with write := fun _ _ m => m ≠ .allowDisconnect }

/-- **A descriptor is closed twice**: the farewell to a client that has gone fails, and both calls of
`offline_action` close its descriptor. -/
theorem closed_once_breaks :
    ∃ env tr s s₁ a, (lts env).Run (fun _ _ => True) tr s ∧ (s₁, a) ∈ tr ∧ ¬ Tidy (s₁.news (s₁.act env a)) := by
  have h₀ : (lts coldly).Run (fun _ _ => True) [] (boot pairDb) := .start ⟨pairDb, rfl⟩
  have h₁ := h₀.next (a := .accept 5) trivial ⟨by decide, rfl⟩
  have h₂ := h₁.next (a := .frame 5 (.login ⟨1, [], []⟩)) trivial ⟨by decide, rfl⟩
  have h₃ := h₂.next (a := .hangup 5) trivial ⟨by decide, rfl⟩
  exact ⟨coldly, _, _, _, _, h₃, List.mem_concat_self, fun h => absurd (h 5) (by decide)⟩

end UnixNote
