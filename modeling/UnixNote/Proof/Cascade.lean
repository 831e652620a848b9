import UnixNote.Chat.Server

/-!
# The teardown cascade

`Cascade` gives the mutual recursion of `offline_action` and `Write_server` as a
derivation, one rule for each way through the two functions. The executable
`offlineFuel` follows the rules (`offlineFuel_cascade`), a depth of two more than
the length of the online list is always enough (`offlineFuel_some`), so
`offlineAction` and `writeServer` are derivations (`cascade_offlineAction`,
`cascade_writeServer`), and a call has one outcome (`Cascade.det`). Everything
proved about the teardown is an induction over derivations.
-/

namespace UnixNote

/-- A call inside the recursion: `offline_action`, the rest of its loop over the rows
of a friend table, or `Write_server`. -/
inductive Call where
  | offline (confd id : Int)
  | notify (id : Int) (conn : Nat) (rows : List Int)
  | write (fd : Int) (m : Msg)

open Server

/-- The state in which `offline_action(confd, id)` starts to tell the friends: `confd` is
out of the epoll instance, `id` out of the list, the friend table selected. -/
def cut (env : Env) (confd id : Int) (s : Server) : Server :=
  ((s.epollDel confd).delList id).query env (.selectFriends id)

/-- The connection of that select, if it succeeds. -/
def cutConn (env : Env) (confd id : Int) (s : Server) : Option Nat :=
  (((s.epollDel confd).delList id).mysqlGo env (.selectFriends id)).2

/-- `Cascade env c s s'`: the call `c` from state `s` returns in state `s'`. -/
inductive Cascade (env : Env) : Call → Server → Server → Prop
  | offlineNeg {confd id : Int} {s : Server} :
      id < 0 → Cascade env (.offline confd id) s ((s.epollDel confd).close confd)
  | offlineRows {confd id : Int} {c : Nat} {s s₁ s₂ : Server} :
      0 ≤ id → cutConn env confd id s = some c →
      Cascade env (.notify id c (s.db.friends id)) (cut env confd id s) s₁ →
      Cascade env (.write confd .allowDisconnect) s₁ s₂ →
      Cascade env (.offline confd id) s ((s₂.mysqlEnd (some c)).close confd)
  | offlineNoDb {confd id : Int} {s s₁ : Server} :
      0 ≤ id → cutConn env confd id s = none →
      Cascade env (.write confd .allowDisconnect) (cut env confd id s) s₁ →
      Cascade env (.offline confd id) s ((s₁.mysqlEnd none).close confd)
  | notifyEnd {id : Int} {c : Nat} {s : Server} :
      Cascade env (.notify id c []) s (s.emit (.fetchRow (some c)))
  | notifySkip {id f : Int} {c : Nat} {rows : List Int} {s s' : Server} :
      s.pOnline.searchList f .byId = none →
      Cascade env (.notify id c rows) (s.emit (.fetchRow (some c))) s' →
      Cascade env (.notify id c (f :: rows)) s s'
  | notifySend {id f : Int} {c : Nat} {rows : List Int} {p : Node} {s s₁ s' : Server} :
      s.pOnline.searchList f .byId = some p →
      Cascade env (.write p.sockfd (.offline id))
        ((s.emit (.fetchRow (some c))).emit (.deref p.ref true)) s₁ →
      Cascade env (.notify id c rows) s₁ s' →
      Cascade env (.notify id c (f :: rows)) s s'
  | writeOk {fd : Int} {m : Msg} {s : Server} :
      env.write s.log fd m = true → Cascade env (.write fd m) s (s.emit (.write fd m true))
  | writeFail {fd : Int} {m : Msg} {s s' : Server} :
      env.write s.log fd m = false →
      Cascade env (.offline fd (s.sessionId fd)) (s.emit (.write fd m false)) s' →
      Cascade env (.write fd m) s s'

variable {env : Env} {c : Call} {s s' s₁ s₂ : Server} {fd id confd : Int} {m : Msg}

/-- Selecting from a friend table changes no table. -/
theorem query_selectFriends_db : (s.query env (.selectFriends id)).db = s.db := by
  show (s.answer env (.selectFriends id)).2 = s.db
  unfold answer Database.exec
  split
  · dsimp only; split <;> rfl
  · rfl

@[simp] theorem cut_pOnline : (cut env confd id s).pOnline = s.pOnline.delList id .byId := rfl
@[simp] theorem cut_opened : (cut env confd id s).opened = s.opened := rfl
@[simp] theorem cut_epfd : (cut env confd id s).epfd = s.epfd.filter (· ≠ confd) := rfl
@[simp] theorem cut_db : (cut env confd id s).db = s.db := query_selectFriends_db

/-! ## The recursion follows the rules -/

theorem writeServerWith_cascade {off : Int → Int → Server → Option Server}
    (hoff : ∀ confd id s s', off confd id s = some s' → Cascade env (.offline confd id) s s')
    (h : writeServerWith env off fd m s = some s') : Cascade env (.write fd m) s s' := by
  unfold writeServerWith write at h
  cases hw : env.write s.log fd m with
  | true =>
    simp only [hw, if_true, Option.some.injEq] at h
    subst h; exact .writeOk hw
  | false =>
    simp only [hw, Bool.false_eq_true, if_false] at h
    exact .writeFail hw (hoff _ _ _ _ h)

theorem notifyFriends_cascade {off : Int → Int → Server → Option Server}
    (hoff : ∀ confd id s s', off confd id s = some s' → Cascade env (.offline confd id) s s')
    {conn : Nat} {rows : List Int} (h : notifyFriends env off id (some conn) rows s = some s') :
    Cascade env (.notify id conn rows) s s' := by
  induction rows generalizing s with
  | nil =>
    simp only [notifyFriends, Option.some.injEq] at h
    subst h; exact .notifyEnd
  | cons f rows ih =>
    simp only [notifyFriends, emit_pOnline] at h
    cases hp : s.pOnline.searchList f .byId with
    | none => rw [hp] at h; exact .notifySkip hp (ih h)
    | some p =>
      rw [hp] at h
      -- the pointer is read right after the search, so its node is still there
      have hmem : p ∈ (s.emit (.fetchRow (some conn))).pOnline.nodes := (OnlineList.searchId_some hp).1
      simp only [deref_live env hmem] at h
      split at h
      · cases h
      · rename_i s₁ hw
        exact .notifySend hp (writeServerWith_cascade hoff hw) (ih h)

/-- One level of the recursion, with the rows the select of the friend table returned. -/
theorem offlineFuel_succ {fuel : Nat} (hid : ¬ id < 0) :
    offlineFuel env (fuel + 1) confd id s =
      match (match cutConn env confd id s with
        | some c => notifyFriends env (offlineFuel env fuel) id (some c) (s.db.friends id) (cut env confd id s)
        | none => some (cut env confd id s)) with
      | none => none
      | some s₁ =>
        match writeServerWith env (offlineFuel env fuel) confd .allowDisconnect s₁ with
        | none => none
        | some s₂ => some ((s₂.mysqlEnd (cutConn env confd id s)).close confd) := by
  have hdb : (cut env confd id s).db = s.db := cut_db
  rw [← hdb]
  conv_lhs => unfold offlineFuel
  rw [if_neg hid]
  show (match (match cutConn env confd id s with
      | some _ => notifyFriends env (offlineFuel env fuel) id (cutConn env confd id s)
          ((cut env confd id s).db.friends id) (cut env confd id s)
      | none => some (cut env confd id s)) with
    | none => none
    | some s₁ =>
      match writeServerWith env (offlineFuel env fuel) confd .allowDisconnect s₁ with
      | none => none
      | some s₂ => some ((s₂.mysqlEnd (cutConn env confd id s)).close confd)) = _
  cases cutConn env confd id s <;> rfl

/-- **Whatever depth suffices, the result is that of the rules.** -/
theorem offlineFuel_cascade {fuel : Nat} (h : offlineFuel env fuel confd id s = some s') :
    Cascade env (.offline confd id) s s' := by
  induction fuel generalizing confd id s s' with
  | zero => simp [offlineFuel] at h
  | succ fuel ih =>
    have hoff : ∀ confd id s s', offlineFuel env fuel confd id s = some s' →
        Cascade env (.offline confd id) s s' := fun _ _ _ _ h => ih h
    by_cases hneg : id < 0
    · simp only [offlineFuel, if_pos hneg, Option.some.injEq] at h
      subst h; exact .offlineNeg hneg
    have hid : 0 ≤ id := by omega
    rw [offlineFuel_succ hneg] at h
    cases hc : cutConn env confd id s with
    | some c =>
      simp only [hc] at h
      split at h
      · cases h
      rename_i s₁ hn
      split at h
      · cases h
      rename_i s₂ hw
      cases h
      exact .offlineRows hid hc (notifyFriends_cascade hoff hn) (writeServerWith_cascade hoff hw)
    | none =>
      simp only [hc] at h
      split at h
      · cases h
      rename_i s₁ hw
      cases h
      exact .offlineNoDb hid hc (writeServerWith_cascade hoff hw)

/-! ## What a cascade leaves alone -/

/-- A cascade only removes nodes. -/
theorem Cascade.sublist (h : Cascade env c s s') : s'.pOnline.nodes.Sublist s.pOnline.nodes := by
  induction h with
  | offlineNeg _ => exact List.Sublist.refl _
  | offlineRows _ _ _ _ ih₁ ih₂ => exact (ih₂.trans ih₁).trans (OnlineList.delList_sublist _)
  | offlineNoDb _ _ _ ih => exact ih.trans (OnlineList.delList_sublist _)
  | notifyEnd => exact List.Sublist.refl _
  | notifySkip _ _ ih => exact ih
  | notifySend _ _ _ ih₁ ih₂ => exact ih₂.trans ih₁
  | writeOk _ => exact List.Sublist.refl _
  | writeFail _ _ ih => exact ih

/-- A cascade does not change the database. -/
theorem Cascade.db_eq (h : Cascade env c s s') : s'.db = s.db := by
  induction h with
  | offlineNeg _ => rfl
  | offlineRows _ _ _ _ ih₁ ih₂ => simp only [close_db, mysqlEnd_db, ih₂, ih₁, cut_db]
  | offlineNoDb _ _ _ ih => simp only [close_db, mysqlEnd_db, ih, cut_db]
  | notifyEnd => rfl
  | notifySkip _ _ ih => exact ih
  | notifySend _ _ _ ih₁ ih₂ => simp only [ih₂, ih₁, emit_db]
  | writeOk _ => rfl
  | writeFail _ _ ih => exact ih

theorem query_log_extends {q : Stmt} : s.log <+: (s.query env q).log := ⟨_, rfl⟩

/-- A cascade appends to the log. -/
theorem Cascade.log_extends (h : Cascade env c s s') : s.log <+: s'.log := by
  have hcut : ∀ {confd id : Int} {s : Server}, s.log <+: (cut env confd id s).log :=
    fun {confd id s} => (show s.log <+: ((s.epollDel confd).delList id).log from ⟨_, rfl⟩).trans query_log_extends
  induction h with
  | offlineNeg _ => simp only [close_log, epollDel_log, List.append_assoc, List.prefix_append]
  | offlineRows _ _ _ _ ih₁ ih₂ =>
    refine ((hcut.trans ih₁).trans ih₂).trans ?_
    simp only [close_log, mysqlEnd_log, List.append_assoc, List.prefix_append]
  | offlineNoDb _ _ _ ih =>
    refine (hcut.trans ih).trans ?_
    simp only [close_log, mysqlEnd_log, List.append_assoc, List.prefix_append]
  | notifyEnd => exact ⟨_, rfl⟩
  | notifySkip _ _ ih => exact List.IsPrefix.trans ⟨_, rfl⟩ ih
  | notifySend _ _ _ ih₁ ih₂ =>
    refine List.IsPrefix.trans ?_ (ih₁.trans ih₂)
    simp only [emit_log, List.append_assoc, List.prefix_append]
  | writeOk _ => exact ⟨_, rfl⟩
  | writeFail _ _ ih => exact List.IsPrefix.trans ⟨_, rfl⟩ ih

/-- **A call has one outcome.** -/
theorem Cascade.det (h : Cascade env c s s₁) (h' : Cascade env c s s₂) : s₁ = s₂ := by
  induction h generalizing s₂ with
  | offlineNeg hid =>
    cases h' with
    | offlineNeg _ => rfl
    | offlineRows hid' => omega
    | offlineNoDb hid' => omega
  | offlineRows hid hc _ _ ih₁ ih₂ =>
    cases h' with
    | offlineNeg hid' => omega
    | offlineRows _ hc' hn hw =>
      cases hc.symm.trans hc'
      cases ih₁ hn
      cases ih₂ hw; rfl
    | offlineNoDb _ hc' => cases hc.symm.trans hc'
  | offlineNoDb hid hc _ ih =>
    cases h' with
    | offlineNeg hid' => omega
    | offlineRows _ hc' => cases hc.symm.trans hc'
    | offlineNoDb _ _ hw => cases ih hw; rfl
  | notifyEnd => cases h'; rfl
  | notifySkip hf _ ih =>
    cases h' with
    | notifySkip _ hn => exact ih hn
    | notifySend hf' => cases hf.symm.trans hf'
  | notifySend hf _ _ ih₁ ih₂ =>
    cases h' with
    | notifySkip hf' => cases hf.symm.trans hf'
    | notifySend hf' hw hn =>
      cases hf.symm.trans hf'
      cases ih₁ hw
      exact ih₂ hn
  | writeOk hw =>
    cases h' with
    | writeOk _ => rfl
    | writeFail hw' => cases hw.symm.trans hw'
  | writeFail hw _ ih =>
    cases h' with
    | writeOk hw' => cases hw.symm.trans hw'
    | writeFail _ ho => exact ih ho

/-! ## The recursion ends -/

/-- The depth `offline_action(confd, id)` needs: one call for a negative id, else two more
than the nodes that are left once `id` is removed. -/
def depth (id : Int) (s : Server) : Nat :=
  if id < 0 then 1 else (s.pOnline.delList id .byId).nodes.length + 2

theorem depth_le : depth id s ≤ s.pOnline.nodes.length + 2 := by
  have := (OnlineList.delList_sublist (l := s.pOnline) (k := id) .byId).length_le
  unfold depth
  split <;> omega

/-- The teardown of a failed write needs one level more than there are nodes: it finds
no node and only closes, or it removes the node it found. -/
theorem depth_sessionId : depth (s.sessionId fd) s ≤ s.pOnline.nodes.length + 1 := by
  unfold depth sessionId
  cases hp : s.pOnline.searchList fd .bySockfd with
  | none => simp
  | some p =>
    simp only
    split
    · omega
    have hmem := (OnlineList.searchSockfd_some hp).1
    have hlen : (s.pOnline.delList p.id .byId).nodes.length = s.pOnline.nodes.length - 1 := by
      rw [OnlineList.delList_nodes]
      exact List.length_eraseP_of_mem hmem (by simp [Flag.field])
    have hpos : 0 < s.pOnline.nodes.length := List.length_pos_of_mem hmem
    omega

theorem writeServerWith_some {fuel : Nat} (fd : Int) (m : Msg)
    (hoff : ∀ confd id s, depth id s ≤ fuel → ∃ s', offlineFuel env fuel confd id s = some s')
    (hs : s.pOnline.nodes.length + 1 ≤ fuel) :
    ∃ s', writeServerWith env (offlineFuel env fuel) fd m s = some s' := by
  unfold writeServerWith write
  cases env.write s.log fd m with
  | true => exact ⟨_, rfl⟩
  | false => exact hoff _ _ _ (Nat.le_trans depth_sessionId hs)

theorem notifyFriends_some {fuel : Nat} (id : Int) (conn : Nat) (rows : List Int)
    (hoff : ∀ confd id s, depth id s ≤ fuel → ∃ s', offlineFuel env fuel confd id s = some s')
    (hs : s.pOnline.nodes.length + 1 ≤ fuel) :
    ∃ s', notifyFriends env (offlineFuel env fuel) id (some conn) rows s = some s' := by
  induction rows generalizing s with
  | nil => exact ⟨_, rfl⟩
  | cons f rows ih =>
    simp only [notifyFriends, emit_pOnline]
    cases hp : s.pOnline.searchList f .byId with
    | none => exact ih hs
    | some p =>
      have hmem : p ∈ (s.emit (.fetchRow (some conn))).pOnline.nodes := (OnlineList.searchId_some hp).1
      simp only [deref_live env hmem]
      obtain ⟨s₁, hw⟩ := writeServerWith_some p.sockfd (.offline id) hoff
        (s := (s.emit (.fetchRow (some conn))).emit (.deref p.ref true)) hs
      simp only [hw]
      -- the nested teardown has only removed nodes
      have hle := (writeServerWith_cascade (fun _ _ _ _ => offlineFuel_cascade) hw).sublist.length_le
      exact ih (by simp only [emit_pOnline] at hle; omega)

/-- **The recursion ends**: a depth of `depth id s` suffices. -/
theorem offlineFuel_some {fuel : Nat} (h : depth id s ≤ fuel) :
    ∃ s', offlineFuel env fuel confd id s = some s' := by
  induction fuel generalizing confd id s with
  | zero => unfold depth at h; split at h <;> omega
  | succ fuel ih =>
    have hoff : ∀ confd id s, depth id s ≤ fuel → ∃ s', offlineFuel env fuel confd id s = some s' :=
      fun _ _ _ h => ih h
    by_cases hid : id < 0
    · refine ⟨(s.epollDel confd).close confd, ?_⟩
      simp only [offlineFuel, if_pos hid]
    rw [offlineFuel_succ hid]
    unfold depth at h
    rw [if_neg hid] at h
    have hlen : (cut env confd id s).pOnline.nodes.length + 1 ≤ fuel := by
      simp only [cut_pOnline]; omega
    cases cutConn env confd id s with
    | some c =>
      obtain ⟨s₁, hn⟩ := notifyFriends_some id c (s.db.friends id) hoff hlen
      have hle := (notifyFriends_cascade (fun _ _ _ _ => offlineFuel_cascade) hn).sublist.length_le
      obtain ⟨s₂, hw⟩ := writeServerWith_some confd .allowDisconnect hoff
        (s := s₁) (by omega)
      simp only [hn, hw]; exact ⟨_, rfl⟩
    | none =>
      obtain ⟨s₂, hw⟩ := writeServerWith_some confd .allowDisconnect hoff hlen
      simp only [hw]; exact ⟨_, rfl⟩

/-- **`offline_action` is a cascade.** -/
theorem cascade_offlineAction : Cascade env (.offline confd id) s (s.offlineAction env confd id) := by
  obtain ⟨s', h⟩ : ∃ s', offlineFuel env (s.pOnline.nodes.length + 2) confd id s = some s' :=
    offlineFuel_some depth_le
  unfold offlineAction
  rw [h]; exact offlineFuel_cascade h

/-- **Every sufficient depth gives the result of `offline_action`.** -/
theorem offlineFuel_eq {fuel : Nat} (h : depth id s ≤ fuel) :
    offlineFuel env fuel confd id s = some (s.offlineAction env confd id) := by
  obtain ⟨s', hs'⟩ : ∃ s', offlineFuel env fuel confd id s = some s' := offlineFuel_some h
  rw [hs', (offlineFuel_cascade hs').det cascade_offlineAction]

/-- **`Write_server` is a cascade.** -/
theorem cascade_writeServer : Cascade env (.write fd m) s (s.writeServer env fd m).1 := by
  unfold writeServer write
  cases hw : env.write s.log fd m with
  | true => exact .writeOk hw
  | false => exact .writeFail hw cascade_offlineAction

/-! ## Single calls -/

theorem cut_log : (cut env confd id s).log = s.log ++ [.epollDel confd, .query (.selectFriends id)
    (((s.epollDel confd).delList id).answer env (.selectFriends id)).1] := by
  simp [cut]

theorem cut_extends : s.log <+: (cut env confd id s).log := ⟨_, cut_log.symm⟩

/-- A write that goes out is one event. -/
theorem writeServer_true (h : env.write s.log fd m = true) :
    s.writeServer env fd m = (s.emit (.write fd m true), true) := by
  unfold writeServer write
  dsimp only
  rw [h]
  rfl

/-- A write that fails tears down what belongs to its descriptor. -/
theorem writeServer_false (h : env.write s.log fd m = false) :
    s.writeServer env fd m = ((s.emit (.write fd m false)).offlineAction env fd (s.sessionId fd), false) := by
  unfold writeServer write
  dsimp only
  rw [h]
  rfl

/-- `Write_server` begins with its `Write`. -/
theorem writeServer_begins (env : Env) (fd : Int) (m : Msg) (s : Server) :
    (s.emit (.write fd m (env.write s.log fd m))).log <+: (s.writeServer env fd m).1.log := by
  cases hw : env.write s.log fd m with
  | true => exact ⟨[], by rw [writeServer_true hw, List.append_nil]⟩
  | false =>
    rw [writeServer_false hw]
    exact cascade_offlineAction.log_extends

/-- Without a session `offline_action` only closes. -/
theorem offlineAction_neg (h : id < 0) : s.offlineAction env confd id = (s.epollDel confd).close confd :=
  cascade_offlineAction.det (.offlineNeg h)

end UnixNote
