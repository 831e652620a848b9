import UnixNote.Proof.Turns

/-!
# What `send_message_mgmt` leaves behind

`leaving_restores`: a call returns with all mutexes unlocked and `iniface` 0 exactly when no
`sendto` has failed in modes `S` and `A`. `leaving_restores_breaks`: the two error exits, one of
them with the list locked for good.
-/

namespace UnixNote.Message

variable {s s' : Iface} {t : Turn} {mine : Int} {left : Bool} {mode : Mode} {ts : List Turn} {ifg : Char}
  {setup : Setup}

/-- Nothing is locked, and the chat is over. -/
def Restored (s : Iface) : Prop := s.held = [] ∧ s.iniface = 0

instance (s : Iface) : Decidable (Restored s) := inferInstanceAs (Decidable (s.held = [] ∧ s.iniface = 0))

/-- No `sendto` of the turn fails whose result ends the function. -/
def Mode.Clean : Mode → Turn → Prop
  | .s id, t => (t.list 0).searchList id .byId ≠ none → (∃ data, Line t data) → t.ok 0 = true
  | .m _, _ => True
  | .a, t => (∃ data, Line t data) → ∀ k < (t.list 0).nodes.length, t.ok k = true

/-- How a turn ends: the function goes on with nothing locked, or it returns. -/
structure Ends (mode : Mode) (t : Turn) (left : Bool) (s' : Iface) : Prop where
  again : left = false → s'.held = [] ∧ mode.Clean t
  back : left = true → (Restored s' ↔ mode.Clean t)

theorem Ends.again_of (hs : s'.held = []) (hc : mode.Clean t) : Ends mode t false s' :=
  ⟨fun _ => ⟨hs, hc⟩, (Bool.noConfusion ·)⟩

theorem Ends.back_of (hs : Restored s') (hc : mode.Clean t) : Ends mode t true s' :=
  ⟨(Bool.noConfusion ·), fun _ => ⟨fun _ => hc, fun _ => hs⟩⟩

theorem Ends.failed (hs : s'.iniface = 1) (hc : ¬ mode.Clean t) : Ends mode t true s' :=
  ⟨(Bool.noConfusion ·), fun _ => ⟨fun hr => absurd (hs.symm.trans hr.2) (by decide), fun h => absurd h hc⟩⟩

theorem turnS_ends {id : Int} (h : s.held = []) (ht : turnS mine id t s = .ok (left, s')) : Ends (.s id) t left s' := by
  cases hp : (t.list 0).searchList id .byId with
  | none =>
    rw [turnS_absent h hp] at ht
    cases ht
    exact .back_of ⟨h, rfl⟩ fun hne => absurd hp hne
  | some p =>
    rcases typed_cases t with hin | ⟨data, hl⟩ | ⟨he, hno⟩
    · rw [turnS_waiting h hp hin] at ht
      cases ht
    · obtain ⟨r, hr⟩ := turnS_line mine h hp hl
      rw [hr] at ht
      cases ht
      by_cases hok : t.ok 0 = true
      · rw [hok]
        exact .again_of h fun _ _ => hok
      · rw [Bool.not_eq_true] at hok
        rw [hok]
        refine .failed rfl fun hc => ?_
        have := hc (by rw [hp]; exact Option.some_ne_none _) ⟨data, hl⟩
        rw [hok] at this
        cases this
    · rw [turnS_escape h hp he] at ht
      cases ht
      refine .back_of ⟨h, rfl⟩ fun _ ⟨data, hl⟩ => ?_
      exact absurd hl (hno data)

theorem turnM_ends {ids : List Int} (h : s.held = []) (ht : turnM mine ids t s = .ok (left, s')) :
    Ends (.m ids) t left s' := by
  rcases typed_cases t with hin | ⟨data, hl⟩ | ⟨he, -⟩
  · rw [turnM_waiting h hin] at ht
    cases ht
  · obtain ⟨r, hr⟩ := turnM_line mine ids h hl
    rw [hr] at ht
    cases ht
    exact .again_of h trivial
  · rw [turnM_escape h he] at ht
    cases ht
    exact .back_of ⟨h, rfl⟩ trivial

theorem turnA_ends (h : s.held = []) (ht : turnA mine t s = .ok (left, s')) : Ends .a t left s' := by
  rcases typed_cases t with hin | ⟨data, hl⟩ | ⟨he, hno⟩
  · rw [turnA_waiting h hin] at ht
    cases ht
  · by_cases hok : ∀ k < (t.list 0).nodes.length, t.ok k = true
    · obtain ⟨r, hr⟩ := turnA_line mine h hl hok
      rw [hr] at ht
      cases ht
      exact .again_of h fun _ => hok
    · rw [turnA_failed h hl hok] at ht
      cases ht
      exact .failed rfl fun hc => hok (hc ⟨data, hl⟩)
  · rw [turnA_escape h he] at ht
    cases ht
    refine .back_of ⟨h, rfl⟩ fun ⟨data, hl⟩ => ?_
    exact absurd hl (hno data)

/-- **One turn.** -/
theorem turn_ends (h : s.held = []) (ht : turn mine mode t s = .ok (left, s')) : Ends mode t left s' := by
  cases mode with
  | s id => exact turnS_ends h ht
  | m ids => exact turnM_ends h ht
  | a => exact turnA_ends h ht

/-- The loop of a mode: it has come through `ts`, and returns in `t`. -/
theorem chat_ends (h : s.held = []) (hgo : chat mine mode ts s = .error .waiting)
    (hback : chat mine mode (ts ++ [t]) s = .ok s') : Restored s' ↔ ∀ u ∈ ts ++ [t], mode.Clean u := by
  induction ts generalizing s with
  | nil =>
    rw [List.nil_append, chat] at hback
    cases ht : turn mine mode t s with
    | error e =>
      rw [ht] at hback
      cases hback
    | ok x =>
      obtain ⟨left, s₁⟩ := x
      rw [ht] at hback
      cases left with
      | false => cases hback
      | true =>
        obtain rfl : s₁ = s' := Except.ok.inj hback
        rw [(turn_ends h ht).back rfl]
        simp
  | cons u us ih =>
    rw [List.cons_append, chat] at hback
    rw [chat] at hgo
    cases ht : turn mine mode u s with
    | error e =>
      rw [ht] at hback
      cases hback
    | ok x =>
      obtain ⟨left, s₁⟩ := x
      rw [ht] at hback hgo
      cases left with
      | true => cases hgo
      | false =>
        obtain ⟨hheld, hclean⟩ := (turn_ends h ht).again rfl
        rw [ih hheld hgo hback, List.cons_append, List.forall_mem_cons]
        exact (and_iff_right hclean).symm

/-- **Leaving restores the shared state** when no `sendto` has failed, and then only. -/
theorem leaving_restores (hm : select ifg setup = .ok (some mode)) (hfree : s.held = [])
    (hgo : sendMessageMgmt mine ifg setup ts s = .error .waiting)
    (hback : sendMessageMgmt mine ifg setup (ts ++ [t]) s = .ok s') :
    Restored s' ↔ ∀ u ∈ ts ++ [t], mode.Clean u := by
  simp only [sendMessageMgmt, hm, bind, Except.bind] at hgo hback
  exact chat_ends hfree hgo hback

/-- The menu, with nothing locked. -/
def menu : Iface := ⟨[], 0, 15, []⟩

/-- Friend 2 is chosen. -/
def setup2 : Setup := ⟨[50, 13], .replicate 7 0, .replicate 4 0⟩

/-- A turn with friend 2 online. -/
def turnWith (keys : List Int) (ok : Bool) : Turn where
  keys := keys
  rxData := .replicate 76 0
  list _ := OnlineList.create.addList ⟨2, 0, ⟨7, 8⟩⟩
  deref p := p.addr
  ok _ := ok

/-- One line and the escape key. -/
theorem leaving_restores_escape : ∃ s',
    sendMessageMgmt 1 'S' setup2 [turnWith [104, 13] true, turnWith [27] true] menu = .ok s' ∧ Restored s' := by
  have hgo : sendMessageMgmt 1 'S' setup2 [turnWith [104, 13] true] menu = .error .waiting := by decide
  have hback : sendMessageMgmt 1 'S' setup2 ([turnWith [104, 13] true] ++ [turnWith [27] true]) menu =
    .ok ⟨[], 0, 14, [⟨⟨7, 8⟩, udpHeader 1 [104], true⟩]⟩ := by decide
  have hselect : select 'S' setup2 = .ok (some (.s 2)) := by decide
  refine ⟨_, hback, (leaving_restores hselect rfl hgo hback).2 fun u hu => ?_⟩
  rcases List.mem_cons.1 hu with rfl | hu
  · exact fun _ _ => rfl
  · rw [List.mem_singleton.1 hu]
    exact fun _ _ => rfl

/-- **A line that cannot be sent** ends mode `S` with `iniface` 1, and mode `A` with the list locked too. -/
theorem leaving_restores_breaks :
    (∃ s', sendMessageMgmt 1 'S' setup2 [turnWith [104, 13] false] menu = .ok s' ∧ s'.iniface = 1) ∧
    ∃ s', sendMessageMgmt 1 'A' setup2 [turnWith [104, 13] false] menu = .ok s' ∧ s'.iniface = 1 ∧
      s'.held = [.mutex] :=
  ⟨⟨⟨[], 1, 15, [⟨⟨7, 8⟩, udpHeader 1 [104], false⟩]⟩, by decide⟩,
    ⟨⟨[.mutex], 1, 15, [⟨⟨7, 8⟩, udpHeader 1 [104], false⟩]⟩, by decide⟩⟩

end UnixNote.Message
