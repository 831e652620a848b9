import UnixNote.Proof.Encoding
import UnixNote.Proof.RoundTrip

/-!
# The client process behaves as a client

`Client` of the system is `Process` without its keyboard and its bytes: whatever a process makes of the keys, of
the next message or of the answer to a friend request, its client does the same (`Runs.ui`, `Runs.answer`,
`Runs.receive`).
-/

namespace UnixNote

open Keyboard (dataInput edit string)
open Server (Fault loadInt)
open Socket (Package Received)

namespace Keyboard

variable {n : Nat} {data data' : Vector UInt8 (n + 1)} {keys rest : List Int} {ret : Int}

/-- Without an escape the editors return 0. -/
theorem edit_ret {i : Fin (n + 1)} (h : edit false data i keys = some (ret, data', rest)) : ret = 0 := by
  induction keys generalizing data i with
  | nil => cases h
  | cons ch keys ih =>
    unfold edit at h
    split at h
    · obtain ⟨rfl, -⟩ : (0 : Int) = ret ∧ _ := by simpa using h
      rfl
    rw [if_neg (fun hesc => Bool.false_ne_true hesc.1)] at h
    split at h
    · exact ih h
    · split at h
      · exact ih h
      · exact ih h

/-- What was typed fits into the array. -/
theorem edit_string (h : edit false data 0 keys = some (ret, data', rest)) : (string data').length ≤ n := by
  obtain rfl := edit_ret h
  obtain ⟨body, tail, -, hshort, hdata⟩ := edit_line List.take_zero h
  rw [string, hdata, takeWhile_nul]
  exact (List.takeWhile_sublist _).length_le.trans hshort

end Keyboard

namespace Process

variable {m : Locals} {c c' : Process} {a : Client} {keys rest : List Int} {name pwd : CStr} {src dst mineId : Int}
  {place : Place} {phase : Phase} {p : Package} {f : Frame} {msg : Msg} {r : Rest}

/-! ## What a process writes -/

theorem form_typed (h : form m keys = some (name, pwd, rest)) : Typed name ∧ Typed pwd := by
  unfold form passwordInput at h
  simp only [Option.bind_eq_bind, Option.bind_eq_some_iff] at h
  obtain ⟨⟨ret, rxData, keys₁⟩, h₁, ⟨ret₂, pwdData, keys₂⟩, h₂, heq⟩ := h
  cases heq
  exact ⟨⟨Keyboard.edit_string h₁, Keyboard.string_nul⟩, Keyboard.edit_string h₂, Keyboard.string_nul⟩

/-- A package that the user interface is about to write, with the frame that the server makes of it. -/
inductive Says (m : Locals) (c : Process) : Package → Frame → Prop
  | register {name pwd : CStr} {keys : List Int} :
      c.place = .registerIface → form m c.keys = some (name, pwd, keys) →
      Says m c (m.user.registerIface name pwd).registerPackage (.register ⟨0, storedName name pwd, pwd⟩)
  | login {rxData pwd : CStr} {keys : List Int} :
      c.place = .loginIface → form m c.keys = some (rxData, pwd, keys) →
      Says m c (m.user.loginIface (number rxData) pwd).loginPackage (.login ⟨number rxData, [], pwd⟩)
  | offline {keys : List Int} :
      c.place = .operaIface → choice c.keys = some (69, keys) →
      Says m c (offlinePackage c.mineId) (.offline c.mineId)
  | addFriend {ret : Int} {rxData : Vector UInt8 7} {keys : List Int} :
      c.place = .addFriend → dataInput m.friend c.keys = some (ret, rxData, keys) →
      c.mineId ≠ number (string rxData) →
      Says m c (addFriendPackage c.mineId (number (string rxData))) (.addFriend c.mineId (number (string rxData)))

/-- The verdict that `add_friend_action` makes of a key: `y` and `Y` agree. -/
def verdict (result : UInt8) : Int := if result = 121 ∨ result = 89 then 1 else 0

/-- The password of a form is shorter than its field. -/
def Short (m : Locals) (c : Process) : Prop :=
  c.place = .loginIface ∨ c.place = .registerIface →
    ∀ name pwd keys, form m c.keys = some (name, pwd, keys) → pwd.length ≤ 9

instance (m : Locals) (c : Process) : Decidable (Short m c) :=
  match hform : form m c.keys with
  | none => .isTrue fun _ _ _ _ h => nomatch hform.symm.trans h
  | some (name, pwd, keys) =>
    decidable_of_iff (c.place = .loginIface ∨ c.place = .registerIface → pwd.length ≤ 9)
      ⟨fun h hplace _ _ _ heq => by cases hform.symm.trans heq; exact h hplace, fun h hplace => h hplace _ _ _ hform⟩

/-! ## The client of a process -/

/-- Where the client stands while the process is at a place. Before the login `mine.id` is 0. -/
inductive At (mineId : Int) : Place → Phase → Prop
  | welIface : mineId = 0 → At mineId .welIface .welIface
  | registerIface : mineId = 0 → At mineId .registerIface .welIface
  | registerSent : mineId = 0 → At mineId .registerSent .registerSent
  | login : mineId = 0 → At mineId .loginIface .welIface
  | loginIface : mineId = 0 → At mineId .loginIface .loginIface
  | loginSent {id : Int} : mineId = 0 → CInt.InRange id → At mineId (.loginSent id) (.loginSent id)
  | operaIface : At mineId .operaIface (.operaIface mineId)
  | addFriend : At mineId .addFriend (.operaIface mineId)
  | sending : At mineId .sending (.operaIface mineId)
  | exited {phase : Phase} : At mineId .exited phase
  | mygetch {next : Place} {phase : Phase} : At mineId next phase → At mineId (.mygetch next) phase

/-- `c` runs the program of the client `a`. -/
structure Runs (c : Process) (a : Client) : Prop where
  stands : At c.mineId c.place a.phase
  pOnline : c.pOnline = a.pOnline
  mineId : CInt.InRange c.mineId
  asking : ∀ src dst, c.asking = some (src, dst) → (src, dst) ∈ a.asked ∧ CInt.InRange src ∧ CInt.InRange dst

theorem Runs.start (keys : List Int) : Runs (.start keys) .fresh :=
  ⟨.welIface rfl, rfl, CInt.inRange_zero, nofun⟩

theorem At.main (h : At mineId place phase) (hm : inMain place = true) : phase = .operaIface mineId := by
  induction h with
  | operaIface => rfl
  | addFriend => rfl
  | sending => rfl
  | mygetch _ ih => exact ih hm
  | _ => cases hm

/-- The process goes on inside of the program, and its client need not know. -/
theorem Runs.goes (h : Runs c a) (hat : At c.mineId place a.phase) (keys : List Int) :
    Runs { c with place := place, keys := keys } a :=
  ⟨hat, h.pOnline, h.mineId, h.asking⟩

/-- **A process that leaves instead of writing** has the client that it had. -/
theorem Runs.exit (h : Runs c (a.send f)) : Runs { c with place := .exited } a := by
  obtain ⟨-, hlist, hmine, hask⟩ := h
  cases f <;> exact ⟨.exited, hlist, hmine, hask⟩

/-! ## The keyboard -/

/-- What the user interface comes to: it goes on by itself, or writes what its client may write. -/
def Serves (m : Locals) (c : Process) (a : Client) (c' : Process) : Option Package → Prop
  | none => Runs c' a
  | some p => ∃ f, Says m c p f ∧ Means p f ∧ a.Sends f ∧ Runs c' (a.send f)

theorem number_inRange (s : CStr) : CInt.InRange (number s) := CInt.inRange_wrap _

/-- **The user interface** does what its client may do. -/
theorem Runs.ui (h : Runs c a) (hshort : Short m c) {o : Option Package} (hui : c.ui m = some (c', o)) :
    Serves m c a c' o := by
  obtain ⟨place, keys, mineId, pOnline, asking⟩ := c
  obtain ⟨phase, list, asked⟩ := a
  obtain ⟨hat, hlist, hmine, hask⟩ := h
  unfold Process.ui at hui
  cases hat with
  | welIface h0 =>
    simp only [Option.bind_eq_bind, Option.bind_eq_some_iff, Option.some.injEq] at hui
    obtain ⟨⟨ifg, rest⟩, -, heq⟩ := hui
    obtain ⟨rfl, rfl⟩ := Prod.mk.inj heq
    refine ⟨?_, hlist, hmine, hask⟩
    dsimp only
    split
    · exact .login h0
    split
    · exact .registerIface h0
    split
    · exact .exited
    · exact .mygetch (.welIface h0)
  | registerIface h0 =>
    simp only [Option.bind_eq_bind, Option.bind_eq_some_iff, Option.some.injEq] at hui
    obtain ⟨⟨name, pwd, rest⟩, hform, heq⟩ := hui
    obtain ⟨rfl, rfl⟩ := Prod.mk.inj heq
    obtain ⟨hname, hpwd⟩ := form_typed hform
    have h9 : pwd.length ≤ 9 := hshort (Or.inr rfl) _ _ _ hform
    exact ⟨_, .register rfl hform, Stack.means_register hname hpwd h9, trivial, .registerSent h0, hlist, hmine, hask⟩
  | login h0 =>
    simp only [Option.bind_eq_bind, Option.bind_eq_some_iff, Option.some.injEq] at hui
    obtain ⟨⟨rxData, pwd, rest⟩, hform, heq⟩ := hui
    obtain ⟨rfl, rfl⟩ := Prod.mk.inj heq
    have h9 : pwd.length ≤ 9 := hshort (Or.inl rfl) _ _ _ hform
    have hmeans := Stack.means_login (m := m.user) (number_inRange rxData) (form_typed hform).2 h9
    exact ⟨_, .login rfl hform, hmeans, trivial, .loginSent h0 (number_inRange rxData), hlist, hmine, hask⟩
  | loginIface h0 =>
    simp only [Option.bind_eq_bind, Option.bind_eq_some_iff, Option.some.injEq] at hui
    obtain ⟨⟨rxData, pwd, rest⟩, hform, heq⟩ := hui
    obtain ⟨rfl, rfl⟩ := Prod.mk.inj heq
    have h9 : pwd.length ≤ 9 := hshort (Or.inl rfl) _ _ _ hform
    have hmeans := Stack.means_login (m := m.user) (number_inRange rxData) (form_typed hform).2 h9
    exact ⟨_, .login rfl hform, hmeans, trivial, .loginSent h0 (number_inRange rxData), hlist, hmine, hask⟩
  | operaIface =>
    simp only [Option.bind_eq_bind, Option.bind_eq_some_iff] at hui
    obtain ⟨⟨ifg, rest⟩, hchoice, heq⟩ := hui
    dsimp only at heq
    split at heq
    · cases heq
      exact ⟨.mygetch .operaIface, hlist, hmine, hask⟩
    split at heq
    · cases heq
      exact ⟨.addFriend, hlist, hmine, hask⟩
    split at heq
    · cases heq
      exact ⟨.sending, hlist, hmine, hask⟩
    split at heq
    · rename_i hE
      cases heq
      subst hE
      exact ⟨_, .offline rfl hchoice, means_offline hmine, rfl, .operaIface, hlist, hmine, hask⟩
    · cases heq
      exact ⟨.operaIface, hlist, hmine, hask⟩
  | addFriend =>
    simp only [Option.bind_eq_bind, Option.bind_eq_some_iff] at hui
    obtain ⟨⟨ret, rxData, rest⟩, hdata, heq⟩ := hui
    dsimp only at heq
    split at heq
    · rename_i hne
      cases heq
      exact ⟨_, .addFriend rfl hdata hne, means_addFriend hmine (number_inRange _), ⟨rfl, hne⟩, .operaIface, hlist,
        hmine, hask⟩
    · cases heq
      exact ⟨.mygetch .operaIface, hlist, hmine, hask⟩
  | mygetch hnext =>
    dsimp only at hui
    split at hui
    · cases hui
    · cases hui
      exact ⟨hnext, hlist, hmine, hask⟩
  | _ => cases hui

/-- The messages typed go elsewhere. -/
theorem Runs.sentMessages (h : Runs c a) {n : Nat} (hs : c.sentMessages n = some c') : Runs c' a := by
  unfold Process.sentMessages at hs
  split at hs
  · rename_i hplace
    cases hs
    have hphase : a.phase = .operaIface c.mineId := h.stands.main (by rw [hplace]; rfl)
    exact h.goes (hphase ▸ .operaIface) _
  · cases hs

/-- **The answer to a friend request** is one that the client may give. -/
theorem Runs.answer (h : Runs c a) {result : UInt8} (ha : c.answer result = some (c', p)) :
    ∃ src dst, c.asking = some (src, dst) ∧ inMain c.place = true ∧ Means p (.allowAddf src dst (verdict result)) ∧
      a.Sends (.allowAddf src dst (verdict result)) ∧ Runs c' a := by
  unfold Process.answer at ha
  split at ha
  swap
  · cases ha
  rename_i hmain
  split at ha
  · cases ha
  rename_i src dst hasking
  cases ha
  obtain ⟨hmem, hsrc, hdst⟩ := h.asking src dst hasking
  have hphase := h.stands.main hmain
  have hv : verdict result = 0 ∨ verdict result = 1 := by
    unfold verdict
    split
    · exact Or.inr rfl
    · exact Or.inl rfl
  have hrange : CInt.InRange (verdict result) := by
    rcases hv with hv | hv <;> rw [hv] <;> decide
  refine ⟨src, dst, hasking, hmain, means_allowAddf hsrc hdst hrange, ?_, h.stands, h.pOnline, h.mineId, nofun⟩
  unfold Client.Sends
  rw [hphase]
  exact ⟨hmem, hv⟩

/-! ## The bytes of the server -/

/-- The optype of a message. -/
def optype : Msg → Int
  | .registerSuccess _ => OP_REGISTER_SUCCESS
  | .loginFeedback _ => OP_LOGIN_FEEDBACK
  | .online _ => OP_ONLINE
  | .offline _ => OP_OFFLINE
  | .allowDisconnect => OP_ALLOW_DISCONNECT
  | .addFriend _ _ => OP_ADD_FRIEND
  | .allowAddf _ _ _ => OP_ALLOW_ADDF

theorem received_optype : (msg.package r).received.optype = optype msg := by cases msg <;> rfl

/-- The answer to a registration. -/
theorem registerIfaceMgmt_spec (h0 : c.mineId = 0) (hm : msg.Fits) :
    ∃ place, c.registerIfaceMgmt (msg.package r).received = .ok { c with place := place } ∧
      At c.mineId place (Client.registerIfaceMgmt msg) := by
  unfold registerIfaceMgmt
  rw [received_optype]
  cases msg with
  | registerSuccess id =>
    have hload : loadInt (Msg.package r (.registerSuccess id)).received.buf 0 = .ok id :=
      loadInt_ints [] [] hm
    refine ⟨if id = -1 then .mygetch .exited else .mygetch .welIface, ?_, ?_⟩
    · unfold optype
      dsimp only
      rw [if_pos rfl, hload]
      rfl
    · unfold Client.registerIfaceMgmt
      dsimp only
      split
      · exact .mygetch .exited
      · exact .mygetch (.welIface h0)
  | _ =>
    unfold optype
    dsimp only
    exact ⟨_, if_neg (by decide), .mygetch .exited⟩

/-- The answer to a login. -/
theorem loginIfaceMgmt_spec {id : Int} (h0 : c.mineId = 0) (hid : CInt.InRange id) (hm : msg.Fits) :
    ∃ place mineId, c.loginIfaceMgmt id (msg.package r).received = .ok { c with place := place, mineId := mineId } ∧
      CInt.InRange mineId ∧ At mineId place (Client.loginIfaceMgmt id msg) := by
  have hmine : CInt.InRange c.mineId := h0 ▸ CInt.inRange_zero
  unfold loginIfaceMgmt
  rw [received_optype]
  cases msg with
  | loginFeedback flag =>
    have hload : loadInt (Msg.package r (.loginFeedback flag)).received.buf 0 = .ok flag :=
      loadInt_ints [] [] hm
    unfold optype Client.loginIfaceMgmt
    dsimp only
    rw [if_pos rfl, hload]
    show ∃ place mineId, (if flag = 0 then _ else _ : Except Fault Process) = _ ∧ _
    by_cases h₀ : flag = 0
    · rw [if_pos h₀, if_pos h₀]
      exact ⟨_, _, rfl, hid, .operaIface⟩
    rw [if_neg h₀, if_neg h₀]
    by_cases h₁ : flag = -1
    · rw [if_pos h₁, if_pos h₁]
      exact ⟨_, _, rfl, hmine, .mygetch (.loginIface h0)⟩
    rw [if_neg h₁, if_neg h₁]
    by_cases h₂ : flag = -2
    · rw [if_pos h₂, if_pos h₂]
      exact ⟨_, _, rfl, hmine, .mygetch .exited⟩
    rw [if_neg h₂, if_neg h₂]
    by_cases h₃ : flag = -3
    · rw [if_pos h₃, if_pos h₃]
      exact ⟨_, _, rfl, hmine, .mygetch (.loginIface h0)⟩
    · -- a flag that nobody knows: `mine.id` stays 0
      rw [if_neg h₃, if_neg h₃]
      refine ⟨_, _, rfl, hmine, ?_⟩
      rw [h0]
      exact .operaIface
  | _ =>
    unfold optype
    dsimp only
    exact ⟨_, _, if_neg (by decide), hmine, .mygetch .exited⟩

/-- **The thread of `pthread_tcp`** does with the bytes of a message what the client does with the message. -/
theorem Runs.analysisReceive (h : Runs c a) (hm : msg.Fits) :
    ∃ c', c.analysisReceive (msg.package r).received = .ok c' ∧ Runs c' (a.analysisReceive msg) := by
  unfold Process.analysisReceive
  rw [received_optype]
  cases msg with
  | registerSuccess id => exact ⟨c, rfl, h⟩
  | loginFeedback flag => exact ⟨c, rfl, h⟩
  | online node =>
    have hload : loadNode (Msg.package r (.online node)).received.buf = .ok node := loadNode_bytes hm
    unfold optype
    dsimp only
    rw [if_pos rfl, hload]
    refine ⟨_, rfl, h.stands, ?_, h.mineId, h.asking⟩
    exact congrArg (·.addList node) h.pOnline
  | offline id =>
    have hload : loadInt (Msg.package r (.offline id)).received.buf 0 = .ok id := loadInt_ints [] [] hm
    unfold optype
    dsimp only
    rw [if_neg (by decide),
      if_neg (by decide),
      if_pos rfl, hload]
    refine ⟨_, rfl, h.stands, ?_, h.mineId, h.asking⟩
    exact congrArg (·.delList id .byId) h.pOnline
  | allowDisconnect => exact ⟨_, rfl, .exited, h.pOnline, h.mineId, h.asking⟩
  | addFriend src dst =>
    have h0 : loadInt (Msg.package r (.addFriend src dst)).received.buf 0 = .ok src :=
      loadInt_ints [] [dst] hm.1
    have h4 : loadInt (Msg.package r (.addFriend src dst)).received.buf 4 = .ok dst :=
      loadInt_ints [src] [] hm.2
    unfold optype
    dsimp only
    rw [if_neg (by decide),
      if_neg (by decide),
      if_neg (by decide),
      if_pos rfl, h0, h4]
    refine ⟨_, rfl, h.stands, h.pOnline, h.mineId, fun src' dst' heq => ?_⟩
    cases heq
    exact ⟨List.mem_cons_self, hm⟩
  | allowAddf src dst verdict =>
    have h0 : loadInt (Msg.package r (.allowAddf src dst verdict)).received.buf 0 = .ok src :=
      loadInt_ints [] [dst, verdict] hm.1
    have h4 : loadInt (Msg.package r (.allowAddf src dst verdict)).received.buf 4 = .ok dst :=
      loadInt_ints [src] [verdict] hm.2.1
    have h8 : loadInt (Msg.package r (.allowAddf src dst verdict)).received.buf 8 = .ok verdict :=
      loadInt_ints [src, dst] [] hm.2.2
    unfold optype
    dsimp only
    rw [if_neg (by decide),
      if_neg (by decide),
      if_neg (by decide),
      if_neg (by decide),
      if_pos rfl]
    refine ⟨c, ?_, h⟩
    unfold allowAddfAction
    rw [h0]
    show (if src = c.mineId then _ else _ : Except Fault Process) = _
    split
    · rw [h8]
      show (if _ then _ else _ : Except Fault Process) = _
      split
      · rw [h4]
        rfl
      · rfl
    · rfl

/-- In the main loop the reading is that of `pthread_tcp`. -/
theorem receive_main {got : Received} (hm : inMain c.place = true) : c.receive got = c.analysisReceive got := by
  obtain ⟨place, keys, mineId, pOnline, asking⟩ := c
  cases place with
  | registerSent => cases hm
  | loginSent id => cases hm
  | _ => rfl

/-- **A frame that is read** does to the process what its message does to the client, which was reading too. -/
theorem Runs.receive (h : Runs c a) (hr : c.reads = true) (hm : msg.Fits) :
    a.reads = true ∧ ∃ c', c.receive (msg.package r).received = .ok c' ∧ Runs c' (a.recv msg) := by
  by_cases hmain : inMain c.place = true
  · have hphase := h.stands.main hmain
    rw [receive_main hmain]
    unfold Client.reads Client.recv
    rw [hphase]
    exact ⟨rfl, h.analysisReceive hm⟩
  · obtain ⟨place, keys, mineId, pOnline, asking⟩ := c
    obtain ⟨phase, list, asked⟩ := a
    obtain ⟨hat, hlist, hmine, hask⟩ := h
    unfold Process.reads at hr
    cases hat with
    | registerSent h0 =>
      obtain ⟨place, heq, hat⟩ := registerIfaceMgmt_spec (c := ⟨.registerSent, keys, mineId, pOnline, asking⟩)
        (r := r) h0 hm
      exact ⟨rfl, _, heq, hat, hlist, hmine, hask⟩
    | @loginSent id h0 hid =>
      obtain ⟨place, mineId', heq, hmine', hat⟩ := loginIfaceMgmt_spec
        (c := ⟨.loginSent id, keys, mineId, pOnline, asking⟩) (r := r) h0 hid hm
      exact ⟨rfl, _, heq, hat, hlist, hmine', hask⟩
    | _ =>
      -- anywhere else the process does not read
      simp only [Bool.and_eq_true] at hr
      exact absurd hr.1 hmain

end Process

end UnixNote
