import UnixNote.Lib.Simulation
import UnixNote.Proof.Clients
import UnixNote.Proof.Values
import UnixNote.Proof.Visible

/-!
# The byte streams carry the messages of the system

`Abstracts w σ`: the server is the same, each process runs its client, and each stream is the frames of its channel,
one after the other. Every action of the byte level is silent or one of the system (`Abstracts.act`), so every run
has a run of the system beside it (`refinement`), and no load of either end leaves its payload (`no_fault`).
-/

namespace UnixNote

open Server (Fault pthreadReceive)
open Socket (Package Received Transfer)

/-! ## Streams of frames -/

/-- The bytes are the frames of packages that stand for the elements of a list. -/
inductive Framed {α : Type} (P : Package → α → Prop) : List UInt8 → List α → Prop
  | nil : Framed P [] []
  | cons {p : Package} {x : α} {bytes : List UInt8} {xs : List α} :
      P p x → Framed P bytes xs → Framed P (p.frame ++ bytes) (x :: xs)

namespace Framed

variable {α : Type} {P : Package → α → Prop} {bytes bytes' : List UInt8} {xs xs' : List α} {p : Package} {x : α}
  {t : Transfer}

theorem append (h : Framed P bytes xs) (h' : Framed P bytes' xs') : Framed P (bytes ++ bytes') (xs ++ xs') := by
  induction h with
  | nil => exact h'
  | cons hP _ ih =>
    rw [List.append_assoc]
    exact .cons hP ih

theorem concat (h : Framed P bytes xs) (hP : P p x) : Framed P (bytes ++ p.frame) (xs ++ [x]) := by
  have hone : Framed P p.frame [x] := by
    have := Framed.cons hP .nil
    rwa [List.append_nil] at this
  exact h.append hone

/-- No bytes, no elements. -/
theorem eq_nil (h : Framed P [] xs) : xs = [] := by
  generalize hbytes : ([] : List UInt8) = bytes at h
  cases h with
  | nil => rfl
  | @cons p _ rest _ _ _ =>
    have hlen := congrArg List.length hbytes
    rw [List.length_append, p.frame_length, List.length_nil] at hlen
    omega

/-- **A complete read takes the first element.** -/
theorem read (h : Framed P bytes xs) (ht : Wire.Complete t bytes) :
    ∃ p x xs' rest, xs = x :: xs' ∧ P p x ∧ Socket.read t bytes = some (p.received, rest) ∧ Framed P rest xs' := by
  cases h with
  | nil => exact absurd rfl ht.ne_nil
  | @cons p x rest xs' hP hrest => exact ⟨p, x, xs', rest, rfl, hP, ht.read, hrest⟩

end Framed

namespace Wire

variable {env : Env} {rest : List Event → Rest} {w w' : Wire} {σ : System} {a : Act} {b : System.Act} {fd : Int}
  {s : Server} {tr : List (Wire × Act)}

/-- The package of a message that fits. -/
def Spells (p : Package) (m : Msg) : Prop := m.Fits ∧ ∃ r, p = m.package r

/-- What the server writes reaches the client. -/
theorem framed_wireTo (fd : Int) (evs : List Event) (log : List Event)
    (h : ∀ fd m ok, .write fd m ok ∈ evs → m.Fits) : Framed Spells (wireTo rest fd log evs) (sent fd evs) := by
  induction evs generalizing log with
  | nil => exact .nil
  | cons e evs ih =>
    have hevs := ih (log ++ [e]) fun fd m ok hm => h fd m ok (List.mem_cons_of_mem _ hm)
    cases e with
    | write fd' m ok =>
      cases ok with
      | false => exact hevs
      | true =>
        by_cases hfd : fd' = fd
        · have hm : Spells (m.package (rest log)) m := ⟨h fd' m true List.mem_cons_self, _, rfl⟩
          have hbytes : wireTo rest fd log (.write fd' m true :: evs) =
              (m.package (rest log)).frame ++ wireTo rest fd (log ++ [.write fd' m true]) evs := by
            rw [wireTo, if_pos hfd]
          have hsent : sent fd (.write fd' m true :: evs) = m :: sent fd evs :=
            List.filterMap_cons_some (if_pos hfd)
          rw [hbytes, hsent]
          exact .cons hm hevs
        · have hbytes : wireTo rest fd log (.write fd' m true :: evs) =
              wireTo rest fd (log ++ [.write fd' m true]) evs := by
            rw [wireTo, if_neg hfd, List.nil_append]
          have hsent : sent fd (.write fd' m true :: evs) = sent fd evs :=
            List.filterMap_cons_none (if_neg hfd)
          rw [hbytes, hsent]
          exact hevs
    | _ => exact hevs

/-! ## The relation -/

/-- `σ` is the system of clients and channels behind the processes and streams of `w`. -/
structure Abstracts (w : Wire) (σ : System) : Prop where
  server : σ.server = w.server
  fits : w.server.Fits
  runs : ∀ fd, (w.process fd).Runs (σ.client fd)
  up : ∀ fd, Framed Means (w.up fd) (σ.toServer fd)
  down : ∀ fd, Framed Spells (w.down fd) (σ.toClient fd)

/-- Ids are `int`s, and nobody types a password that fills its field. -/
def Regular (w : Wire) (a : Act) : Prop :=
  CInt.InRange w.server.db.nextId ∧
    match a with
    | .ui fd m => (w.process fd).Short m
    | _ => True

instance (w : Wire) : (a : Act) → Decidable (Regular w a)
  | .ui fd m => inferInstanceAs (Decidable (CInt.InRange _ ∧ (w.process fd).Short m))
  | .connect _ _ | .sentMessages _ _ | .answer _ _ | .recv _ _ | .serve _ _ | .hangup _ =>
    inferInstanceAs (Decidable (CInt.InRange _ ∧ True))

/-- Every statement so far is answered, those of the action included. -/
def Answered (env : Env) (rest : List Event → Rest) (w : Wire) (a : Act) : Prop :=
  ∀ w', w.act env rest a = .ok w' → w'.server.Answered

instance (env : Env) (rest : List Event → Rest) (w : Wire) (a : Act) : Decidable (Answered env rest w a) :=
  match hact : w.act env rest a with
  | .error _ => .isTrue fun _ h => nomatch hact.symm.trans h
  | .ok w' =>
    decidable_of_iff w'.server.Answered
      ⟨fun h _ heq => Except.ok.inj (hact.symm.trans heq) ▸ h, fun h => h w' hact⟩

/-- The system does not see this. -/
def Silent (w : Wire) : Act → Prop
  | .ui fd m => (∃ c, (w.process fd).ui m = some (c, none)) ∨ fd ∉ w.server.opened
  | .sentMessages _ _ => True
  | .answer fd _ => fd ∉ w.server.opened
  | _ => False

/-- The action of the system for one of the processes and streams. -/
inductive Matches (w : Wire) : Act → System.Act → Prop
  | connect {fd : Int} {keys : List Int} : Matches w (.connect fd keys) (.connect fd)
  | ui {fd : Int} {m : Locals} {c : Process} {p : Package} {f : Frame} :
      (w.process fd).ui m = some (c, some p) → (w.process fd).Says m p f → Matches w (.ui fd m) (.send fd f)
  | answer {fd src dst : Int} {result : UInt8} :
      (w.process fd).asking = some (src, dst) → Process.inMain (w.process fd).place = true →
      Matches w (.answer fd result) (.send fd (.allowAddf src dst (Process.verdict result)))
  | recv {fd : Int} {t : Transfer} : Matches w (.recv fd t) (.recv fd)
  | serve {fd : Int} {t : Transfer} : Matches w (.serve fd t) (.serve fd)
  | hangup {fd : Int} : Matches w (.hangup fd) (.hangup fd)

theorem Abstracts.boot {db : Database} (h : db.Fits) : Abstracts (.boot db) (.boot db) :=
  ⟨rfl, ⟨fun _ hn => absurd hn List.not_mem_nil, h⟩, fun _ => .start [], fun _ => .nil, fun _ => .nil⟩

namespace Abstracts

/-- What holds at every descriptor holds after one of them was updated. -/
theorem updated {β γ : Type} {R : β → γ → Prop} {g : Int → β} {h : Int → γ} {x : β} {y : γ} (hxy : R x y)
    (hR : ∀ fd, R (g fd) (h fd)) (fd fd' : Int) : R (Function.update g fd x fd') (Function.update h fd y fd') := by
  rw [Function.update_apply, Function.update_apply]
  split
  · exact hxy
  · exact hR fd'

/-- A process that goes on with the same client. -/
theorem setProcess (h : Abstracts w σ) {c : Process} (hc : c.Runs (σ.client fd)) : Abstracts (w.setProcess fd c) σ := by
  refine ⟨h.server, h.fits, fun fd' => ?_, h.up, h.down⟩
  have := updated hc h.runs fd fd'
  rwa [Function.update_eq_self] at this

/-- **A package is written**, or its process exits. -/
theorem write (h : Abstracts w σ) (env : Env) {c : Process} {p : Package} {f : Frame} (hf : Means p f)
    (hsends : (σ.client fd).Sends f) (hc : c.Runs ((σ.client fd).send f)) :
    (fd ∉ w.server.opened ∧ Abstracts (w.write fd c p) σ) ∨
      (σ.Enabled (.send fd f) ∧ Abstracts (w.write fd c p) (σ.act env (.send fd f))) := by
  unfold Wire.write
  by_cases hopen : fd ∈ w.server.opened
  · rw [if_pos hopen]
    refine Or.inr ⟨⟨h.server ▸ hopen, hsends⟩, h.server, h.fits, updated hc h.runs fd, ?_, h.down⟩
    exact updated ((h.up fd).concat hf) h.up fd
  · rw [if_neg hopen]
    exact Or.inl ⟨hopen, h.setProcess hc.exit⟩

/-- **The server goes on.** -/
theorem deliver (h : Abstracts w σ) (hs : Fitting w.server s) : Abstracts (w.deliver rest s) (σ.deliver s) := by
  refine ⟨rfl, hs.fits, h.runs, h.up, fun fd => ?_⟩
  obtain ⟨evs, hlog, hwrites⟩ := hs.writes
  have hdrop : s.log.drop w.server.log.length = evs := by rw [hlog, List.drop_left' rfl]
  show Framed Spells (w.down fd ++ wireTo rest fd w.server.log (s.log.drop w.server.log.length))
    (σ.toClient fd ++ sent fd (s.log.drop σ.server.log.length))
  rw [h.server, hdrop]
  exact (h.down fd).append (framed_wireTo fd evs _ hwrites)

variable (rest) in
/-- **One action** does not fault, and is silent or one of the system. -/
theorem act (h : Abstracts w σ) (henv : env.Fits) (hreg : Regular w a) (hen : w.Enabled a) :
    ∃ w', w.act env rest a = .ok w' ∧
      ((Silent w a ∧ Abstracts w' σ) ∨ ∃ b, Matches w a b ∧ σ.Enabled b ∧ Abstracts w' (σ.act env b)) := by
  have hserver := h.server
  obtain ⟨hid, hshort⟩ := hreg
  cases a with
  | connect fd keys =>
    have haccept : Fitting w.server (w.server.act env (.accept fd)) := act_fits henv h.fits hid trivial
    have hen' : σ.Enabled (.connect fd) := by
      show σ.server.Enabled (.accept fd)
      rw [hserver]
      exact hen
    refine ⟨_, rfl, Or.inr ⟨.connect fd, .connect, hen', ?_, haccept.fits, ?_, ?_, ?_⟩⟩
    · rw [← hserver]
      rfl
    · exact updated (.start keys) h.runs fd
    · exact updated .nil h.up fd
    · exact updated .nil h.down fd
  | ui fd m =>
    obtain ⟨⟨c, o⟩, hui⟩ : ∃ x, (w.process fd).ui m = some x := Option.isSome_iff_exists.1 hen
    have hserves := (h.runs fd).ui hshort hui
    simp only [Wire.act, hui]
    cases o with
    | none => exact ⟨_, rfl, Or.inl ⟨Or.inl ⟨c, hui⟩, h.setProcess hserves⟩⟩
    | some p =>
      obtain ⟨f, hsays, hmeans, hsends, hruns⟩ := hserves
      rcases h.write env hmeans hsends hruns with ⟨hclosed, h'⟩ | hwrite
      · exact ⟨_, rfl, Or.inl ⟨Or.inr hclosed, h'⟩⟩
      · exact ⟨_, rfl, Or.inr ⟨_, .ui hui hsays, hwrite⟩⟩
  | sentMessages fd n =>
    obtain ⟨c, hsent⟩ : ∃ x, (w.process fd).sentMessages n = some x := Option.isSome_iff_exists.1 hen
    simp only [Wire.act, hsent]
    exact ⟨_, rfl, Or.inl ⟨trivial, h.setProcess ((h.runs fd).sentMessages hsent)⟩⟩
  | answer fd result =>
    obtain ⟨⟨c, p⟩, hanswer⟩ : ∃ x, (w.process fd).answer result = some x := Option.isSome_iff_exists.1 hen
    obtain ⟨src, dst, hasking, hmain, hmeans, hsends, hruns⟩ := (h.runs fd).answer hanswer
    simp only [Wire.act, hanswer]
    exact ⟨_, rfl, (h.write env hmeans hsends hruns).imp_right fun hwrite => ⟨_, .answer hasking hmain, hwrite⟩⟩
  | recv fd t =>
    obtain ⟨hreads, hcomplete⟩ := hen
    obtain ⟨p, m, ms, stream, hms, ⟨hm, r, rfl⟩, hread, hrest⟩ := (h.down fd).read hcomplete
    obtain ⟨hclient, c, hreceive, hruns⟩ := (h.runs fd).receive (r := r) hreads hm
    have hact : w.act env rest (.recv fd t) =
        .ok { w.setProcess fd c with down := Function.update w.down fd stream } := by
      unfold Wire.act
      dsimp only
      rw [hread]
      dsimp only
      rw [hreceive]
      rfl
    have hen' : σ.Enabled (.recv fd) := ⟨hclient, by rw [hms]; exact List.cons_ne_nil _ _⟩
    refine ⟨_, hact, Or.inr ⟨.recv fd, .recv, hen', ?_⟩⟩
    rw [System.act_recv env hms]
    exact ⟨hserver, h.fits, updated hruns h.runs fd, h.up, updated hrest h.down fd⟩
  | serve fd t =>
    obtain ⟨hfd, hserve, hcomplete⟩ := hen
    obtain ⟨p, f, fs, stream, hfs, hmeans, hread, hrest⟩ := (h.up fd).read hcomplete
    have hact : w.act env rest (.serve fd t) =
        .ok { w.deliver rest (w.server.act env (.frame fd f)) with up := Function.update w.up fd stream } := by
      have hreceive : pthreadReceive env fd t (w.up fd) w.server = .ok (w.server.act env (.frame fd f)) := by
        unfold pthreadReceive
        rw [hread]
        dsimp only
        rw [hmeans.load env w.server h.fits.db]
        rfl
      unfold Wire.act
      dsimp only
      rw [hreceive, hread]
      rfl
    have hen' : σ.Enabled (.serve fd) := by
      unfold System.Enabled
      dsimp only
      rw [hfs, hserver]
      exact hserve
    have hfit : Fitting w.server (w.server.act env (.frame fd f)) := act_fits henv h.fits hid ⟨hfd, hmeans.fits⟩
    refine ⟨_, hact, Or.inr ⟨.serve fd, .serve, hen', ?_⟩⟩
    rw [System.act_serve env hfs, hserver]
    have hdeliver : Abstracts (w.deliver rest (w.server.act env (.frame fd f))) _ := h.deliver hfit
    exact ⟨hdeliver.server, hdeliver.fits, hdeliver.runs, updated hrest h.up fd, hdeliver.down⟩
  | hangup fd =>
    have hfit : Fitting w.server (w.server.act env (.hangup fd)) := act_fits henv h.fits hid trivial
    have hen' : σ.Enabled (.hangup fd) := by
      show σ.server.Enabled (.hangup fd)
      rw [hserver]
      exact hen
    refine ⟨_, rfl, Or.inr ⟨.hangup fd, .hangup, hen', ?_⟩⟩
    show Abstracts _ (σ.deliver (σ.server.act env (.hangup fd)))
    rw [hserver]
    exact h.deliver hfit

end Abstracts

/-! ## Runs -/

/-- A matching pair of steps, taken where the two levels agreed. -/
def Agree (env : Env) (rest : List Event → Rest) (w : Wire) (a : Act) (σ : System) (b : System.Act) : Prop :=
  Abstracts w σ ∧ Matches w a b ∧ ∃ w', w.act env rest a = .ok w' ∧ Abstracts w' (σ.act env b)

/-- A step of the byte level beside its system. -/
theorem Abstracts.step (h : Abstracts w σ) (henv : env.Fits) (hreg : Regular w a)
    (hst : w.Enabled a ∧ w.act env rest a = .ok w') :
    (Silent w a ∧ Abstracts w' σ) ∨ ∃ b, σ.Enabled b ∧ Agree env rest w a σ b ∧ Abstracts w' (σ.act env b) := by
  obtain ⟨w₁, hact₁, hcase⟩ := h.act rest henv hreg hst.1
  cases hst.2.symm.trans hact₁
  refine hcase.imp_right ?_
  rintro ⟨b, hmatch, hen, h'⟩
  exact ⟨b, hen, ⟨h, hmatch, w', hst.2, h'⟩, h'⟩

/-- The simulation, for runs whose databases start in `J` and whose steps lead the server into `K`. -/
theorem simulated {J : Database → Prop} {K : Server → Prop} (henv : env.Fits)
    (hr : ((lts env rest).startingIn fun w => w.server.db.Fits ∧ J w.server.db).Run
      (fun w a => Regular w a ∧ ∀ w', w.act env rest a = .ok w' → K w'.server) tr w) :
    ∃ tr' σ, ((System.lts env).startingIn fun σ => J σ.server.db).Run (fun σ b => K (σ.act env b).server) tr' σ ∧
      Abstracts w σ ∧ Lts.Beside Silent (Agree env rest) tr tr' := by
  refine hr.simulate ?_ ?_
  · rintro w ⟨⟨db, rfl⟩, hfits, hJ⟩
    exact ⟨.boot db, ⟨⟨db, rfl⟩, hJ⟩, .boot hfits⟩
  · rintro w a w' σ h ⟨hreg, hK⟩ hst
    refine (h.step henv hreg hst).imp_right ?_
    rintro ⟨b, hen, hagree, h'⟩
    refine ⟨b, σ.act env b, ?_, ⟨hen, rfl⟩, hagree, h'⟩
    rw [h'.server]
    exact hK w' hst.2

/-- Every reachable state has a system behind it. -/
theorem run_abstracts (henv : env.Fits)
    (hr : ((lts env rest).startingIn fun w => w.server.db.Fits).Run Regular tr w) : ∃ σ, Abstracts w σ := by
  refine hr.invariant (I := fun w => ∃ σ, Abstracts w σ) ?_ ?_
  · rintro w ⟨⟨db, rfl⟩, hfits⟩
    exact ⟨.boot db, .boot hfits⟩
  · rintro w a w' ⟨σ, h⟩ hreg hst
    rcases h.step henv hreg hst with ⟨-, h'⟩ | ⟨b, -, -, h'⟩
    · exact ⟨σ, h'⟩
    · exact ⟨_, h'⟩

/-- **The byte level refines the system.** Whatever is typed and however the steps follow each other, every run has
a run of the server and its clients beside it: the same server, clients that stand where the processes stand and
have their lists, and in each direction a channel whose elements are the frames of the stream. -/
theorem refinement (henv : env.Fits)
    (hr : ((lts env rest).startingIn fun w => w.server.db.Fits).Run Regular tr w) :
    ∃ tr' σ, (System.lts env).Run (fun _ _ => True) tr' σ ∧ Abstracts w σ ∧
      Lts.Beside Silent (Agree env rest) tr tr' := by
  refine hr.simulate ?_ ?_
  · rintro w ⟨⟨db, rfl⟩, hfits⟩
    exact ⟨.boot db, ⟨db, rfl⟩, .boot hfits⟩
  · rintro w a w' σ h hreg hst
    refine (h.step henv hreg hst).imp_right ?_
    rintro ⟨b, hen, hagree, h'⟩
    exact ⟨b, σ.act env b, trivial, ⟨hen, rfl⟩, hagree, h'⟩

theorem calm_fits : Server.calm.Fits := by
  have hnode : OnlineNode.Fits ⟨0, 0, ⟨0, 0⟩⟩ := ⟨CInt.inRange_zero, CInt.inRange_zero, by decide⟩
  refine ⟨fun log fd addr h => ?_, fun _ _ => hnode⟩
  obtain rfl := Option.some.inj h
  exact hnode.addr

theorem pairDb_fits : Server.pairDb.Fits := by
  intro u hu
  simp only [Server.pairDb, List.mem_cons, List.not_mem_nil, or_false] at hu
  rcases hu with rfl | rfl <;> decide

/-- The logins, the request and the answer that users 1 and 2 type. -/
theorem refinement_agreement :
    ∃ tr' σ, (System.lts Server.calm).Run (fun _ _ => True) tr' σ ∧
      Abstracts (typedAgreement.foldl (next Server.calm cleared) (boot Server.pairDb)) σ ∧
      Lts.Beside Silent (Agree Server.calm cleared)
        (Lts.steps (next Server.calm cleared) (boot Server.pairDb) typedAgreement) tr' :=
  refinement calm_fits (script_run Server.calm cleared pairDb_fits typedAgreement (by decide +kernel))

/-- **Nothing faults, and the streams stay in step.** In every reachable state, whatever may happen next happens
without a load outside of its payload, at the server or at a client; and the bytes on their way are whole frames
that the other side decodes. -/
theorem no_fault (henv : env.Fits)
    (hr : ((lts env rest).startingIn fun w => w.server.db.Fits).Run Regular tr w) (hreg : Regular w a)
    (hen : w.Enabled a) : (∃ w', w.act env rest a = .ok w') ∧
      ∀ fd, ∃ fs ms, Framed Means (w.up fd) fs ∧ Framed Spells (w.down fd) ms := by
  obtain ⟨σ, h⟩ := run_abstracts henv hr
  obtain ⟨w', hact, -⟩ := h.act rest henv hreg hen
  exact ⟨⟨w', hact⟩, fun fd => ⟨_, _, h.up fd, h.down fd⟩⟩

/-- The approval of user 2, on its way as 20 bytes. -/
theorem no_fault_agreement :
    (∃ w', ((typedAgreement.take 15).foldl (next Server.calm cleared) (boot Server.pairDb)).act Server.calm cleared
        (.serve 6 (whole 12)) = .ok w') ∧
      ∀ fd, ∃ fs ms,
        Framed Means (((typedAgreement.take 15).foldl (next Server.calm cleared) (boot Server.pairDb)).up fd) fs ∧
        Framed Spells (((typedAgreement.take 15).foldl (next Server.calm cleared) (boot Server.pairDb)).down fd) ms :=
  no_fault calm_fits (script_run Server.calm cleared pairDb_fits (typedAgreement.take 15) (by decide +kernel))
    (by decide +kernel) (by decide +kernel)

end Wire

end UnixNote
