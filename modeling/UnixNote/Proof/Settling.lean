import UnixNote.Lib.Queues
import UnixNote.Proof.Streams

/-!
# The system settles

`settles`: when nothing more is typed and nobody connects or leaves, what is on its way is handled and read in finitely
many steps, in whatever order; and where nothing is left to do every process that reads has read all its bytes, and no
frame of a registered connection waits. A frame that is handled makes bytes for the clients, and these make none for
the server, so that the two rows of streams run dry one after the other.
-/

namespace UnixNote

open Function (support)
open Queues (Shortens)
open Server (pthreadReceive)
open Socket (Package Received Transfer)

variable {env : Env} {rest : List Event → Rest} {w w' : Wire} {a : Wire.Act} {t : Transfer} {stream : List UInt8}
  {fd : Int} {tr : List (Wire × Wire.Act)}

namespace Wire

/-! ## Complete reads -/

/-- A complete read takes bytes. -/
theorem Complete.shortens (h : Complete t stream) :
    ∃ got tail, Socket.read t stream = some (got, tail) ∧ tail.length < stream.length := by
  have hsent : (8 : Int) ≤ stream.length := h.header ▸ h.allowed.header_sent
  have hdrop : (stream.drop t.header.toNat).length < stream.length := by
    rw [h.header, List.length_drop]
    omega
  unfold Socket.read
  rw [if_neg (by rw [h.header]; decide), if_neg (by rw [h.header]; decide)]
  dsimp only
  by_cases hpos : 0 < Socket.lenth t stream
  · have hpayload := h.payload hpos
    rw [if_pos hpos, if_neg (by omega), if_neg (by omega)]
    refine ⟨_, _, rfl, lt_of_le_of_lt ?_ hdrop⟩
    rw [List.length_drop]
    omega
  · rw [if_neg hpos]
    exact ⟨_, _, rfl, hdrop⟩

end Wire

/-- **A stream of frames that is not empty can be read.** -/
theorem Framed.complete {α : Type} {P : Package → α → Prop} {bytes : List UInt8} {xs : List α} (h : Framed P bytes xs)
    (hne : bytes ≠ []) : ∃ t, Wire.Complete t bytes := by
  cases h with
  | nil => exact absurd rfl hne
  | @cons p x tail xs _ _ =>
    have hlenth : Socket.lenth ⟨8, p.lenth, List.replicate 8 0, List.replicate p.data.length 0⟩ (p.frame ++ tail) =
        p.lenth := Socket.lenth_whole rfl rfl
    have hsize := p.size
    have hlen : (p.frame ++ tail).length = 8 + p.data.length + tail.length := by
      rw [List.length_append, p.frame_length]
    refine ⟨⟨8, p.lenth, List.replicate 8 0, List.replicate p.data.length 0⟩, ⟨le_refl _, ?_, rfl, ?_, ?_, ?_⟩, rfl, ?_⟩
    · show (8 : Int) ≤ _
      omega
    · intro _
      exact hlenth.ge
    · intro hpos
      rw [hlenth] at hpos
      show p.lenth ≤ (((p.frame ++ tail).drop 8).length : Int)
      rw [List.length_drop]
      omega
    · intro hpos
      rw [hlenth] at hpos ⊢
      rw [List.length_replicate]
      omega
    · intro _
      exact hlenth.symm

namespace Wire

/-! ## Finitely many streams hold bytes -/

/-- The lengths of the streams to the server. -/
def upLength (w : Wire) (fd : Int) : Nat := (w.up fd).length

/-- The lengths of the streams to the processes. -/
def downLength (w : Wire) (fd : Int) : Nat := (w.down fd).length

/-- Finitely many streams hold bytes. -/
structure Sparse (w : Wire) : Prop where
  up : (support w.upLength).Finite
  down : (support w.downLength).Finite

/-- One stream more or less. -/
theorem sparse_update {g : Int → List UInt8} (h : (support fun fd => (g fd).length).Finite) (fd : Int)
    (bytes : List UInt8) : (support fun fd' => (Function.update g fd bytes fd').length).Finite := by
  refine (h.insert fd).subset fun fd' hfd' => ?_
  by_cases hne : fd' = fd
  · exact Or.inl hne
  · rw [Function.mem_support, Function.update_of_ne hne] at hfd'
    exact Or.inr hfd'

/-- Events write to finitely many connections. -/
theorem sparse_wireTo (rest : List Event → Rest) (evs log : List Event) :
    (support fun fd => (wireTo rest fd log evs).length).Finite := by
  induction evs generalizing log with
  | nil =>
    refine Set.finite_empty.subset fun fd hfd => hfd ?_
    rfl
  | cons e evs ih =>
    have hone : ∃ fd₀, ∀ fd, fd ≠ fd₀ → wireTo rest fd log (e :: evs) = wireTo rest fd (log ++ [e]) evs := by
      cases e with
      | write fd₀ m ok =>
        cases ok with
        | false => exact ⟨fd₀, fun _ _ => rfl⟩
        | true =>
          refine ⟨fd₀, fun fd hne => ?_⟩
          rw [wireTo, if_neg (Ne.symm hne), List.nil_append]
      | _ => exact ⟨0, fun _ _ => rfl⟩
    obtain ⟨fd₀, hother⟩ := hone
    refine ((ih (log ++ [e])).insert fd₀).subset fun fd hfd => ?_
    by_cases hne : fd = fd₀
    · exact Or.inl hne
    · rw [Function.mem_support, hother fd hne] at hfd
      exact Or.inr hfd

/-- The server goes on, and fills finitely many streams. -/
theorem sparse_deliver (h : (support w.downLength).Finite) (s : Server) :
    (support (w.deliver rest s).downLength).Finite := by
  refine (h.union (sparse_wireTo rest (s.log.drop w.server.log.length) w.server.log)).subset fun fd hfd => ?_
  by_contra hno
  rw [Set.mem_union, not_or, Function.notMem_support, Function.notMem_support] at hno
  refine hfd ?_
  show (w.down fd ++ _).length = 0
  rw [List.length_append]
  exact Nat.add_eq_zero_iff.2 hno

theorem Sparse.boot (db : Database) : Sparse (.boot db) where
  up := Set.finite_empty.subset fun _ hfd => hfd rfl
  down := Set.finite_empty.subset fun _ hfd => hfd rfl

/-- `Write_client` fills one stream. -/
theorem Sparse.write (h : Sparse w) (fd : Int) (c : Process) (p : Package) : Sparse (w.write fd c p) := by
  unfold Wire.write
  split
  · exact ⟨sparse_update h.up fd _, h.down⟩
  · exact ⟨h.up, h.down⟩

/-- The bytes that the server takes. -/
theorem serve_ok (hact : w.act env rest (.serve fd t) = .ok w') :
    ∃ s, (Socket.read t (w.up fd) = none ∧ w' = w.deliver rest s) ∨ ∃ got stream,
      Socket.read t (w.up fd) = some (got, stream) ∧
        w' = { w.deliver rest s with up := Function.update w.up fd stream } := by
  unfold Wire.act at hact
  dsimp only at hact
  cases hs : pthreadReceive env fd t (w.up fd) w.server with
  | error fault =>
    rw [hs] at hact
    cases hact
  | ok s =>
    rw [hs] at hact
    refine ⟨s, ?_⟩
    cases hread : Socket.read t (w.up fd) with
    | none =>
      rw [hread] at hact
      cases hact
      exact Or.inl ⟨rfl, rfl⟩
    | some x =>
      obtain ⟨got, stream⟩ := x
      rw [hread] at hact
      cases hact
      exact Or.inr ⟨got, stream, rfl, rfl⟩

/-- The bytes that a process takes. -/
theorem recv_ok (hact : w.act env rest (.recv fd t) = .ok w') :
    ∃ c, (Socket.read t (w.down fd) = none ∧ w' = w.setProcess fd c) ∨ ∃ got stream,
      Socket.read t (w.down fd) = some (got, stream) ∧
        w' = { w.setProcess fd c with down := Function.update w.down fd stream } := by
  unfold Wire.act at hact
  dsimp only at hact
  cases hread : Socket.read t (w.down fd) with
  | none =>
    rw [hread] at hact
    cases hact
    exact ⟨_, Or.inl ⟨rfl, rfl⟩⟩
  | some x =>
    obtain ⟨got, stream⟩ := x
    rw [hread] at hact
    dsimp only at hact
    cases hc : (w.process fd).receive got with
    | error fault =>
      rw [hc] at hact
      cases hact
    | ok c =>
      rw [hc] at hact
      cases hact
      exact ⟨c, Or.inr ⟨got, stream, rfl, rfl⟩⟩

/-- **Every action leaves finitely many streams with bytes.** -/
theorem Sparse.act (h : Sparse w) (hact : w.act env rest a = .ok w') : Sparse w' := by
  cases a with
  | connect fd keys =>
    cases hact
    exact ⟨sparse_update h.up fd [], sparse_update h.down fd []⟩
  | ui fd m =>
    unfold Wire.act at hact
    dsimp only at hact
    split at hact
    · cases hact
      exact h
    · cases hact
      exact ⟨h.up, h.down⟩
    · cases hact
      exact h.write fd _ _
  | sentMessages fd n =>
    unfold Wire.act at hact
    dsimp only at hact
    split at hact <;> cases hact <;> exact ⟨h.up, h.down⟩
  | answer fd result =>
    unfold Wire.act at hact
    dsimp only at hact
    split at hact
    · cases hact
      exact h
    · cases hact
      exact h.write fd _ _
  | recv fd t =>
    obtain ⟨c, ⟨-, rfl⟩ | ⟨got, stream, -, rfl⟩⟩ := recv_ok hact
    · exact ⟨h.up, h.down⟩
    · exact ⟨h.up, sparse_update h.down fd stream⟩
  | serve fd t =>
    obtain ⟨s, ⟨-, rfl⟩ | ⟨got, stream, -, rfl⟩⟩ := serve_ok hact
    · exact ⟨h.up, sparse_deliver h.down s⟩
    · exact ⟨sparse_update h.up fd stream, sparse_deliver h.down s⟩
  | hangup fd =>
    cases hact
    exact ⟨h.up, sparse_deliver h.down _⟩

theorem run_sparse {I : Wire → Prop} {C : Wire → Act → Prop} (hr : ((lts env rest).startingIn I).Run C tr w) :
    Sparse w := by
  refine hr.invariant ?_ ?_
  · rintro w ⟨⟨db, rfl⟩, -⟩
    exact .boot db
  · rintro w a w' h - ⟨-, hact⟩
    exact h.act hact

/-! ## Nothing new -/

/-- The server handles a frame, or a process reads one. -/
def Drains (env : Env) (rest : List Event → Rest) (w w' : Wire) : Prop :=
  ∃ fd t a, (a = .serve fd t ∨ a = .recv fd t) ∧ w.Enabled a ∧ w.act env rest a = .ok w'

/-- Nothing is left to do: a process that is reading has read all its bytes, and the server, unless it crashed, has
handled the frames of the connections that it watches. -/
structure Settled (w : Wire) : Prop where
  down : ∀ fd, (w.process fd).reads = true → w.down fd = []
  up : ∀ fd, CInt.InRange fd → w.server.Enabled (.hangup fd) → w.up fd = []

/-- A handled frame is taken from a stream to the server, a message read from a stream to a process. -/
theorem Drains.takes (h : Drains env rest w w') :
    (w'.upLength = w.upLength ∧ Shortens w.downLength w'.downLength) ∨
      (Shortens w.upLength w'.upLength ∧ ((support w.downLength).Finite → (support w'.downLength).Finite)) := by
  have hupdate : ∀ (g : Int → List UInt8) (fd : Int) (stream : List UInt8), stream.length < (g fd).length →
      Shortens (fun fd => (g fd).length) fun fd' => (Function.update g fd stream fd').length := by
    intro g fd stream hlt
    refine ⟨fd, ?_, fun fd' hne => ?_⟩
    · dsimp only
      rw [Function.update_self]
      exact hlt
    · dsimp only
      rw [Function.update_of_ne hne]
  obtain ⟨fd, t, a, rfl | rfl, hen, hact⟩ := h
  · obtain ⟨got, tail, hread, hlt⟩ := hen.2.2.shortens
    obtain ⟨s, ⟨hnone, -⟩ | ⟨got', stream, hread', rfl⟩⟩ := serve_ok hact
    · cases hread.symm.trans hnone
    · cases hread.symm.trans hread'
      exact Or.inr ⟨hupdate w.up fd tail hlt, fun hfin => sparse_deliver hfin s⟩
  · obtain ⟨got, tail, hread, hlt⟩ := hen.2.shortens
    obtain ⟨c, ⟨hnone, -⟩ | ⟨got', stream, hread', rfl⟩⟩ := recv_ok hact
    · cases hread.symm.trans hnone
    · cases hread.symm.trans hread'
      exact Or.inl ⟨rfl, hupdate w.down fd tail hlt⟩

/-- **A state in which nothing drains is settled.** -/
theorem Abstracts.settled {σ : System} (h : Abstracts w σ) (henv : env.Fits)
    (hid : CInt.InRange w.server.db.nextId) (hlast : ∀ w', ¬ Drains env rest w w') : Settled w := by
  constructor
  · intro fd hreads
    by_contra hne
    obtain ⟨t, ht⟩ := (h.down fd).complete hne
    have hen : w.Enabled (.recv fd t) := ⟨hreads, ht⟩
    obtain ⟨w', hact, -⟩ := h.act rest henv ⟨hid, trivial⟩ hen
    exact hlast w' ⟨fd, t, _, Or.inr rfl, hen, hact⟩
  · intro fd hfd hserve
    by_contra hne
    obtain ⟨t, ht⟩ := (h.up fd).complete hne
    have hen : w.Enabled (.serve fd t) := ⟨hfd, hserve, ht⟩
    obtain ⟨w', hact, -⟩ := h.act rest henv ⟨hid, trivial⟩ hen
    exact hlast w' ⟨fd, t, _, Or.inl rfl, hen, hact⟩

/-- Handled frames and read messages go on with a run, as long as ids are `int`s. -/
theorem drains_abstracts {σ : System} (h : Abstracts w σ) (henv : env.Fits) {w' : Wire}
    (hd : Relation.ReflTransGen (fun w w' => CInt.InRange w.server.db.nextId ∧ Drains env rest w w') w w') :
    ∃ σ', Abstracts w' σ' := by
  induction hd with
  | refl => exact ⟨σ, h⟩
  | @tail w₁ w₂ _ hstep ih =>
    obtain ⟨σ₁, h₁⟩ := ih
    obtain ⟨hid, fd, t, a, ha, hen, hact⟩ := hstep
    have hreg : Regular w₁ a := by
      rcases ha with rfl | rfl <;> exact ⟨hid, trivial⟩
    rcases h₁.step henv hreg ⟨hen, hact⟩ with ⟨-, h₂⟩ | ⟨b, -, -, h₂⟩
    · exact ⟨σ₁, h₂⟩
    · exact ⟨_, h₂⟩

/-- **The system settles.** From every reachable state, whatever the environment does, the frames on their way are
handled and the messages read in finitely many steps; and wherever that ends, all is handled and read. -/
theorem settles (henv : env.Fits) (hr : ((lts env rest).startingIn fun w => w.server.db.Fits).Run Regular tr w) :
    Acc (fun w' w => Drains env rest w w') w ∧
      ∀ w', Relation.ReflTransGen (fun w w' => CInt.InRange w.server.db.nextId ∧ Drains env rest w w') w w' →
        CInt.InRange w'.server.db.nextId → (∀ w'', ¬ Drains env rest w' w'') → Settled w' := by
  have hsparse := run_sparse hr
  refine ⟨Queues.accessible upLength downLength _ (fun _ _ => Drains.takes) hsparse.up hsparse.down, ?_⟩
  intro w' hd hid hlast
  obtain ⟨σ, h⟩ := run_abstracts henv hr
  obtain ⟨σ', h'⟩ := drains_abstracts h henv hd
  exact h'.settled henv hid hlast

/-- What is left to do behind the answer of user 2 comes to an end. -/
theorem settles_agreement :
    Acc (fun w' w => Drains Server.calm cleared w w')
      (typedAgreement.foldl (next Server.calm cleared) (boot Server.pairDb)) :=
  (settles calm_fits (script_run Server.calm cleared pairDb_fits typedAgreement (by decide +kernel))).1

end Wire

end UnixNote
