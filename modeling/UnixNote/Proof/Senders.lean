import UnixNote.Chat.Sender

/-!
# The sender and the friends that go offline

`send_message_mgmt` keeps the pointer from `search_list` while it waits for a line.
`sender_live`: as long as no `OP_OFFLINE` takes the node it holds out of the list, it reads
nodes of the list only, and every datagram goes to a friend that was listed when its address
was read. `sender_live_breaks`: the friend goes offline while the line is typed.
-/

namespace UnixNote.Sender

variable {s s' : Chat} {a : Act} {tr : List (Chat × Act)} {p : Node} {id : Int} {log : List Event}

/-- The node the sender holds. -/
def Pc.held : Pc → Option Node
  | .typing _ p => some p
  | .typed _ p _ => some p
  | .ported _ p _ _ => some p
  | _ => none

/-- An `OP_OFFLINE` does not remove the node that the sender holds. -/
def Undisturbed (s : Chat) (a : Act) : Prop :=
  ∀ id p, a = .offline id → s.pc.held = some p → s.pOnline.searchList id .byId ≠ some p

/-- The address `addr` was that of a listed node when its last field was read. -/
def ReadFrom (tr : List (Chat × Act)) (addr : SockAddr) : Prop :=
  ∃ s₁ stale p, (s₁, Act.readAddr stale) ∈ tr ∧ s₁.pc.held = some p ∧ p ∈ s₁.pOnline.nodes ∧ addr = p.addr

theorem ReadFrom.mono {addr : SockAddr} (h : ReadFrom tr addr) (x : Chat × Act) : ReadFrom (tr ++ [x]) addr := by
  obtain ⟨s₁, stale, p, hmem, hrest⟩ := h
  exact ⟨s₁, stale, p, List.mem_append_left _ hmem, hrest⟩

/-- What the sender holds is listed, and what it has of an address is right. -/
def Holds (tr : List (Chat × Act)) (l : OnlineList) : Pc → Prop
  | .menu => True
  | .looking _ => True
  | .typing _ p => p ∈ l.nodes
  | .typed _ p _ => p ∈ l.nodes
  | .ported _ p _ port => p ∈ l.nodes ∧ port = p.addr.port
  | .addressed _ _ addr => ReadFrom tr addr

/-- What an event says about the run so far. -/
def Fair (tr : List (Chat × Act)) : Event → Prop
  | .read _ live => live = true
  | .sendto addr _ => ReadFrom tr addr

/-- The invariant of a run. -/
structure Sound (tr : List (Chat × Act)) (s : Chat) : Prop where
  holds : Holds tr s.pOnline s.pc
  log : ∀ e ∈ s.log, Fair tr e

theorem Holds.mono {l l' : OnlineList} {pc : Pc} (h : Holds tr l pc) (x : Chat × Act)
    (hp : ∀ p, pc.held = some p → p ∈ l.nodes → p ∈ l'.nodes) : Holds (tr ++ [x]) l' pc := by
  cases pc with
  | menu => trivial
  | looking id => trivial
  | typing id p => exact hp p rfl h
  | typed id p rxData => exact hp p rfl h
  | ported id p rxData port => exact ⟨hp p rfl h.1, h.2⟩
  | addressed id rxData addr => exact ReadFrom.mono h x

theorem Fair.mono {e : Event} (h : Fair tr e) (x : Chat × Act) : Fair (tr ++ [x]) e := by
  cases e with
  | read ref live => exact h
  | sendto addr rxData => exact ReadFrom.mono h x

/-- A field of a listed node. -/
theorem read_live (hp : p ∈ s.pOnline.nodes) (field : SockAddr → Nat) (stale : Nat) :
    s.read p field stale = (s.log ++ [.read p.ref true], field p.addr) := by
  unfold Chat.read
  rw [OnlineList.live_of_mem hp]
  rfl

/-- **One step** keeps what the sender holds in the list. -/
theorem Sound.step (h : Sound tr s) (hC : Undisturbed s a) (hstep : s.step a = some s') :
    Sound (tr ++ [(s, a)]) s' := by
  have hold : ∀ e ∈ s.log, Fair (tr ++ [(s, a)]) e := fun e he => (h.log e he).mono _
  have hnew : ∀ e, Fair (tr ++ [(s, a)]) e → ∀ e' ∈ s.log ++ [e], Fair (tr ++ [(s, a)]) e' := by
    intro e he e' hm
    rcases List.mem_append.1 hm with hm | hm
    · exact hold e' hm
    · rw [List.mem_singleton.1 hm]
      exact he
  have hholds := h.holds
  unfold Chat.step at hstep
  split at hstep
  · cases hstep
    exact ⟨trivial, hold⟩
  · split at hstep
    · cases hstep
      exact ⟨trivial, hold⟩
    · rename_i pfriend hp
      cases hstep
      exact ⟨(OnlineList.searchId_some hp).1, hold⟩
  · cases hstep
    exact ⟨trivial, hold⟩
  · rename_i rxData id pfriend hpc
    rw [hpc] at hholds
    cases hstep
    exact ⟨hholds, hold⟩
  · rename_i stale id pfriend rxData hpc
    rw [hpc] at hholds
    -- the node is listed, so both fields are read from it
    rw [read_live hholds] at hstep
    cases hstep
    exact ⟨⟨hholds, rfl⟩, hnew _ rfl⟩
  · rename_i stale id pfriend rxData port hpc
    rw [hpc] at hholds
    obtain ⟨hmem, rfl⟩ := hholds
    rw [read_live hmem] at hstep
    cases hstep
    refine ⟨⟨s, stale, pfriend, List.mem_concat_self, ?_, hmem, rfl⟩, hnew _ rfl⟩
    rw [hpc]
    rfl
  · rename_i ok id rxData addr hpc
    rw [hpc] at hholds
    cases hstep
    refine ⟨?_, hnew _ (ReadFrom.mono hholds _)⟩
    cases ok with
    | true => trivial
    | false => trivial
  · cases hstep
    -- `add_list` keeps every node, `del_list` all but the first with the id
    exact ⟨hholds.mono _ fun p _ hp => List.mem_cons_of_mem _ hp, hold⟩
  · rename_i x
    cases hstep
    exact ⟨hholds.mono _ fun p hheld hp => Keyed.mem_eraseP_of_find?_ne hp (hC x p rfl hheld), hold⟩
  · cases hstep

/-- **The sender only uses a friend that is still listed**, in every run where no `OP_OFFLINE` removes the
node it holds: every field it reads is that of a listed node, and every datagram goes to the address
of a node that was listed when the address was read. -/
theorem sender_live (hr : lts.Run Undisturbed tr s) :
    (∀ ref, .read ref false ∉ s.log) ∧ ∀ addr rxData, .sendto addr rxData ∈ s.log → ReadFrom tr addr := by
  have h : Sound tr s := by
    refine hr.history (I := Sound) ?_ fun tr s a s' h hC hst => h.step hC hst
    rintro s ⟨hpc, hlog⟩
    refine ⟨?_, ?_⟩
    · rw [hpc]
      trivial
    · simp [hlog]
  refine ⟨fun ref hm => ?_, fun addr rxData hm => h.log _ hm⟩
  exact Bool.false_ne_true (h.log _ hm)

/-- A client whose friend 2 is online. -/
def friendly : Chat := ⟨OnlineList.create.addList ⟨2, 0, ⟨7, 8⟩⟩, .menu, []⟩

/-- What the steps `as` come to. -/
def after (as : List Act) : Chat := as.foldl (fun s a => (s.step a).getD s) friendly

/-- Steps that can be taken make a run. -/
theorem run_after {C : Chat → Act → Prop} {q : Act → Bool} (hC : ∀ s a, q a = true → C s a) (as : List Act)
    (h : Lts.Script (fun s a => (s.step a).isSome = true ∧ q a = true) (fun s a => (s.step a).getD s) friendly as) :
    lts.Run C (Lts.steps (fun s a => (s.step a).getD s) friendly as) (after as) := by
  have h₀ : lts.Run C [] friendly := .start ⟨rfl, rfl⟩
  refine h₀.script (fun s a ha => ⟨hC s a ha.2, ?_⟩) as h
  have hne : s.step a ≠ none := Option.isSome_iff_ne_none.1 ha.1
  exact (Option.getD_of_ne_none hne s).symm

/-- Nobody goes offline. -/
def Act.stays : Act → Bool
  | .offline _ => false
  | _ => true

/-- A line to friend 2. -/
theorem sender_live_line : ¬ ∃ ref, .read ref false ∈
    (after [.select 2, .search, .line [104], .readPort 0, .readAddr 0, .send true]).log := by
  have hquiet : ∀ (s : Chat) (a : Act), a.stays = true → Undisturbed s a := by
    rintro s a h id p rfl
    cases h
  have hrun := run_after hquiet [.select 2, .search, .line [104], .readPort 0, .readAddr 0, .send true] (by decide)
  exact not_exists.2 (sender_live hrun).1

/-- **A datagram for a friend that has gone**: it goes offline while the line is typed, and the address
is read from a freed node. -/
theorem sender_live_breaks :
    ∃ tr, lts.Run (fun _ _ => True) tr
        (after [.select 2, .search, .offline 2, .line [104], .readPort 0, .readAddr 0, .send true]) ∧
      .read 0 false ∈
        (after [.select 2, .search, .offline 2, .line [104], .readPort 0, .readAddr 0, .send true]).log := by
  have hrun := run_after (q := fun _ => true) (fun _ _ _ => trivial)
    [.select 2, .search, .offline 2, .line [104], .readPort 0, .readAddr 0, .send true] (by decide)
  exact ⟨_, hrun, by decide⟩

end UnixNote.Sender
