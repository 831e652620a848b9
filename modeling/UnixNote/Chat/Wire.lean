import UnixNote.Chat.Process

/-!
# The server and its clients over byte streams

The system once more, one level down: client processes with their keyboards in place of clients, bytes in place
of frames and messages. Every `read(2)` returns all the bytes it was asked for.
-/

namespace UnixNote

open Server (Fault pthreadReceive)
open Socket (Package Transfer)

/-- The bytes of an `Online_node` that nobody sets or reads: `time`, the family and the padding of `addr`,
`next`. -/
structure Rest where
  time : Vector UInt8 8
  family : Vector UInt8 2
  zero : Vector UInt8 8
  next : Vector UInt8 8

/-- The 40 bytes of an `Online_node`. -/
def OnlineNode.bytes (r : Rest) (node : OnlineNode) : List UInt8 :=
  CInt.store node.id ++ CInt.store node.sockfd ++ r.time.toList ++ r.family.toList ++ Bytes.store 2 node.addr.port ++
    Bytes.store 4 node.addr.ip ++ r.zero.toList ++ r.next.toList

theorem OnlineNode.bytes_length (r : Rest) (node : OnlineNode) : (node.bytes r).length = 40 := by
  simp [OnlineNode.bytes]

/-- The header of a node. -/
theorem online_inRange : CInt.InRange OP_ONLINE ∧ CInt.InRange 40 := by decide

/-- What `Write_server` sends. -/
def Msg.package (r : Rest) : Msg → Package
  | .registerSuccess id => Process.ints OP_REGISTER_SUCCESS [id] ⟨by decide, by simp⟩
  | .loginFeedback flag => Process.ints OP_LOGIN_FEEDBACK [flag] ⟨by decide, by simp⟩
  | .online node => ⟨OP_ONLINE, 40, node.bytes r, online_inRange.1, online_inRange.2, node.bytes_length r⟩
  | .offline id => Process.offlinePackage id
  | .allowDisconnect => Process.ints OP_ALLOW_DISCONNECT [] ⟨by decide, by simp⟩
  | .addFriend src dst => Process.addFriendPackage src dst
  | .allowAddf src dst verdict => Process.allowAddfPackage src dst verdict

/-- The bytes that the events `evs` put on the connection `fd`, behind the events `log`. -/
def wireTo (rest : List Event → Rest) (fd : Int) : List Event → List Event → List UInt8
  | _, [] => []
  | log, e :: evs =>
    (match e with
      | .write fd' m true => if fd' = fd then (m.package (rest log)).frame else []
      | _ => []) ++ wireTo rest fd (log ++ [e]) evs

/-- The server, the process at the other end of each descriptor, and the bytes on their way in either
direction. -/
structure Wire where
  server : Server
  process : Int → Process
  up : Int → List UInt8
  down : Int → List UInt8

namespace Wire

/-- What happens next: a process connects, its user interface goes on, `send_message_mgmt` returns, a friend
request is answered, a frame is read, and the server handles a frame or fails to read one. -/
inductive Act where
  | connect (fd : Int) (keys : List Int)
  | ui (fd : Int) (m : Locals)
  | sentMessages (fd : Int) (n : Nat)
  | answer (fd : Int) (result : UInt8)
  | recv (fd : Int) (t : Transfer)
  | serve (fd : Int) (t : Transfer)
  | hangup (fd : Int)

def setProcess (w : Wire) (fd : Int) (c : Process) : Wire := { w with process := Function.update w.process fd c }

/-- `Write_client`: without a connection the process exits. -/
def write (w : Wire) (fd : Int) (c : Process) (p : Package) : Wire :=
  if fd ∈ w.server.opened then
    { w.setProcess fd c with up := Function.update w.up fd (w.up fd ++ p.frame) }
  else w.setProcess fd { c with place := .exited }

/-- The server went on to `s`, and what it wrote since is on its way. -/
def deliver (rest : List Event → Rest) (w : Wire) (s : Server) : Wire :=
  { w with
    server := s
    down := fun fd => w.down fd ++ wireTo rest fd w.server.log (s.log.drop w.server.log.length) }

/-- One action. -/
def act (env : Env) (rest : List Event → Rest) (w : Wire) : Act → Except Fault Wire
  | .connect fd keys => .ok
    { server := w.server.act env (.accept fd)
      process := Function.update w.process fd (.start keys)
      up := Function.update w.up fd []
      down := Function.update w.down fd [] }
  | .ui fd m =>
    match (w.process fd).ui m with
    | none => .ok w
    | some (c, none) => .ok (w.setProcess fd c)
    | some (c, some p) => .ok (w.write fd c p)
  | .sentMessages fd n =>
    match (w.process fd).sentMessages n with
    | none => .ok w
    | some c => .ok (w.setProcess fd c)
  | .answer fd result =>
    match (w.process fd).answer result with
    | none => .ok w
    | some (c, p) => .ok (w.write fd c p)
  | .recv fd t =>
    match Socket.read t (w.down fd) with
    -- `Read_client` exits
    | none => .ok (w.setProcess fd { w.process fd with place := .exited })
    | some (got, stream) => do
      let c ← (w.process fd).receive got
      return { w.setProcess fd c with down := Function.update w.down fd stream }
  | .serve fd t => do
    let s ← pthreadReceive env fd t (w.up fd) w.server
    match Socket.read t (w.up fd) with
    | none => return w.deliver rest s
    | some (_, stream) => return { w.deliver rest s with up := Function.update w.up fd stream }
  | .hangup fd => .ok (w.deliver rest (w.server.act env (.hangup fd)))

/-- Both `read(2)` of a `Read` return all they were asked for. -/
structure Complete (t : Transfer) (stream : List UInt8) : Prop where
  allowed : t.Allowed stream
  header : t.header = 8
  payload : 0 < Socket.lenth t stream → t.payload = Socket.lenth t stream

instance (t : Transfer) (stream : List UInt8) : Decidable (Complete t stream) :=
  decidable_of_iff
    ((t.header ≤ 8 ∧ t.header ≤ stream.length ∧ t.stack.length = 8 ∧
        (0 < Socket.lenth t stream → t.payload ≤ Socket.lenth t stream) ∧
        (0 < Socket.lenth t stream → t.payload ≤ (stream.drop t.header.toNat).length) ∧
        (0 < Socket.lenth t stream → (t.heap.length : Int) = Socket.lenth t stream)) ∧
      t.header = 8 ∧ (0 < Socket.lenth t stream → t.payload = Socket.lenth t stream))
    ⟨fun ⟨⟨h₁, h₂, h₃, h₄, h₅, h₆⟩, h, hp⟩ => ⟨⟨h₁, h₂, h₃, h₄, h₅, h₆⟩, h, hp⟩,
      fun ⟨⟨h₁, h₂, h₃, h₄, h₅, h₆⟩, h, hp⟩ => ⟨⟨h₁, h₂, h₃, h₄, h₅, h₆⟩, h, hp⟩⟩

/-- A process goes on when it does not wait, and reads when a frame is there; the server does what
`Server.Enabled` allows. A descriptor is an `int`. -/
def Enabled (w : Wire) : Act → Prop
  | .connect fd _ => w.server.Enabled (.accept fd)
  | .ui fd m => ((w.process fd).ui m).isSome
  | .sentMessages fd n => ((w.process fd).sentMessages n).isSome
  | .answer fd result => ((w.process fd).answer result).isSome
  | .recv fd t => (w.process fd).reads = true ∧ Complete t (w.down fd)
  | .serve fd t => CInt.InRange fd ∧ w.server.Enabled (.hangup fd) ∧ Complete t (w.up fd)
  | .hangup fd => w.server.Enabled (.hangup fd)

instance (w : Wire) : (a : Act) → Decidable (w.Enabled a)
  | .connect fd _ => inferInstanceAs (Decidable (w.server.Enabled (.accept fd)))
  | .ui fd m => inferInstanceAs (Decidable (((w.process fd).ui m).isSome = true))
  | .sentMessages fd n => inferInstanceAs (Decidable (((w.process fd).sentMessages n).isSome = true))
  | .answer fd result => inferInstanceAs (Decidable (((w.process fd).answer result).isSome = true))
  | .recv fd t => inferInstanceAs (Decidable ((w.process fd).reads = true ∧ Complete t (w.down fd)))
  | .serve fd t =>
    inferInstanceAs (Decidable (CInt.InRange fd ∧ w.server.Enabled (.hangup fd) ∧ Complete t (w.up fd)))
  | .hangup fd => inferInstanceAs (Decidable (w.server.Enabled (.hangup fd)))

/-- Before anybody has connected, over the database `db`. -/
def boot (db : Database) : Wire := ⟨.boot db, fun _ => .start [], fun _ => [], fun _ => []⟩

/-- The system over every initial database. -/
def lts (env : Env) (rest : List Event → Rest) : Lts Wire Act where
  init w := ∃ db, w = boot db
  step w a w' := w.Enabled a ∧ w.act env rest a = .ok w'

/-! ## A small instance -/

/-- The state behind an action that does not fault. -/
def next (env : Env) (rest : List Event → Rest) (w : Wire) (a : Act) : Wire :=
  match w.act env rest a with
  | .ok w' => w'
  | .error _ => w

theorem act_next {env : Env} {rest : List Event → Rest} {w : Wire} {a : Act} (h : (w.act env rest a).isOk = true) :
    w.act env rest a = .ok (next env rest w a) := by
  unfold next
  cases hact : w.act env rest a with
  | ok w' => rfl
  | error fault =>
    rw [hact] at h
    cases h

/-- A script of actions, from an initial database. -/
theorem script_run (env : Env) (rest : List Event → Rest) {I : Wire → Prop} {C : Wire → Act → Prop} {db : Database}
    (hI : I (boot db)) (as : List Act)
    (h : Lts.Script (fun w a => (C w a ∧ w.Enabled a) ∧ (w.act env rest a).isOk = true) (next env rest) (boot db) as) :
    ((lts env rest).startingIn I).Run C (Lts.steps (next env rest) (boot db) as)
      (as.foldl (next env rest) (boot db)) := by
  have h₀ : ((lts env rest).startingIn I).Run C [] (boot db) := .start ⟨⟨db, rfl⟩, hI⟩
  refine h₀.script ?_ as h
  rintro w a ⟨⟨hC, hen⟩, hok⟩
  exact ⟨hC, hen, act_next hok⟩

/-- A `Read` that takes a header and a payload of `n` bytes. -/
def whole (n : Nat) : Transfer := ⟨8, n, List.replicate 8 0, List.replicate n 0⟩

/-- Memory that was cleared. -/
def cleared : List Event → Rest := fun _ => ⟨.replicate 8 0, .replicate 2 0, .replicate 8 0, .replicate 8 0⟩

theorem zeroed_room : 24 < (List.replicate 25 (0 : UInt8)).length := by decide

def zeroed : Locals := ⟨.replicate 11 0, .replicate 11 0, ⟨List.replicate 25 0, 0, zeroed_room⟩, .replicate 7 0⟩

/-- Users 1 and 2 type their logins, 1 types the id of 2 for a friend, and 2 answers with `y`. -/
def typedAgreement : List Act :=
  -- `L`, newline, the id, newline, and an empty password; then `A`, newline, `2`, newline
  [.connect 5 [76, 10, 49, 10, 10, 65, 10, 50, 10], .ui 5 zeroed, .ui 5 zeroed, .serve 5 (whole 24), .recv 5 (whole 4),
    .connect 6 [76, 10, 50, 10, 10], .ui 6 zeroed, .ui 6 zeroed, .serve 6 (whole 24), .recv 6 (whole 4),
    .ui 5 zeroed, .ui 5 zeroed, .serve 5 (whole 8), .recv 6 (whole 8), .answer 6 121, .serve 6 (whole 12)]

/-- The same, and both read that they are friends. -/
def typedFriends : List Act := typedAgreement ++ [.recv 5 (whole 12), .recv 5 (whole 40), .recv 6 (whole 40)]

end Wire

end UnixNote
