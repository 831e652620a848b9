import Mathlib.Logic.Function.Basic
import UnixNote.Chat.Action

/-!
# The server together with its clients

A client is the program of `client.c` and `menumgmt.c`, reduced to what it exchanges
with the server: `Phase` is the place in its code where it stands, `Client.Sends` what
it may write there, `Client.recv` what it does with the next message.
`System.lts` runs the server with one client process and a channel in each direction
for every connection. Messages of one direction arrive in the order they were
written.
-/

namespace UnixNote

/-! ## The client -/

/-- Where the client stands: at the welcome menu, inside `Login_Iface_mgmt` after a refused
login, waiting for the answer to a registration or to a login, in the main loop with its
`mine.id`, or gone. -/
inductive Phase where
  | welIface
  | loginIface
  | registerSent
  | loginSent (id : Int)
  | operaIface (id : Int)
  | exited
  deriving DecidableEq, Repr

/-- The client process: its list of friends online, and the ids of the friend requests it
has received. -/
structure Client where
  phase : Phase
  pOnline : OnlineList
  asked : List (Int × Int)

/-- What a message does to the list of the client that reads it. -/
def OnlineList.apply (l : OnlineList) : Msg → OnlineList
  | .online node => l.addList node
  | .offline id => l.delList id .byId
  | _ => l

namespace Client

/-- A client that has just connected. -/
def fresh : Client := ⟨.welIface, .create, []⟩

/-- `Register_Iface_mgmt` behind its read. -/
def registerIfaceMgmt : Msg → Phase
  | .registerSuccess id => if id = -1 then .exited else .welIface
  | _ => .exited

/-- `Login_Iface_mgmt` behind its read, after a login as `id`. With a flag it does not know it
returns, and `mine.id` keeps its initial 0. -/
def loginIfaceMgmt (id : Int) : Msg → Phase
  | .loginFeedback flag =>
    if flag = 0 then .operaIface id
    else if flag = -1 then .loginIface
    else if flag = -2 then .exited
    else if flag = -3 then .loginIface
    else .operaIface 0
  | _ => .exited

/-- `analysis_receive` of `client.c`. -/
def analysisReceive (c : Client) : Msg → Client
  | .online node => { c with pOnline := c.pOnline.addList node }
  | .offline id => { c with pOnline := c.pOnline.delList id .byId }
  | .allowDisconnect => { c with phase := .exited }
  | .addFriend src dst => { c with asked := (src, dst) :: c.asked }
  | _ => c

/-- The client reads a message. -/
def recv (c : Client) (m : Msg) : Client :=
  match c.phase with
  | .registerSent => { c with phase := registerIfaceMgmt m }
  | .loginSent id => { c with phase := loginIfaceMgmt id m }
  | .operaIface _ => c.analysisReceive m
  | _ => c

/-- Whether the client is reading. -/
def reads (c : Client) : Bool :=
  match c.phase with
  | .registerSent => true
  | .loginSent _ => true
  | .operaIface _ => true
  | _ => false

/-- The frames the client may write: its own id in `OP_OFFLINE`, its own id and another one in
`OP_ADD_FRIEND`, and in `OP_ALLOW_ADDF` the ids of a request it received. `add_friend_action`
answers each request once; here it may be answered any number of times. -/
def Sends (c : Client) (f : Frame) : Prop :=
  match c.phase, f with
  | .welIface, .register _ => True
  | .welIface, .login _ => True
  | .loginIface, .login _ => True
  | .operaIface id, .offline x => x = id
  | .operaIface id, .addFriend src dst => src = id ∧ src ≠ dst
  | .operaIface _, .allowAddf src dst verdict => (src, dst) ∈ c.asked ∧ (verdict = 0 ∨ verdict = 1)
  | _, _ => False

instance (c : Client) (f : Frame) : Decidable (c.Sends f) := by
  unfold Sends; split <;> infer_instance

/-- The client behind the write of `f`. -/
def send (c : Client) : Frame → Client
  | .register _ => { c with phase := .registerSent }
  | .login user => { c with phase := .loginSent user.id }
  | _ => c

end Client

/-! ## The system -/

/-- The messages among the events that were written to `fd`. -/
def sent (fd : Int) (evs : List Event) : List Msg :=
  evs.filterMap fun e => match e with
    | .write fd' m true => if fd' = fd then some m else none
    | _ => none

/-- The server, the client at the other end of each descriptor, and what is on its way in
either direction. -/
structure System where
  server : Server
  client : Int → Client
  toServer : Int → List Frame
  toClient : Int → List Msg

namespace System

/-- What happens next: a client connects, writes or reads, and the server handles the next
frame of a connection or fails to read from it. -/
inductive Act where
  | connect (fd : Int)
  | send (fd : Int) (f : Frame)
  | recv (fd : Int)
  | serve (fd : Int)
  | hangup (fd : Int)
  deriving DecidableEq, Repr

/-- The server went on to `s`, and what it wrote since is on its way. -/
def deliver (σ : System) (s : Server) : System :=
  { σ with
    server := s
    toClient := fun fd => σ.toClient fd ++ sent fd (s.log.drop σ.server.log.length) }

/-- One action. -/
def act (env : Env) (σ : System) : Act → System
  | .connect fd =>
    { server := σ.server.act env (.accept fd)
      client := Function.update σ.client fd .fresh
      toServer := Function.update σ.toServer fd []
      toClient := Function.update σ.toClient fd [] }
  | .send fd f =>
    { σ with
      client := Function.update σ.client fd ((σ.client fd).send f)
      toServer := Function.update σ.toServer fd (σ.toServer fd ++ [f]) }
  | .recv fd =>
    match σ.toClient fd with
    | [] => σ
    | m :: ms =>
      { σ with
        client := Function.update σ.client fd ((σ.client fd).recv m)
        toClient := Function.update σ.toClient fd ms }
  | .serve fd =>
    match σ.toServer fd with
    | [] => σ
    | f :: fs =>
      { σ.deliver (σ.server.act env (.frame fd f)) with toServer := Function.update σ.toServer fd fs }
  | .hangup fd => σ.deliver (σ.server.act env (.hangup fd))

/-- A client writes what it may, and reads when it is reading; the server does what
`Server.Enabled` allows. -/
def Enabled (σ : System) : Act → Prop
  | .connect fd => σ.server.Enabled (.accept fd)
  | .send fd f => fd ∈ σ.server.opened ∧ (σ.client fd).Sends f
  | .recv fd => (σ.client fd).reads = true ∧ σ.toClient fd ≠ []
  | .serve fd =>
    match σ.toServer fd with
    | [] => False
    | f :: _ => σ.server.Enabled (.frame fd f)
  | .hangup fd => σ.server.Enabled (.hangup fd)

instance (σ : System) (a : Act) : Decidable (σ.Enabled a) := by
  unfold Enabled
  split
  · infer_instance
  · infer_instance
  · infer_instance
  · split <;> infer_instance
  · infer_instance

variable {σ : System} {fd : Int} {f : Frame} {fs : List Frame} {m : Msg} {ms : List Msg}

/-- The server handles a frame only when there is one. -/
theorem enabled_serve (h : σ.Enabled (.serve fd)) :
    ∃ f fs, σ.toServer fd = f :: fs ∧ σ.server.Enabled (.frame fd f) := by
  unfold Enabled at h
  dsimp only at h
  split at h
  · exact h.elim
  · rename_i f fs hto
    exact ⟨f, fs, hto, h⟩

theorem act_serve (env : Env) (h : σ.toServer fd = f :: fs) : σ.act env (.serve fd) =
    { σ.deliver (σ.server.act env (.frame fd f)) with toServer := Function.update σ.toServer fd fs } := by
  unfold act
  simp only [h]

/-- A client reads only when there is a message. -/
theorem enabled_recv (h : σ.Enabled (.recv fd)) : ∃ m ms, σ.toClient fd = m :: ms :=
  List.exists_cons_of_ne_nil h.2

theorem act_recv (env : Env) (h : σ.toClient fd = m :: ms) : σ.act env (.recv fd) =
    { σ with
      client := Function.update σ.client fd ((σ.client fd).recv m)
      toClient := Function.update σ.toClient fd ms } := by
  unfold act
  simp only [h]

/-- The system before anybody has connected, over the database `db`. -/
def boot (db : Database) : System := ⟨.boot db, fun _ => .fresh, fun _ => [], fun _ => []⟩

/-- The system over every initial database. -/
def lts (env : Env) : Lts System Act where
  init σ := ∃ db, σ = boot db
  step σ a σ' := σ.Enabled a ∧ σ' = σ.act env a

/-- The list of the client on `fd` once it has read all that is on its way. -/
def view (σ : System) (fd : Int) : OnlineList := (σ.toClient fd).foldl OnlineList.apply (σ.client fd).pOnline

/-- A script of the system, from an initial database. -/
theorem script_run (env : Env) {I : System → Prop} {C : System → Act → Prop} {db : Database} (hI : I (boot db))
    (as : List Act) (h : Lts.Script (fun σ a => C σ a ∧ σ.Enabled a) (act env) (boot db) as) :
    ((lts env).startingIn I).Run C (Lts.steps (act env) (boot db) as) (as.foldl (act env) (boot db)) := by
  have h₀ : ((lts env).startingIn I).Run C [] (boot db) := .start ⟨⟨db, rfl⟩, hI⟩
  refine h₀.script ?_ as h
  rintro σ a ⟨hC, hen⟩
  exact ⟨hC, hen, rfl⟩

/-! ## A small instance -/

/-- Users 1 and 2 log in, 1 asks 2 to be friends, and 2 agrees. -/
def agreement : List Act :=
  [.connect 5, .send 5 (.login ⟨1, [], []⟩), .serve 5, .recv 5, .connect 6, .send 6 (.login ⟨2, [], []⟩), .serve 6,
    .recv 6, .send 5 (.addFriend 1 2), .serve 5, .recv 6, .send 6 (.allowAddf 1 2 1)]

end System

end UnixNote
