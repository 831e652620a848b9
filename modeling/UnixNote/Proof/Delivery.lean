import UnixNote.Proof.Farewells
import UnixNote.Proof.Recipients
import UnixNote.Proof.RoundTrip

/-!
# From one keyboard to the screens of the friends

`message_delivered`: when no call fails and the bytes on their way are read, a line that is typed into the chat goes
to the recorded addresses of the friends that are online and selected, and is shown, under the id of its author, by
the friends and by nobody else.
-/

namespace UnixNote

open Keyboard (string)
open Server
open Udp (Buffer Datagram pthreadUdp)

namespace Message

variable {s : Iface} {t : Turn} {mine : Int} {packet : List UInt8} {ids : List Int} {nodes : List Node} {i : Nat}
  {l : OnlineList} {data : Vector UInt8 76} {mode : Mode} {a : Attempt} {p : Node}

/-! ## Whom a mode selects -/

/-- The mode is for this id. -/
def Mode.Selects : Mode → Int → Prop
  | .s id, x => x = id
  | .m ids, x => x ∈ ids
  | .a, _ => True

theorem toEach_mem (hl : ∀ k, t.list k = l) (hderef : ∀ p, t.deref p = p.addr) (ha : a ∈ toEach packet t ids i) :
    ∃ p ∈ l.nodes, p.id ∈ ids ∧ a.To packet p := by
  induction ids generalizing i with
  | nil => exact absurd ha List.not_mem_nil
  | cons id ids ih =>
    rw [toEach, hl] at ha
    cases hp : l.searchList id .byId with
    | none =>
      rw [hp] at ha
      obtain ⟨p, hmem, hid, hto⟩ := ih ha
      exact ⟨p, hmem, List.mem_cons_of_mem id hid, hto⟩
    | some p =>
      rw [hp] at ha
      rcases List.mem_cons.1 ha with rfl | ha
      · obtain ⟨hmem, rfl⟩ := OnlineList.searchId_some hp
        exact ⟨p, hmem, List.mem_cons_self, hderef p, rfl⟩
      · obtain ⟨p, hmem, hid, hto⟩ := ih ha
        exact ⟨p, hmem, List.mem_cons_of_mem id hid, hto⟩

theorem mem_toEach (hl : ∀ k, t.list k = l) (hderef : ∀ p, t.deref p = p.addr)
    (hd : Keyed.Distinct (fun n : Node => n.id) l.nodes) (hp : p ∈ l.nodes) (hid : p.id ∈ ids) :
    ∃ a ∈ toEach packet t ids i, a.To packet p := by
  induction ids generalizing i with
  | nil => exact absurd hid List.not_mem_nil
  | cons id ids ih =>
    rw [toEach, hl]
    rcases List.mem_cons.1 hid with rfl | hid
    · have hfound : l.searchList p.id .byId = some p := hd.find?_iff.2 ⟨hp, rfl⟩
      rw [hfound]
      exact ⟨_, List.mem_cons_self, hderef p, rfl⟩
    · obtain ⟨a, ha, hto⟩ := ih (i := i + 1) hid
      split
      · exact ⟨a, ha, hto⟩
      · exact ⟨a, List.mem_cons_of_mem _ ha, hto⟩

theorem toAll_mem (hderef : ∀ p, t.deref p = p.addr) (ha : a ∈ toAll packet t nodes i) :
    ∃ p ∈ nodes, a.To packet p := by
  induction nodes generalizing i with
  | nil => exact absurd ha List.not_mem_nil
  | cons p nodes ih =>
    rw [toAll] at ha
    rcases List.mem_cons.1 ha with rfl | ha
    · exact ⟨p, List.mem_cons_self, hderef p, rfl⟩
    · split at ha
      · obtain ⟨q, hq, hto⟩ := ih ha
        exact ⟨q, List.mem_cons_of_mem p hq, hto⟩
      · exact absurd ha List.not_mem_nil

theorem mem_toAll (hderef : ∀ p, t.deref p = p.addr) (hok : ∀ k, t.ok k = true) (hp : p ∈ nodes) :
    ∃ a ∈ toAll packet t nodes i, a.To packet p := by
  induction nodes generalizing i with
  | nil => exact absurd hp List.not_mem_nil
  | cons q nodes ih =>
    rw [toAll, if_pos (hok i)]
    rcases List.mem_cons.1 hp with rfl | hp
    · exact ⟨_, List.mem_cons_self, hderef p, rfl⟩
    · obtain ⟨a, ha, hto⟩ := ih (i := i + 1) hp
      exact ⟨a, List.mem_cons_of_mem _ ha, hto⟩

/-- **A line goes to the nodes selected**, to each of them when no `sendto` fails. -/
theorem turn_sends (mine : Int) (mode : Mode) (h : s.held = []) (hline : Line t data) (hl : ∀ k, t.list k = l)
    (hderef : ∀ p, t.deref p = p.addr) (hd : Keyed.Distinct (fun n : Node => n.id) l.nodes) :
    ∃ left s' attempts, turn mine mode t s = .ok (left, s') ∧ s'.sent = s.sent ++ attempts ∧
      (∀ a ∈ attempts, ∃ p ∈ l.nodes, mode.Selects p.id ∧ a.To (udpHeader mine (string data)) p) ∧
      ((∀ k, t.ok k = true) → ∀ p ∈ l.nodes, mode.Selects p.id →
        ∃ a ∈ attempts, a.To (udpHeader mine (string data)) p) := by
  cases mode with
  | s id =>
    cases hp : (t.list 0).searchList id .byId with
    | none =>
      refine ⟨_, _, [], turnS_absent h hp, (List.append_nil _).symm, fun a ha => absurd ha List.not_mem_nil, ?_⟩
      intro _ p hmem hid
      rw [hl] at hp
      exact absurd hid (OnlineList.searchId_none.1 hp p hmem)
    | some q =>
      obtain ⟨r, hr⟩ := turnS_line mine h hp hline
      rw [hl] at hp
      obtain ⟨hmem, hid⟩ := OnlineList.searchId_some hp
      refine ⟨_, _, _, hr, rfl, fun a ha => ?_, fun _ p hpmem hpid => ⟨_, List.mem_singleton.2 rfl, ?_, rfl⟩⟩
      · rw [List.mem_singleton.1 ha]
        exact ⟨q, hmem, hid, hderef q, rfl⟩
      · obtain rfl : q = p := hd.eq hmem hpmem (hid.trans hpid.symm)
        exact hderef q
  | m ids =>
    obtain ⟨r, hr⟩ := turnM_line mine ids h hline
    exact ⟨_, _, _, hr, rfl, fun a ha => toEach_mem hl hderef ha, fun _ p hp hid => mem_toEach hl hderef hd hp hid⟩
  | a =>
    obtain ⟨left, s', hr, hsent⟩ := turnA_sent mine h hline
    rw [hl] at hsent
    refine ⟨left, s', _, hr, hsent, fun a ha => ?_, fun hok p hp _ => mem_toAll hderef hok hp⟩
    obtain ⟨p, hp, hto⟩ := toAll_mem hderef ha
    exact ⟨p, hp, trivial, hto⟩

end Message

namespace Wire

open Message (Attempt Iface Mode Turn turn udpHeader)

variable {env : Env} {rest : List Event → Rest} {w : Wire} {tr : List (Wire × Act)} {fd : Int} {n : Node}

/-- The datagram of a `sendto` of the user of `n`, where it arrives: `main` binds the UDP socket to the address of
the connection (`Online_mine_init`), which is the one that the server has for the other end. -/
def datagram (n : Node) (a : Attempt) : Datagram := ⟨n.addr, a.bytes⟩

namespace Sees

/-- The list of a process has no id twice. -/
theorem keyed (h : w.Sees fd n) : Keyed.Distinct (fun n : Node => n.id) (w.process fd).pOnline.nodes := by
  have hd := h.distinct
  rw [OnlineList.contents, List.map_map] at hd
  exact hd

/-- A node in the list of a process is that of a friend online. -/
theorem listed (h : w.Sees fd n) {q : Node} (hq : q ∈ (w.process fd).pOnline.nodes) :
    ∃ p ∈ w.server.pOnline.nodes, p.toOnlineNode = q.toOnlineNode ∧ p.id ∈ w.server.db.friends n.id := by
  obtain ⟨hfriend, hmem⟩ := (h.friends q.toOnlineNode).1 (mem_contents.2 ⟨q, hq, rfl⟩)
  obtain ⟨p, hp, heq⟩ := mem_contents.1 hmem
  refine ⟨p, hp, heq, ?_⟩
  rw [heq]
  exact hfriend

/-- The node of a friend online is in the list. -/
theorem lists (h : w.Sees fd n) {p : Node} (hp : p ∈ w.server.pOnline.nodes) (hf : p.id ∈ w.server.db.friends n.id) :
    ∃ q ∈ (w.process fd).pOnline.nodes, q.toOnlineNode = p.toOnlineNode :=
  mem_contents.1 ((h.friends p.toOnlineNode).2 ⟨hf, mem_contents.2 ⟨p, hp, rfl⟩⟩)

/-- **The check of `pthread_udp`** lets a user's datagram pass when the user is a friend. -/
theorem shows_iff {fd' : Int} {m : Node} (h : w.Sees fd n) (h' : w.Sees fd' m) (hfriends : w.server.db.Friendly)
    (hmine : CInt.InRange n.id) {text : CStr} (hlen : text.length ≤ 75) (hnul : 0 ∉ text) (beyond : List UInt8)
    (buf : Buffer) : pthreadUdp (w.process fd').pOnline beyond buf ⟨n.addr, udpHeader n.id text⟩ =
      if m.id ∈ w.server.db.friends n.id then some (n.id, .ok text) else none := by
  rw [Message.udpHeader_shown hmine hlen hnul]
  by_cases hf : m.id ∈ w.server.db.friends n.id
  · obtain ⟨q, hq, heq⟩ := h'.lists h.node ((hfriends.symmetric _ _).1 hf)
    have hid : q.id = n.id := congrArg OnlineNode.id heq
    have hfound : (w.process fd').pOnline.searchList n.id .byId = some q := h'.keyed.find?_iff.2 ⟨hq, hid⟩
    rw [hfound, if_pos hf]
    exact if_pos (congrArg (fun x => x.addr.port) heq)
  · have hnone : (w.process fd').pOnline.searchList n.id .byId = none := by
      refine OnlineList.searchId_none.2 fun q hq hid => hf ?_
      obtain ⟨p, -, heq, hmem⟩ := h'.listed hq
      have hp : p.id = n.id := (congrArg OnlineNode.id heq).trans hid
      exact (hfriends.symmetric _ _).1 (hp ▸ hmem)
    rw [hnone, if_neg hf]

end Sees

/-- **A message is delivered.** When no call fails and every statement is answered, from tables in which friendship is
mutual and irreflexive, in a state where a process stands in the main loop and has read all its bytes: whatever the
mode, a line that is typed goes to friends of the user that are online and that the mode selects, at the addresses
that the server has for them, and to all of these when no `sendto` fails; and every process that has read all its
bytes shows it, with its text and the id of the user, when its own user is a friend, and shows nothing otherwise. -/
theorem message_delivered (hcalls : env.Flawless) (henv : env.Fits)
    (hr : ((lts env rest).startingIn fun w => w.server.db.Fits ∧ w.server.db.Friendly).Run
      (fun w a => Regular w a ∧ Answered env rest w a) tr w)
    (hmain : Process.inMain (w.process fd).place = true) (hread : w.down fd = []) (mode : Mode) {s : Iface}
    {t : Turn} {data : Vector UInt8 76} (hfree : s.held = []) (hline : Message.Line t data)
    (hl : ∀ k, t.list k = (w.process fd).pOnline) (hderef : ∀ p, t.deref p = p.addr) :
    ∃ n left s' attempts, w.Sees fd n ∧ turn (w.process fd).mineId mode t s = .ok (left, s') ∧
      s'.sent = s.sent ++ attempts ∧
      (∀ a ∈ attempts, ∃ p ∈ w.server.pOnline.nodes, p.id ∈ w.server.db.friends n.id ∧ mode.Selects p.id ∧
        a.addr = p.addr) ∧
      ((∀ k, t.ok k = true) → ∀ p ∈ w.server.pOnline.nodes, p.id ∈ w.server.db.friends n.id → mode.Selects p.id →
        ∃ a ∈ attempts, a.addr = p.addr) ∧
      ∀ a ∈ attempts, ∀ fd', Process.inMain (w.process fd').place = true → w.down fd' = [] → ∀ beyond buf,
        pthreadUdp (w.process fd').pOnline beyond buf (datagram n a) =
          if (w.process fd').mineId ∈ w.server.db.friends n.id then some (n.id, .ok (string data)) else none := by
  obtain ⟨tr', σ, hrun, habs, -⟩ := simulated (K := Server.Answered) henv hr
  obtain ⟨hagreed, htold⟩ := System.run_told hcalls hrun
  obtain ⟨n, hsees⟩ := habs.sees hagreed htold hmain hread
  have hfriends : w.server.db.Friendly := habs.server ▸ hagreed.friendly
  obtain ⟨left, s', attempts, hturn, hsent, hto, hall⟩ :=
    Message.turn_sends (w.process fd).mineId mode hfree hline hl hderef hsees.keyed
  refine ⟨n, left, s', attempts, hsees, hturn, hsent, fun a ha => ?_, fun hok p hp hf hsel => ?_, ?_⟩
  · obtain ⟨q, hq, hsel, haddr, -⟩ := hto a ha
    obtain ⟨p, hp, heq, hf⟩ := hsees.listed hq
    have hid : p.id = q.id := congrArg OnlineNode.id heq
    exact ⟨p, hp, hf, hid ▸ hsel, haddr.trans (congrArg OnlineNode.addr heq).symm⟩
  · obtain ⟨q, hq, heq⟩ := hsees.lists hp hf
    have hid : q.id = p.id := congrArg OnlineNode.id heq
    obtain ⟨a, ha, haddr, -⟩ := hall hok q hq (hid ▸ hsel)
    exact ⟨a, ha, haddr.trans (congrArg OnlineNode.addr heq)⟩
  · intro a ha fd' hmain' hread' beyond buf
    obtain ⟨m, hsees'⟩ := habs.sees hagreed htold hmain' hread'
    obtain ⟨-, -, -, -, hbytes⟩ := hto a ha
    obtain ⟨rest', hin⟩ := hline
    obtain ⟨body, -, -, hlen⟩ := Keyboard.dataInputMsg_line hin
    have hmine : CInt.InRange n.id := hsees.mineId ▸ (habs.runs fd).mineId
    rw [datagram, hbytes, ← hsees.mineId, ← hsees'.mineId]
    exact hsees.shows_iff hsees' hfriends hmine hlen Keyboard.string_nul beyond buf

/-- The letter h and the end of the line, at the list `l`. -/
def typedH (l : OnlineList) : Turn := ⟨[104, 13], .replicate 76 0, fun _ => l, fun p => p.addr, fun _ => true⟩

/-- User 1 types it for all, and user 2 sees it. -/
theorem message_delivered_friends :
    ∃ n a, (typedFriends.foldl (next calm cleared) (boot pairDb)).Sees 5 n ∧ ∀ beyond buf,
      pthreadUdp ((typedFriends.foldl (next calm cleared) (boot pairDb)).process 6).pOnline beyond buf (datagram n a) =
        some (n.id, .ok [104]) := by
  have hr := typedFriends_run
  have hfacts : Process.inMain ((typedFriends.foldl (next calm cleared) (boot pairDb)).process 5).place = true ∧
      (typedFriends.foldl (next calm cleared) (boot pairDb)).down 5 = [] ∧
      Process.inMain ((typedFriends.foldl (next calm cleared) (boot pairDb)).process 6).place = true ∧
      (typedFriends.foldl (next calm cleared) (boot pairDb)).down 6 = [] ∧
      ((typedFriends.foldl (next calm cleared) (boot pairDb)).process 5).mineId = 1 ∧
      ((typedFriends.foldl (next calm cleared) (boot pairDb)).process 6).mineId = 2 ∧
      (⟨⟨2, 6, ⟨0, 0⟩⟩, 1⟩ : Node) ∈ (typedFriends.foldl (next calm cleared) (boot pairDb)).server.pOnline.nodes ∧
      (2 : Int) ∈ (typedFriends.foldl (next calm cleared) (boot pairDb)).server.db.friends 1 := by decide +kernel
  generalize typedFriends.foldl (next calm cleared) (boot pairDb) = w at hr hfacts ⊢
  obtain ⟨hmain, hread, hmain', hread', hone, htwo, hnode, hfriend⟩ := hfacts
  have hline : Message.Line (typedH (w.process 5).pOnline) ((Vector.replicate 76 0).set 0 104) := ⟨[], by rfl⟩
  obtain ⟨n, left, s', attempts, hsees, -, -, -, hall, hshown⟩ := message_delivered (s := ⟨[], 0, 15, []⟩)
    calm_flawless calm_fits hr hmain hread .a rfl hline (fun _ => rfl) fun _ => rfl
  have hid : n.id = 1 := hsees.mineId.trans hone
  obtain ⟨a, ha, -⟩ := hall (fun _ => rfl) _ hnode (hid ▸ hfriend) trivial
  refine ⟨n, a, hsees, fun beyond buf => ?_⟩
  rw [hshown a ha 6 hmain' hread' beyond buf, htwo, if_pos (hid ▸ hfriend)]
  rfl

end Wire

end UnixNote
