import UnixNote.Chat.Wire
import UnixNote.Proof.Credentials

/-!
# What both ends make of each other's bytes

Values that have room in their fields (`Fits`) survive the trip: a frame read by `read(2)` calls that return all
they were asked for is the one that was written (`Complete.read`), the server decodes what a client wrote
(`Means`), and a node arrives with its fields (`loadNode_bytes`).
-/

namespace UnixNote

open Server (Fault load loadInt loadStr comparePassword)
open Socket (Package Received Transfer)

/-! ## Values with room in their fields -/

def SockAddr.Fits (a : SockAddr) : Prop := a.ip < 4294967296 ∧ a.port < 65536

instance (a : SockAddr) : Decidable a.Fits := inferInstanceAs (Decidable (_ ∧ _))

structure OnlineNode.Fits (n : OnlineNode) : Prop where
  id : CInt.InRange n.id
  sockfd : CInt.InRange n.sockfd
  addr : n.addr.Fits

/-- The fields of a message. -/
def Msg.Fits : Msg → Prop
  | .registerSuccess id => CInt.InRange id
  | .loginFeedback flag => CInt.InRange flag
  | .online node => node.Fits
  | .offline id => CInt.InRange id
  | .allowDisconnect => True
  | .addFriend src dst => CInt.InRange src ∧ CInt.InRange dst
  | .allowAddf src dst verdict => CInt.InRange src ∧ CInt.InRange dst ∧ CInt.InRange verdict

/-- The fields of a frame. A string has no NUL. -/
def Frame.Fits : Frame → Prop
  | .register user => 0 ∉ user.username ∧ 0 ∉ user.password
  | .login user => CInt.InRange user.id ∧ 0 ∉ user.password
  | .heartbeat id => CInt.InRange id
  | .offline id => CInt.InRange id
  | .addFriend src dst => CInt.InRange src ∧ CInt.InRange dst
  | .allowAddf src dst verdict => CInt.InRange src ∧ CInt.InRange dst ∧ CInt.InRange verdict
  | .other op => CInt.InRange op

/-- The rows of the table `user` as `mysql_fetch_row` returns them: ids are `int`s, strings have no NUL. -/
def Database.Fits (db : Database) : Prop := ∀ u ∈ db.user, CInt.InRange u.id ∧ 0 ∉ u.password

/-! ## Frames -/

variable {p : Package} {t : Transfer} {stream rest : List UInt8} {node : OnlineNode} {r : Rest} {env : Env}
  {s : Server} {f g : Frame}

/-- **A complete read** of a stream that begins with a frame takes exactly that frame. -/
theorem Wire.Complete.read (h : Wire.Complete t (p.frame ++ rest)) :
    Socket.read t (p.frame ++ rest) = some (p.received, rest) := by
  have hlen : Socket.lenth t (p.frame ++ rest) = p.lenth := Socket.lenth_whole h.header h.allowed.stack_size
  refine Socket.read_whole h.allowed ⟨h.header, fun hpos => ?_⟩
  rw [← hlen] at hpos ⊢
  exact h.payload hpos

/-- Nothing can be read completely from an empty stream. -/
theorem Wire.Complete.ne_nil (h : Wire.Complete t stream) : stream ≠ [] := by
  rintro rfl
  have hsent := h.allowed.header_sent
  rw [h.header] at hsent
  exact absurd hsent (by decide)

/-! ## Arrays of `int` -/

namespace Process

theorem ints_received {op : Int} {xs : List Int} {h : CInt.InRange op ∧ xs.length < 4} (hne : xs ≠ []) :
    (ints op xs h).received = ⟨op, some (xs.flatMap CInt.store)⟩ := by
  have hpos : (0 : Int) < 4 * xs.length := by
    have := List.length_pos_iff.2 hne
    omega
  show (⟨op, if (0 : Int) < 4 * xs.length then some (xs.flatMap CInt.store) else none⟩ : Received) = _
  rw [if_pos hpos]

/-- **An element is loaded from its offset.** -/
theorem loadInt_ints (before after : List Int) {x : Int} (hx : CInt.InRange x) :
    loadInt (some ((before ++ x :: after).flatMap CInt.store)) (4 * before.length) = .ok x := by
  have hbytes : ∀ ys : List Int, (ys.flatMap CInt.store).length = 4 * ys.length := by
    intro ys
    rw [List.length_flatMap, List.map_congr_left fun x _ => CInt.store_length]
    simp
    omega
  have hlen : 4 * before.length + 4 ≤ ((before ++ x :: after).flatMap CInt.store).length := by
    rw [hbytes, List.length_append, List.length_cons]
    omega
  rw [Server.loadInt_of_le hlen, List.flatMap_append, List.drop_left' (hbytes before), List.flatMap_cons,
    CInt.load_store hx]

/-! ## Nodes -/

/-- **A node arrives with its fields**, whatever is between them. -/
theorem loadNode_bytes (h : node.Fits) : loadNode (some (node.bytes r)) = .ok node := by
  obtain ⟨hid, hsockfd, hip, hport⟩ := h
  obtain ⟨id, sockfd, ip, port⟩ := node
  have h4 : (OnlineNode.bytes r ⟨id, sockfd, ip, port⟩).drop 4 = CInt.store sockfd ++ (r.time.toList ++
      r.family.toList ++ Bytes.store 2 port ++ Bytes.store 4 ip ++ r.zero.toList ++ r.next.toList) := by
    simp only [OnlineNode.bytes, List.append_assoc]
    exact List.drop_left' CInt.store_length
  have h18 : (OnlineNode.bytes r ⟨id, sockfd, ip, port⟩).drop 18 = Bytes.store 2 port ++ (Bytes.store 4 ip ++
      (r.zero.toList ++ r.next.toList)) := by
    have hfront : (CInt.store id ++ CInt.store sockfd ++ r.time.toList ++ r.family.toList).length = 18 := by
      simp
    simp only [OnlineNode.bytes, List.append_assoc] at hfront ⊢
    rw [← List.append_assoc _ r.family.toList, ← List.append_assoc _ (_ ++ _), ← List.append_assoc _ (_ ++ _)]
    exact List.drop_left' hfront
  have h20 : (OnlineNode.bytes r ⟨id, sockfd, ip, port⟩).drop 20 = Bytes.store 4 ip ++
      (r.zero.toList ++ r.next.toList) := by
    have hdrop := congrArg (List.drop 2) h18
    rwa [List.drop_drop, List.drop_left' (Bytes.store_length 2 port)] at hdrop
  have hnode : ¬ (OnlineNode.bytes r ⟨id, sockfd, ip, port⟩).length < 40 := by
    rw [OnlineNode.bytes_length]
    decide
  have hfirst : CInt.load (OnlineNode.bytes r ⟨id, sockfd, ip, port⟩) = id := by
    simp only [OnlineNode.bytes, List.append_assoc]
    exact CInt.load_store hid
  have hportBytes : Bytes.load (Bytes.store 2 port) = port := Bytes.load_store hport
  have hipBytes : Bytes.load (Bytes.store 4 ip) = ip := Bytes.load_store hip
  unfold loadNode
  dsimp only
  rw [if_neg hnode, hfirst, h4, CInt.load_store hsockfd, h18, h20, List.take_left' (Bytes.store_length 2 port),
    List.take_left' (Bytes.store_length 4 ip), hportBytes, hipBytes]

end Process

/-! ## What the server decodes -/

/-- Whatever the state of the server, the package is decoded as `f`, which has room for its fields. -/
structure Means (p : Package) (f : Frame) : Prop where
  fits : f.Fits
  load : ∀ env (s : Server), s.db.Fits → load env s p.received = .ok f

namespace Process

theorem means_offline {id : Int} (hid : CInt.InRange id) : Means (offlinePackage id) (.offline id) := by
  refine ⟨hid, fun env s _ => ?_⟩
  have hload : loadInt (some ([id].flatMap CInt.store)) 0 = .ok id := loadInt_ints [] [] hid
  rw [offlinePackage, ints_received (List.cons_ne_nil _ _)]
  unfold Server.load
  dsimp only
  rw [if_neg (by decide), if_neg (by decide), if_neg (by decide), if_pos rfl, hload]
  rfl

theorem means_addFriend {src dst : Int} (hsrc : CInt.InRange src) (hdst : CInt.InRange dst) :
    Means (addFriendPackage src dst) (.addFriend src dst) := by
  refine ⟨⟨hsrc, hdst⟩, fun env s _ => ?_⟩
  have h0 : loadInt (some ([src, dst].flatMap CInt.store)) 0 = .ok src := loadInt_ints [] [dst] hsrc
  have h4 : loadInt (some ([src, dst].flatMap CInt.store)) 4 = .ok dst := loadInt_ints [src] [] hdst
  rw [addFriendPackage, ints_received (List.cons_ne_nil _ _)]
  unfold Server.load
  dsimp only
  rw [if_neg (by decide), if_neg (by decide), if_neg (by decide), if_neg (by decide), if_pos rfl, h0, h4]
  rfl

theorem means_allowAddf {src dst verdict : Int} (hsrc : CInt.InRange src) (hdst : CInt.InRange dst)
    (hv : CInt.InRange verdict) : Means (allowAddfPackage src dst verdict) (.allowAddf src dst verdict) := by
  refine ⟨⟨hsrc, hdst, hv⟩, fun env s _ => ?_⟩
  have h0 : loadInt (some ([src, dst, verdict].flatMap CInt.store)) 0 = .ok src := loadInt_ints [] [dst, verdict] hsrc
  have h4 : loadInt (some ([src, dst, verdict].flatMap CInt.store)) 4 = .ok dst := loadInt_ints [src] [verdict] hdst
  have h8 : loadInt (some ([src, dst, verdict].flatMap CInt.store)) 8 = .ok verdict := loadInt_ints [src, dst] [] hv
  rw [allowAddfPackage, ints_received (List.cons_ne_nil _ _)]
  unfold Server.load
  dsimp only
  rw [if_neg (by decide), if_neg (by decide), if_neg (by decide), if_neg (by decide), if_neg (by decide), if_pos rfl,
    h0, h4, h8]
  rfl

end Process

namespace Stack

variable {m : Stack} {username password : CStr}

theorem means_register (hu : Typed username) (hp : Typed password) (h9 : password.length ≤ 9) :
    Means (m.registerIface username password).registerPackage
      (.register ⟨0, storedName username password, password⟩) := by
  refine ⟨⟨?_, hp.2⟩, fun env s _ => UnixNote.load_register hu hp h9⟩
  show 0 ∉ storedName username password
  unfold storedName
  split
  · exact hu.2
  · rw [List.mem_append, not_or]
    exact ⟨hu.2, hp.2⟩

/-- The comparison with any row stays inside the record: the typed password has its NUL there. -/
theorem means_login {id : Int} (hid : CInt.InRange id) (hp : Typed password) (h9 : password.length ≤ 9) :
    Means (m.loginIface id password).loginPackage (.login ⟨id, [], password⟩) := by
  refine ⟨⟨hid, hp.2⟩, fun env s hdb => UnixNote.load_login hid hp (Server.safe_comparePassword.2 ?_)⟩
  intro _ row hrow hpre
  obtain ⟨hmem, -⟩ : row ∈ s.db.user ∧ row.id = id := Keyed.find?_spec hrow
  obtain ⟨r, hr⟩ : ∃ r, (m.loginIface id password).record.drop 14 = _ := strcpy_password
  obtain ⟨r', hr'⟩ := take_field password r (Nat.lt_succ_of_le h9)
  rw [hr, hr'] at hpre
  have hnul : 0 ∈ row.password := hpre.subset (List.mem_append_right _ List.mem_cons_self)
  exact (hdb row hmem).2 hnul

end Stack

end UnixNote
