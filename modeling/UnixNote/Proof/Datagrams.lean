import UnixNote.Chat.Udp
import UnixNote.Proof.Bounds

/-!
# What a datagram is shown as

`trustworthy_iff`: what `pthread_udp` shows for a datagram depends on nothing but the datagram
and comes from the source it is attributed to, whatever was received before, exactly when every
id that the datagram can be taken for and that passes the check of the port has a node with
the full source address, and the datagram brings the NUL of its message.
-/

namespace UnixNote.Udp

open Server (Fault scan scan_string)

variable {l : OnlineList} {d : Datagram} {buf : Buffer} {beyond bs : List UInt8} {id : Int} {k : Nat} {b : UInt8}

/-- What `recvfrom` takes of a datagram. -/
def Datagram.kept (d : Datagram) : List UInt8 := d.bytes.take 256

/-- Whatever was received before and whatever lies behind the buffer: what is shown comes from the
source it is attributed to, and is the same. -/
structure Trustworthy (l : OnlineList) (d : Datagram) : Prop where
  attributed : ∀ buf ds beyond id text, pthreadUdp l beyond (received buf ds) d = some (id, text) →
    ∃ n ∈ l.nodes, n.id = id ∧ n.addr = d.src
  independent : ∀ buf buf' ds ds' beyond beyond',
    pthreadUdp l beyond (received buf ds) d = pthreadUdp l beyond' (received buf' ds') d

/-- Every id that the datagram can be taken for (it may be too short to name one) and that passes the
check of the port has a node with the source address, and the message ends in the datagram. -/
def Conclusive (l : OnlineList) (d : Datagram) : Prop :=
  ∀ id, CInt.InRange id → d.bytes.take 4 <+: CInt.store id →
    (∃ p, l.searchList id .byId = some p ∧ p.addr.port = d.src.port) →
    0 ∈ d.kept.drop 8 ∧ ∃ n ∈ l.nodes, n.id = id ∧ n.addr = d.src

/-! ## The buffer -/

theorem recvfrom_bytes : (recvfrom d buf).bytes = d.kept ++ buf.bytes.drop d.kept.length := rfl

/-- The id in the buffer begins with the bytes of the datagram. -/
theorem named (d : Datagram) (buf : Buffer) : CInt.InRange (CInt.load (recvfrom d buf).bytes) ∧
    d.bytes.take 4 <+: CInt.store (CInt.load (recvfrom d buf).bytes) := by
  have hlen : 4 ≤ (recvfrom d buf).bytes.length := by
    rw [(recvfrom d buf).size]
    omega
  obtain ⟨hrange, hstore⟩ := CInt.load_spec hlen
  refine ⟨hrange, ?_⟩
  have hfour : d.bytes.take 4 = d.kept.take 4 := by rw [Datagram.kept, List.take_take]; rfl
  rw [hstore, recvfrom_bytes, hfour, List.take_append]
  exact List.prefix_append ..

/-- A message that ends in `bs` is read from `bs`. -/
theorem scan_append (h : 0 ∈ bs) : scan k (bs ++ beyond) = .ok (cstr bs) := by
  induction bs generalizing k with
  | nil => cases h
  | cons b bs ih =>
    rw [List.cons_append, scan, cstr]
    by_cases hb : b = 0
    · simp [hb]
    · rw [if_neg hb, ih ((List.mem_cons.1 h).resolve_left (Ne.symm hb))]
      rw [List.takeWhile_cons_of_pos (by simpa using hb)]
      rfl

/-! ## Conclusive datagrams -/

/-- What a conclusive datagram is shown as. -/
def shown (l : OnlineList) (d : Datagram) : Option (Int × Except Fault CStr) :=
  if 4 ≤ d.kept.length then
    match l.searchList (CInt.load d.kept) .byId with
    | none => none
    | some p => if p.addr.port = d.src.port then some (CInt.load d.kept, .ok (cstr (d.kept.drop 8))) else none
  else none

/-- **A conclusive datagram** is shown as its bytes say. -/
theorem pthreadUdp_conclusive (h : Conclusive l d) : pthreadUdp l beyond buf d = shown l d := by
  obtain ⟨hrange, hpre⟩ := named d buf
  have hcheck := h _ hrange hpre
  unfold pthreadUdp display shown
  dsimp only
  by_cases h4 : 4 ≤ d.kept.length
  · have hload : CInt.load (recvfrom d buf).bytes = CInt.load d.kept := by
      rw [recvfrom_bytes, CInt.load_append h4]
    rw [if_pos h4]
    rw [hload] at hcheck ⊢
    cases hp : l.searchList (CInt.load d.kept) .byId with
    | none => rfl
    | some p =>
      dsimp only
      by_cases hport : p.addr.port = d.src.port
      · obtain ⟨hnul, -⟩ := hcheck ⟨p, hp, hport⟩
        have h8 : 8 ≤ d.kept.length := by
          have hpos := List.length_pos_of_mem hnul
          rw [List.length_drop] at hpos
          omega
        rw [if_pos hport, if_pos hport, recvfrom_bytes, List.append_assoc, List.drop_append_of_le_length h8,
          scan_append hnul]
      · rw [if_neg hport, if_neg hport]
  · -- a datagram that names no id passes no check
    rw [if_neg h4]
    cases hp : l.searchList (CInt.load (recvfrom d buf).bytes) .byId with
    | none => rfl
    | some p =>
      dsimp only
      rw [if_neg]
      intro hport
      obtain ⟨hnul, -⟩ := hcheck ⟨p, hp, hport⟩
      have hpos := List.length_pos_of_mem hnul
      rw [List.length_drop] at hpos
      omega

/-! ## Inconclusive datagrams -/

/-- A buffer that an earlier datagram left: `id`, and then bytes `b`. -/
def stamped (id : Int) (b : UInt8) : Buffer := ⟨CInt.store id ++ List.replicate 252 b, by
  rw [List.length_append, List.length_replicate, CInt.store_length]⟩

/-- Behind a datagram that may be from `id`, the rest of `id` is in the buffer. -/
theorem stamped_id (hrange : CInt.InRange id) (hpre : d.bytes.take 4 <+: CInt.store id) :
    CInt.load (recvfrom d (stamped id b)).bytes = id := by
  have hfour : d.bytes.take 4 = d.kept.take 4 := by rw [Datagram.kept, List.take_take]; rfl
  have hlen : (CInt.store id).length = 4 := CInt.store_length
  rw [hfour] at hpre
  obtain ⟨r, hr⟩ : CInt.store id <+: (recvfrom d (stamped id b)).bytes := by
    rw [recvfrom_bytes]
    by_cases h4 : 4 ≤ d.kept.length
    · have heq : d.kept.take 4 = CInt.store id := by
        refine hpre.eq_of_length ?_
        rw [List.length_take, hlen]
        omega
      rw [← heq]
      exact (List.take_prefix _ _).trans (List.prefix_append _ _)
    · rw [List.take_of_length_le (by omega)] at hpre
      obtain ⟨r, hr⟩ := hpre
      refine ⟨List.replicate 252 b, ?_⟩
      show _ = d.kept ++ (CInt.store id ++ List.replicate 252 b).drop d.kept.length
      rw [← hr, List.append_assoc, List.drop_left, ← List.append_assoc]
  rw [← hr, CInt.load_store hrange]

/-- Behind its message, the bytes of the earlier datagram are in the buffer. -/
theorem stamped_text : (recvfrom d (stamped id b)).bytes.drop 8 =
    d.kept.drop 8 ++ List.replicate (256 - max d.kept.length 8) b := by
  have hlen : (CInt.store id).length = 4 := CInt.store_length
  have hstamp : ∀ n, 4 ≤ n → (stamped id b).bytes.drop n = List.replicate (256 - n) b := by
    intro n hn
    show (CInt.store id ++ List.replicate 252 b).drop n = _
    rw [List.drop_append, List.drop_of_length_le (by omega), List.nil_append, List.drop_replicate, hlen]
    congr 1
    omega
  rw [recvfrom_bytes, List.drop_append, List.drop_drop, hstamp _ (by omega)]
  congr 2
  omega

/-- **An id that passes the check is shown** when an earlier datagram left it in the buffer. -/
theorem shown_stamped {p : Node} (hrange : CInt.InRange id) (hpre : d.bytes.take 4 <+: CInt.store id)
    (hp : l.searchList id .byId = some p) (hport : p.addr.port = d.src.port) :
    pthreadUdp l beyond (stamped id b) d =
      some (id, scan 8 (d.kept.drop 8 ++ (List.replicate (256 - max d.kept.length 8) b ++ beyond))) := by
  have hdrop : ((recvfrom d (stamped id b)).bytes ++ beyond).drop 8 =
      d.kept.drop 8 ++ (List.replicate (256 - max d.kept.length 8) b ++ beyond) := by
    have h8 : 8 ≤ (recvfrom d (stamped id b)).bytes.length := by
      rw [(recvfrom d (stamped id b)).size]
      omega
    rw [List.drop_append_of_le_length h8, stamped_text, List.append_assoc]
  unfold pthreadUdp display
  dsimp only
  rw [stamped_id hrange hpre, hp]
  dsimp only
  rw [if_pos hport, hdrop]

/-- **Attribution and independence of received datagrams.** -/
theorem trustworthy_iff : Trustworthy l d ↔ Conclusive l d := by
  constructor
  · intro h id hrange hpre ⟨p, hp, hport⟩
    have hshown : ∀ (b : UInt8) (beyond : List UInt8), pthreadUdp l beyond (stamped id b) d =
        some (id, scan 8 (d.kept.drop 8 ++ (List.replicate (256 - max d.kept.length 8) b ++ beyond))) :=
      fun _ _ => shown_stamped hrange hpre hp hport
    refine ⟨?_, h.attributed (stamped id 0) [] [] id _ (hshown 0 [])⟩
    by_contra hnul
    -- two earlier datagrams that go on differently behind the message
    have hsame := h.independent (stamped id 0) (stamped id 1) [] [] [0] [1, 0]
    change pthreadUdp l _ (stamped id 0) d = pthreadUdp l _ (stamped id 1) d at hsame
    rw [hshown, hshown] at hsame
    generalize 256 - max d.kept.length 8 = n at hsame
    have hzeros : List.replicate n (0 : UInt8) ++ [0] = 0 :: List.replicate n 0 := by
      rw [← List.replicate_succ', List.replicate_succ]
    have hones : d.kept.drop 8 ++ (List.replicate n (1 : UInt8) ++ [1, 0]) =
        (d.kept.drop 8 ++ List.replicate (n + 1) 1) ++ 0 :: [] := by
      rw [List.replicate_succ']
      simp
    have hlong : 0 ∉ d.kept.drop 8 ++ List.replicate (n + 1) (1 : UInt8) := by
      rw [List.mem_append, not_or]
      refine ⟨hnul, fun hm => ?_⟩
      exact absurd (List.eq_of_mem_replicate hm) (by decide)
    rw [hzeros, scan_string hnul, hones, scan_string hlong] at hsame
    simp only [Option.some.injEq, Prod.mk.injEq, Except.ok.injEq, true_and] at hsame
    have hlen := congrArg List.length hsame
    rw [List.length_append, List.length_replicate] at hlen
    omega
  · intro h
    refine ⟨?_, ?_⟩
    · intro buf ds beyond id text hshow
      obtain ⟨hrange, hpre⟩ := named d (received buf ds)
      unfold pthreadUdp display at hshow
      dsimp only at hshow
      split at hshow
      · cases hshow
      · rename_i p hp
        split at hshow
        · rename_i hport
          cases hshow
          exact (h _ hrange hpre ⟨p, hp, hport⟩).2
        · cases hshow
    · intro buf buf' ds ds' beyond beyond'
      rw [pthreadUdp_conclusive h, pthreadUdp_conclusive h]

/-- A client whose friend 2 is online. -/
def friendly : OnlineList := OnlineList.create.addList ⟨2, 0, ⟨1, 9⟩⟩

/-- What is shown for `d` after the datagrams `ds`. -/
def after (ds : List Datagram) (d : Datagram) : Option (Int × Except Fault CStr) :=
  pthreadUdp friendly [] (received (stamped 0 0) ds) d

/-- **A datagram of somebody else** is shown as from friend 2 if only its port is the same, and behind
a message of friend 2 without a NUL stands the end of the one before. -/
theorem trustworthy_breaks :
    (∃ src, src ≠ ⟨1, 9⟩ ∧ after [] ⟨src, [2, 0, 0, 0, 2, 0, 0, 0, 104, 105, 0]⟩ = some (2, .ok [104, 105])) ∧
    ∃ d ds ds', after ds d = some (2, .ok [104, 105]) ∧ after ds' d = some (2, .ok [104, 105, 33]) := by
  refine ⟨⟨⟨3, 9⟩, by decide, by decide +kernel⟩, ⟨⟨1, 9⟩, [2, 0, 0, 0, 2, 0, 0, 0, 104, 105]⟩, [], ?_⟩
  exact ⟨[⟨⟨1, 9⟩, [2, 0, 0, 0, 4, 0, 0, 0, 111, 104, 33, 0]⟩], by decide +kernel, by decide +kernel⟩

end UnixNote.Udp
