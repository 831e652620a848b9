import UnixNote.Chat.Payload

/-!
# The `USER` record of `menumgmt.c`

`Register_Iface_mgmt` and `Login_Iface_mgmt` copy what was typed into a `USER` on their
stack and send its 24 bytes: `id` at offset 0, `username` at 4, `password` at 14. `strcpy`
knows no bound, so the model has the stack behind the record as well, and keeps the end of
what was written.
-/

namespace UnixNote

open Socket (Package)

/-- What `data_input` and `password_input` return: up to `USERNAME_LEN`, or `PWD_LEN`,
characters. -/
def Typed (str : CStr) : Prop := str.length ≤ 10 ∧ 0 ∉ str

instance (str : CStr) : Decidable (Typed str) := by unfold Typed; infer_instance

/-- The stack from the first byte of the local `user` on, and the offset behind the last byte
that was written. -/
structure Stack where
  bytes : List UInt8
  reach : Nat
  room : 24 < bytes.length

namespace Stack

/-- `memcpy` of `data` to offset `k`. -/
def put (k : Nat) (data : List UInt8) (m : Stack) : Stack where
  bytes := m.bytes.take k ++ data ++ m.bytes.drop (k + data.length)
  reach := max m.reach (k + data.length)
  room := by
    have := m.room
    simp only [List.length_append, List.length_take, List.length_drop]
    omega

/-- `strcpy` of `str` to offset `k`. -/
def strcpy (k : Nat) (str : CStr) (m : Stack) : Stack := m.put k (str ++ [0])

/-- The bytes of `user`. -/
def record (m : Stack) : List UInt8 := m.bytes.take 24

theorem record_length (m : Stack) : m.record.length = 24 := by
  have := m.room
  rw [record, List.length_take]
  omega

/-- `user` in `Register_Iface_mgmt`. Its id stays what was there. -/
def registerIface (username password : CStr) (m : Stack) : Stack := (m.strcpy 4 username).strcpy 14 password

/-- `user` in `Login_Iface_mgmt`. Its user name stays what was there. -/
def loginIface (id : Int) (password : CStr) (m : Stack) : Stack := (m.put 0 (CInt.store id)).strcpy 14 password

/-- `Write_client(sockfd, OP_REGISTER, &user, sizeof(user))`. -/
def registerPackage (m : Stack) : Package := ⟨OP_REGISTER, 24, m.record, by decide, by decide, m.record_length⟩

/-- `Write_client(sockfd, OP_LOGIN, &user, sizeof(USER))`. -/
def loginPackage (m : Stack) : Package := ⟨OP_LOGIN, 24, m.record, by decide, by decide, m.record_length⟩

end Stack

end UnixNote
