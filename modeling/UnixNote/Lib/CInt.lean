import Mathlib.Data.List.Basic

/-!
# The C type `int` and its bytes

A 32-bit two's complement integer, stored with its least significant byte first.
Values are `Int`; `wrap` is the conversion to `int` of a wider one. What was stored is
loaded (`load_store`), and what was loaded is stored (`load_spec`).
-/

namespace UnixNote.CInt

/-- The values of an `int`. -/
def InRange (x : Int) : Prop := -2147483648 ≤ x ∧ x < 2147483648

instance (x : Int) : Decidable (InRange x) := by unfold InRange; infer_instance

theorem inRange_zero : InRange 0 := by decide

/-- Conversion to `int`. -/
def wrap (x : Int) : Int := (x + 2147483648) % 4294967296 - 2147483648

/-- The bytes of an `int`. -/
def store (x : Int) : List UInt8 :=
  let n := (x % 4294967296).toNat
  [UInt8.ofNat n, UInt8.ofNat (n / 256), UInt8.ofNat (n / 65536), UInt8.ofNat (n / 16777216)]

/-- The `int` with the given bytes. -/
def ofBytes (b₀ b₁ b₂ b₃ : UInt8) : Int :=
  wrap (b₀.toNat + 256 * b₁.toNat + 65536 * b₂.toNat + 16777216 * b₃.toNat : Nat)

/-- The `int` at the start of a buffer. A buffer of fewer than four bytes has none. -/
def load : List UInt8 → Int
  | b₀ :: b₁ :: b₂ :: b₃ :: _ => ofBytes b₀ b₁ b₂ b₃
  | _ => 0

variable {x : Int} {bs : List UInt8}

@[simp] theorem store_length : (store x).length = 4 := rfl

/-- **What was stored is loaded.** -/
theorem load_store (h : InRange x) : load (store x ++ bs) = x := by
  unfold InRange at h
  have hn : 0 ≤ x % 4294967296 ∧ x % 4294967296 < 4294967296 := by omega
  show ofBytes _ _ _ _ = x
  unfold ofBytes wrap
  simp only [UInt8.toNat_ofNat']
  set n := (x % 4294967296).toNat with hdef
  -- the four bytes are the digits of `n` in base 256
  have hsum : n % 2 ^ 8 + 256 * (n / 256 % 2 ^ 8) + 65536 * (n / 65536 % 2 ^ 8) +
      16777216 * (n / 16777216 % 2 ^ 8) = n := by omega
  rw [hsum]
  omega

/-- **What was loaded is stored.** -/
theorem store_ofBytes (b₀ b₁ b₂ b₃ : UInt8) : store (ofBytes b₀ b₁ b₂ b₃) = [b₀, b₁, b₂, b₃] := by
  have h₀ := b₀.toNat_lt
  have h₁ := b₁.toNat_lt
  have h₂ := b₂.toNat_lt
  have h₃ := b₃.toNat_lt
  have hbyte : ∀ (n : Nat) (b : UInt8), n % 256 = b.toNat → UInt8.ofNat n = b := by
    intro n b h
    apply UInt8.toNat_inj.1
    rw [UInt8.toNat_ofNat']
    exact h
  have hn : (ofBytes b₀ b₁ b₂ b₃ % 4294967296).toNat =
      b₀.toNat + 256 * b₁.toNat + 65536 * b₂.toNat + 16777216 * b₃.toNat := by
    unfold ofBytes wrap
    omega
  unfold store
  dsimp only
  rw [hn, hbyte _ b₀ (by omega), hbyte _ b₁ (by omega), hbyte _ b₂ (by omega), hbyte _ b₃ (by omega)]

theorem inRange_wrap (x : Int) : InRange (wrap x) := by
  unfold InRange wrap
  omega

/-- Every `int` that is loaded is in range, and its bytes are those of the buffer. -/
theorem load_spec (h : 4 ≤ bs.length) : InRange (load bs) ∧ store (load bs) = bs.take 4 := by
  match bs, h with
  | b₀ :: b₁ :: b₂ :: b₃ :: r, _ => exact ⟨inRange_wrap _, store_ofBytes b₀ b₁ b₂ b₃⟩

/-- An `int` is loaded from the first four bytes. -/
theorem load_append {r : List UInt8} (h : 4 ≤ bs.length) : load (bs ++ r) = load bs := by
  match bs, h with
  | b₀ :: b₁ :: b₂ :: b₃ :: _, _ => rfl

end UnixNote.CInt
