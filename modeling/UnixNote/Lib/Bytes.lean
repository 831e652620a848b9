import Mathlib.Algebra.Group.Nat.Defs
import Mathlib.Data.List.Basic

/-!
# Unsigned integers in bytes

`store n x` is `x` in `n` bytes, the least significant one first; `load_store` reads it back when it fits.
-/

namespace UnixNote.Bytes

/-- The last `n` bytes of `x`. -/
def store : Nat → Nat → List UInt8
  | 0, _ => []
  | n + 1, x => UInt8.ofNat x :: store n (x / 256)

/-- The number with the given bytes. -/
def load : List UInt8 → Nat
  | [] => 0
  | b :: bs => b.toNat + 256 * load bs

@[simp] theorem store_length (n x : Nat) : (store n x).length = n := by
  induction n generalizing x with
  | zero => rfl
  | succ n ih => rw [store, List.length_cons, ih]

/-- **What was stored is loaded.** -/
theorem load_store {n x : Nat} (h : x < 256 ^ n) : load (store n x) = x := by
  induction n generalizing x with
  | zero =>
    have : x = 0 := by simpa using h
    rw [this]
    rfl
  | succ n ih =>
    have hdiv : x / 256 < 256 ^ n := Nat.div_lt_of_lt_mul (by rwa [Nat.mul_comm, ← Nat.pow_succ])
    have hlow : (UInt8.ofNat x).toNat = x % 256 := UInt8.toNat_ofNat'
    rw [store, load, ih hdiv, hlow]
    omega

end UnixNote.Bytes
