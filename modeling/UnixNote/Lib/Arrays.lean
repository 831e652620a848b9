import Mathlib.Data.List.Basic

/-!
# Arrays that are filled in blocks and read by index

* `Buf`: an array of a fixed size, and what is in it after a block was read into its front.
* `Holds`: a C string at a pointer.
* `Probe`: code that reads a list by index, with its accesses on record.
* `Looks`: the code reads a stretch of the list, each element once and in order. `Looks.bind` puts
  two stretches together.
* `Fails`: the code ends in an error, whatever it has read before.
-/

namespace UnixNote

variable {α β γ ε : Type}

/-! ## Blocks -/

/-- What a `read` of at most `n` elements delivers. -/
structure Block (α : Type) (n : Nat) where
  bytes : List α
  some : bytes ≠ []
  short : bytes.length ≤ n

/-- An array of `n` elements. -/
structure Buf (α : Type) (n : Nat) where
  bytes : List α
  size : bytes.length = n

variable {n : Nat}

namespace Buf

/-- The array after a block was read into it: behind the block it holds what it held. -/
def read (buf : Buf α n) (b : Block α n) : Buf α n where
  bytes := b.bytes ++ buf.bytes.drop b.bytes.length
  size := by
    have := buf.size
    have := b.short
    rw [List.length_append, List.length_drop]
    omega

theorem read_bytes (buf : Buf α n) (b : Block α n) :
    (buf.read b).bytes = b.bytes ++ buf.bytes.drop b.bytes.length := rfl

end Buf

/-- A C string in the array that `p` points to. -/
def Holds (p : Nat → UInt8) (s : List UInt8) : Prop := (∀ j b, s[j]? = some b → p j = b) ∧ p s.length = 0

/-! ## Reading by index -/

/-- Code that reads a list by index. Its state are the indices read so far. -/
abbrev Probe (ε : Type) := StateT (List Nat) (Except ε)

/-- The access `xs[i]`, an error where there is no such element. -/
def probe (e : ε) (xs : List α) (i : Nat) : Probe ε α := fun reads =>
  match xs[i]? with
  | some x => .ok (x, reads ++ [i])
  | none => .error e

/-- The code reads the `k` elements from `lo` on, and returns `b`. -/
def Looks (m : Probe ε β) (lo k : Nat) (b : β) : Prop :=
  ∀ reads, m reads = .ok (b, reads ++ List.range' lo k)

/-- The code ends in the error `e`. -/
def Fails (m : Probe ε β) (e : ε) : Prop := ∀ reads, m reads = .error e

variable {m : Probe ε β} {f : β → Probe ε γ} {lo k k' i : Nat} {b : β} {c : γ} {e : ε} {xs rest : List α} {x : α}

theorem bind_eq (m : Probe ε β) (f : β → Probe ε γ) (reads : List Nat) :
    (m >>= f) reads = (m reads).bind fun r => f r.1 r.2 := rfl

theorem Looks.pure (b : β) (lo : Nat) : Looks (pure b : Probe ε β) lo 0 b := by
  intro reads
  rw [List.range'_zero, List.append_nil]
  rfl

/-- **One stretch behind the other.** -/
theorem Looks.bind (hm : Looks m lo k b) (hf : Looks (f b) (lo + k) k' c) : Looks (m >>= f) lo (k + k') c := by
  intro reads
  rw [bind_eq, hm, ← List.range'_append_1, ← List.append_assoc]
  exact hf _

/-- The rest reads nothing. -/
theorem Looks.then (hm : Looks m lo k b) (hf : f b = Pure.pure c) : Looks (m >>= f) lo k c :=
  hm.bind (hf ▸ Looks.pure c (lo + k))

theorem Looks.of_eq (hm : Looks m lo k b) {b' : β} (hk : k = k') (hb : b = b') : Looks m lo k' b' := hk ▸ hb ▸ hm

theorem Fails.bind (hm : Fails m e) (f : β → Probe ε γ) : Fails (m >>= f) e := by
  intro reads
  rw [bind_eq, hm]
  rfl

theorem Looks.fails (hm : Looks m lo k b) (hf : Fails (f b) e) : Fails (m >>= f) e := by
  intro reads
  rw [bind_eq, hm]
  exact hf _

theorem probe_looks (e : ε) (h : xs.drop i = x :: rest) : Looks (probe e xs i) i 1 x := by
  intro reads
  have hx : xs[i]? = some x := by
    rw [← List.head?_drop, h]
    rfl
  unfold probe
  rw [hx]
  rfl

theorem probe_fails (e : ε) (h : xs.drop i = []) : Fails (probe e xs i) e := by
  intro reads
  have hx : xs[i]? = none := by
    rw [← List.head?_drop, h]
    rfl
  unfold probe
  rw [hx]

theorem drop_succ (h : xs.drop i = x :: rest) : xs.drop (i + 1) = rest := by
  rw [← List.drop_drop, h]
  rfl

end UnixNote
