import Mathlib.Algebra.GroupWithZero.Nat
import Mathlib.Data.List.Chain

/-!
# Lexing with quoted literals

A lexer that takes one byte at a time: words, single bytes of punctuation and literals
between single quotes. Inside a literal a doubled quote is a quote, and a backslash escapes the byte
after it; `\%` and `\_` stand for both of their bytes.

* `lexFrom_size`: a token is never longer than its text.
* `lexFrom_literal`: a `Plain` text between quotes denotes itself.
* `lexFrom_tight`: in a text without a byte to spare every literal is `Plain`.
-/

namespace UnixNote.Quoted

/-- A token; `str` holds the bytes a literal denotes. -/
inductive Token where
  | word (w : List UInt8)
  | punct (b : UInt8)
  | str (v : List UInt8)
  deriving DecidableEq, Repr

/-- Where the lexer is: in a literal, behind a quote in a literal or behind a backslash, with
what the literal denotes so far. -/
inductive Mode where
  | between
  | word (w : List UInt8)
  | literal (v : List UInt8)
  | quote (v : List UInt8)
  | escape (v : List UInt8)
  deriving DecidableEq, Repr

/-- `'` -/
def QUOTE : UInt8 := 39

/-- `\` -/
def BACKSLASH : UInt8 := 92

def isSpace (b : UInt8) : Bool := b = 32 || (9 ≤ b && b ≤ 13)

/-- Letters, digits, `_`, `$` and whatever is not ASCII. -/
def isWord (b : UInt8) : Bool :=
  (97 ≤ b && b ≤ 122) || (65 ≤ b && b ≤ 90) || (48 ≤ b && b ≤ 57) || b = 95 || b = 36 || 128 ≤ b

/-- What `\b` stands for. -/
def unescape (b : UInt8) : List UInt8 :=
  if b = 48 then [0]
  else if b = 98 then [8]
  else if b = 110 then [10]
  else if b = 114 then [13]
  else if b = 116 then [9]
  else if b = 90 then [26]
  else if b = 37 ∨ b = 95 then [BACKSLASH, b]
  else [b]

/-- A byte outside of words and literals. -/
def start (b : UInt8) : List Token × Mode :=
  if b = QUOTE then ([], .literal [])
  else if isWord b then ([], .word [b])
  else if isSpace b then ([], .between)
  else ([.punct b], .between)

/-- One byte: the tokens that are complete before it, and where it leads. -/
def step : Mode → UInt8 → List Token × Mode
  | .between, b => start b
  | .word w, b => if isWord b then ([], .word (w ++ [b])) else (.word w :: (start b).1, (start b).2)
  | .literal v, b =>
    if b = QUOTE then ([], .quote v)
    else if b = BACKSLASH then ([], .escape v)
    else ([], .literal (v ++ [b]))
  | .quote v, b => if b = QUOTE then ([], .literal (v ++ [QUOTE])) else (.str v :: (start b).1, (start b).2)
  | .escape v, b => ([], .literal (v ++ unescape b))

/-- The last token; a literal that is not closed is an error. -/
def finish : Mode → Option (List Token)
  | .between => some []
  | .word w => some [.word w]
  | .quote v => some [.str v]
  | .literal _ => none
  | .escape _ => none

def lexFrom : Mode → List UInt8 → Option (List Token)
  | m, [] => finish m
  | m, b :: bs => (lexFrom (step m b).2 bs).map ((step m b).1 ++ ·)

/-- The tokens of a front of the text, and where it leads. -/
def scan : Mode → List UInt8 → List Token × Mode
  | m, [] => ([], m)
  | m, b :: bs => ((step m b).1 ++ (scan (step m b).2 bs).1, (scan (step m b).2 bs).2)

def lex (text : List UInt8) : Option (List Token) := lexFrom .between text

/-- A text that denotes itself between quotes: no quote in it, and every backslash, the closing quote
included in what may follow it, has `%` or `_` behind it. -/
def Plain (u : List UInt8) : Prop :=
  QUOTE ∉ u ∧ (u ++ [QUOTE]).IsChain fun b c => b = BACKSLASH → c = 37 ∨ c = 95

instance (u : List UInt8) : Decidable (Plain u) := inferInstanceAs (Decidable (_ ∧ _))

/-! ## Sizes -/

/-- The bytes a token takes at least. -/
def Token.size : Token → Nat
  | .word w => w.length
  | .punct _ => 1
  | .str v => v.length + 2

def size (ts : List Token) : Nat := (ts.map Token.size).sum

/-- The bytes that at least were read of an incomplete token. -/
def Mode.size : Mode → Nat
  | .between => 0
  | .word w => w.length
  | .literal v => v.length + 1
  | .quote v => v.length + 2
  | .escape v => v.length + 2

variable {m : Mode} {t : Token} {ts : List Token} {b c : UInt8} {bs u v raw rest : List UInt8}

@[simp] theorem size_nil : size [] = 0 := rfl

@[simp] theorem size_cons : size (t :: ts) = t.size + size ts := by
  rw [size, List.map_cons, List.sum_cons, size]

@[simp] theorem size_append {ts' : List Token} : size (ts ++ ts') = size ts + size ts' := by
  rw [size, List.map_append, List.sum_append, size, size]

theorem lexFrom_cons : lexFrom m (b :: bs) = (lexFrom (step m b).2 bs).map ((step m b).1 ++ ·) := rfl

theorem lexFrom_append (front : List UInt8) :
    lexFrom m (front ++ bs) = (lexFrom (scan m front).2 bs).map ((scan m front).1 ++ ·) := by
  induction front generalizing m with
  | nil =>
    simp only [List.nil_append, scan, Option.map_id']
  | cons b front ih =>
    rw [List.cons_append, lexFrom_cons, ih, Option.map_map, scan]
    congr 1
    funext ts
    simp only [Function.comp_apply, List.append_assoc]

theorem unescape_length : (unescape b).length ≤ 2 := by
  unfold unescape
  split_ifs <;> simp

theorem start_size : size (start b).1 + (start b).2.size ≤ 1 := by
  unfold start
  split_ifs <;> simp [Token.size, Mode.size]

theorem step_size : size (step m b).1 + (step m b).2.size ≤ m.size + 1 := by
  have hstart : size (start b).1 + (start b).2.size ≤ 1 := start_size
  have hun : (unescape b).length ≤ 2 := unescape_length
  cases m with
  | between => simpa [step, Mode.size] using hstart
  | word w =>
    have hsize : (Mode.word w).size = w.length := rfl
    simp only [step]
    split_ifs
    · simp [Mode.size]
    · simp only [size_cons, Token.size, hsize]
      omega
  | literal v =>
    simp only [step]
    split_ifs <;> simp [Mode.size]
  | quote v =>
    have hsize : (Mode.quote v).size = v.length + 2 := rfl
    simp only [step]
    split_ifs
    · simp [Mode.size]
    · simp only [size_cons, Token.size, hsize]
      omega
  | escape v =>
    simp only [step, Mode.size, size_nil, List.length_append]
    omega

theorem finish_size (h : finish m = some ts) : size ts = m.size := by
  cases m with
  | between =>
    obtain rfl := Option.some.inj h
    rfl
  | word w =>
    obtain rfl := Option.some.inj h
    simp [Token.size, Mode.size]
  | quote v =>
    obtain rfl := Option.some.inj h
    simp [Token.size, Mode.size]
  | literal v => cases h
  | escape v => cases h

/-- **A token is never longer than its text.** -/
theorem lexFrom_size (h : lexFrom m bs = some ts) : size ts ≤ m.size + bs.length := by
  induction bs generalizing m ts with
  | nil =>
    rw [finish_size h]
    exact Nat.le_add_right _ _
  | cons b bs ih =>
    rw [lexFrom_cons] at h
    obtain ⟨ts', h', rfl⟩ := Option.map_eq_some_iff.1 h
    have hstep : size (step m b).1 + (step m b).2.size ≤ m.size + 1 := step_size
    have hrest := ih h'
    rw [size_append, List.length_cons]
    omega

/-! ## Literals that denote themselves -/

theorem plain_nil : Plain [] := by decide

theorem plain_cons : Plain (b :: u) ↔
    b ≠ QUOTE ∧ (b = BACKSLASH → ∃ c u', u = c :: u' ∧ (c = 37 ∨ c = 95)) ∧ Plain u := by
  have hhead : (∀ c ∈ (u ++ [QUOTE]).head?, b = BACKSLASH → c = 37 ∨ c = 95) ↔
      (b = BACKSLASH → ∃ c u', u = c :: u' ∧ (c = 37 ∨ c = 95)) := by
    cases u with
    | nil =>
      have hquote : ¬ (QUOTE = 37 ∨ QUOTE = 95) := by decide
      simp [hquote]
    | cons c u => simp
  simp only [Plain, List.mem_cons, not_or, List.cons_append, List.isChain_cons, hhead]
  constructor
  · rintro ⟨⟨hb, hu⟩, hc, hrest⟩
    exact ⟨Ne.symm hb, hc, hu, hrest⟩
  · rintro ⟨hb, hc, hu, hrest⟩
    exact ⟨⟨Ne.symm hb, hu⟩, hc, hrest⟩

theorem lexFrom_quote : lexFrom (.literal v) (QUOTE :: bs) = lexFrom (.quote v) bs := by
  rw [lexFrom_cons]
  simp [step]

theorem lexFrom_byte (hq : b ≠ QUOTE) (hb : b ≠ BACKSLASH) :
    lexFrom (.literal v) (b :: bs) = lexFrom (.literal (v ++ [b])) bs := by
  rw [lexFrom_cons]
  simp [step, hq, hb]

theorem lexFrom_escape : lexFrom (.literal v) (BACKSLASH :: c :: bs) = lexFrom (.literal (v ++ unescape c)) bs := by
  have hne : BACKSLASH ≠ QUOTE := by decide
  rw [lexFrom_cons]
  simp [step, hne, lexFrom_cons]

theorem unescape_kept (hc : c = 37 ∨ c = 95) : unescape c = [BACKSLASH, c] := by
  rcases hc with rfl | rfl <;> decide

/-- **A plain text is read as it stands.** -/
theorem lexFrom_literal : ∀ {raw v : List UInt8}, Plain raw →
    lexFrom (.literal v) (raw ++ bs) = lexFrom (.literal (v ++ raw)) bs
  | [], v, _ => by rw [List.nil_append, List.append_nil]
  | [b], v, h => by
    obtain ⟨hq, hb, -⟩ := plain_cons.1 h
    have hb' : b ≠ BACKSLASH := by
      intro he
      obtain ⟨c, u', hu, -⟩ := hb he
      cases hu
    rw [List.singleton_append, lexFrom_byte hq hb']
  | b :: c :: raw, v, h => by
    obtain ⟨hq, hb, hrest⟩ := plain_cons.1 h
    by_cases he : b = BACKSLASH
    · obtain ⟨c', u', hu, hc⟩ := hb he
      obtain ⟨rfl, rfl⟩ := List.cons.inj hu
      rw [List.cons_append, List.cons_append, he, lexFrom_escape, unescape_kept hc,
        lexFrom_literal (plain_cons.1 hrest).2.2, List.append_assoc]
      rfl
    · rw [List.cons_append, lexFrom_byte hq he, lexFrom_literal hrest, List.append_assoc]
      rfl

/-- Behind a quote: with no byte to spare the literal is over. -/
theorem lexFrom_closed (h : lexFrom (.quote v) bs = some (.str u :: ts))
    (hsize : size (.str u :: ts) = v.length + 2 + bs.length) : u = v := by
  cases bs with
  | nil => exact (Token.str.inj (List.cons.inj (Option.some.inj h)).1).symm
  | cons b bs =>
    rw [lexFrom_cons] at h
    by_cases hb : b = QUOTE
    · simp only [step, hb, if_true, List.nil_append, Option.map_id'] at h
      have hle := lexFrom_size h
      simp only [Mode.size, List.length_append, List.length_cons, List.length_nil] at hle hsize
      omega
    · simp only [step, hb, if_false, List.cons_append] at h
      obtain ⟨ts', -, hts⟩ := Option.map_eq_some_iff.1 h
      exact (Token.str.inj (List.cons.inj hts).1).symm

/-- **With no byte to spare a literal denotes what stands between its quotes**, which is plain. -/
theorem lexFrom_tight (bs v : List UInt8) (h : lexFrom (.literal v) bs = some (.str u :: ts))
    (hsize : size (.str u :: ts) = v.length + 1 + bs.length) :
    ∃ raw rest, bs = raw ++ QUOTE :: rest ∧ u = v ++ raw ∧ Plain raw ∧
      lexFrom (.quote u) rest = some (.str u :: ts) := by
  match bs with
  | [] => cases h
  | b :: bs =>
    by_cases hq : b = QUOTE
    · rw [hq, lexFrom_quote] at h
      have hu : u = v := lexFrom_closed h (by rw [hsize, List.length_cons]; omega)
      exact ⟨[], bs, by rw [hq]; rfl, by rw [hu, List.append_nil], plain_nil, hu ▸ h⟩
    · by_cases hb : b = BACKSLASH
      · match bs with
        | [] =>
          rw [hb] at h
          cases h
        | c :: bs =>
          rw [hb, lexFrom_escape] at h
          -- an escape that stands for one byte would leave one to spare
          have hc : c = 37 ∨ c = 95 := by
            by_contra hc
            have hone : (unescape c).length = 1 := by
              unfold unescape
              split_ifs <;> rfl
            have hle := lexFrom_size h
            simp only [Mode.size, List.length_append, List.length_cons] at hle hsize
            omega
          rw [unescape_kept hc] at h
          obtain ⟨raw, rest, hbs, hu, hraw, hrest⟩ := lexFrom_tight bs _ h (by
            rw [hsize]
            simp only [List.length_append, List.length_cons, List.length_nil]
            omega)
          refine ⟨b :: c :: raw, rest, by rw [hbs]; rfl, by rw [hu, hb, List.append_assoc]; rfl, ?_, hrest⟩
          have hc' : c ≠ QUOTE ∧ c ≠ BACKSLASH := by rcases hc with rfl | rfl <;> decide
          exact plain_cons.2 ⟨hq, fun _ => ⟨c, raw, rfl, hc⟩,
            plain_cons.2 ⟨hc'.1, fun he => absurd he hc'.2, hraw⟩⟩
      · rw [lexFrom_byte hq hb] at h
        obtain ⟨raw, rest, hbs, hu, hraw, hrest⟩ := lexFrom_tight bs _ h (by
          rw [hsize]
          simp only [List.length_append, List.length_cons, List.length_nil]
          omega)
        exact ⟨b :: raw, rest, by rw [hbs]; rfl, by rw [hu, List.append_assoc]; rfl,
          plain_cons.2 ⟨hq, fun he => absurd he hb, hraw⟩, hrest⟩
termination_by bs.length

end UnixNote.Quoted
