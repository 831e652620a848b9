import UnixNote.Chat.Sql

/-!
# `write_to_sql`

`write_to_sql` puts the two fields between quotes as they are, into an array of 1024 bytes. The text
has no byte to spare: if it reads as the row given, each literal takes exactly the bytes of its field
and so denotes itself (`lexFrom_tight`). `reads_iff` has both directions. `Reads.unique`: a text reads
as one statement at most.
-/

namespace UnixNote.Sql

open Quoted

variable {username password : CStr} {text : List UInt8} {s s' : Insert}

/-! ## The grammar is unambiguous -/

theorem separated_inj {α : Type*} {f : α → Token} (hf : f.Injective) (hclose : ∀ a, f a ≠ CLOSE) :
    ∀ (as bs : List α) {x y : List Token},
      (as.map f).intersperse COMMA ++ CLOSE :: x = (bs.map f).intersperse COMMA ++ CLOSE :: y → as = bs ∧ x = y
  | [], [], x, y, h => ⟨rfl, (List.cons.inj h).2⟩
  | [], [b], x, y, h => absurd (List.cons.inj h).1.symm (hclose b)
  | [], b :: b' :: bs, x, y, h => absurd (List.cons.inj h).1.symm (hclose b)
  | [a], [], x, y, h => absurd (List.cons.inj h).1 (hclose a)
  | a :: a' :: as, [], x, y, h => absurd (List.cons.inj h).1 (hclose a)
  | [a], [b], x, y, h => by
    obtain ⟨hab, htail⟩ := List.cons.inj h
    exact ⟨by rw [hf hab], (List.cons.inj htail).2⟩
  | [a], b :: b' :: bs, x, y, h => by
    obtain ⟨-, htail⟩ := List.cons.inj h
    exact absurd (List.cons.inj htail).1 (by decide)
  | a :: a' :: as, [b], x, y, h => by
    obtain ⟨-, htail⟩ := List.cons.inj h
    exact absurd (List.cons.inj htail).1 (by decide)
  | a :: a' :: as, b :: b' :: bs, x, y, h => by
    obtain ⟨hab, htail⟩ := List.cons.inj h
    obtain ⟨hrest, hxy⟩ := separated_inj hf hclose (a' :: as) (b' :: bs) (List.cons.inj htail).2
    exact ⟨by rw [hf hab, hrest], hxy⟩

theorem rowTokens_inj {r r' : List CStr} {x y : List Token} (h : rowTokens r ++ x = rowTokens r' ++ y) :
    r = r' ∧ x = y := by
  have hstr : Token.str.Injective := fun _ _ he => Token.str.inj he
  rw [rowTokens, rowTokens, List.append_assoc, List.append_assoc] at h
  exact separated_inj hstr (fun _ he => nomatch he) r r' (List.cons.inj h).2

theorem rows_inj : ∀ (rs rs' : List (List CStr)),
    ((rs.map rowTokens).intersperse [COMMA]).flatten = ((rs'.map rowTokens).intersperse [COMMA]).flatten → rs = rs'
  | [], [], _ => rfl
  | [], [r], h => by cases h
  | [], r :: r' :: rs, h => by cases h
  | [r], [], h => by cases h
  | r :: r' :: rs, [], h => by cases h
  | [r], [s], h => by
    obtain ⟨hrs, -⟩ := rowTokens_inj h
    rw [hrs]
  | [r], s :: s' :: ss, h => by
    obtain ⟨-, htail⟩ := rowTokens_inj h
    cases htail
  | r :: r' :: rs, [s], h => by
    obtain ⟨-, htail⟩ := rowTokens_inj h
    cases htail
  | r :: r' :: rs, s :: s' :: ss, h => by
    obtain ⟨hrs, htail⟩ := rowTokens_inj h
    rw [hrs, rows_inj (r' :: rs) (s' :: ss) (List.cons.inj htail).2]

/-- **A text reads as one statement at most.** -/
theorem Reads.unique (h : Reads text s) (h' : Reads text s') : s = s' := by
  have htokens : s.tokens = s'.tokens := Option.some.inj (h.symm.trans h')
  obtain ⟨table, columns, rows⟩ := s
  obtain ⟨table', columns', rows'⟩ := s'
  have hword : Token.word.Injective := fun _ _ he => Token.word.inj he
  simp only [Insert.tokens, List.append_assoc, List.cons_append, List.nil_append, List.cons.injEq, true_and,
    Token.word.injEq] at htokens
  obtain ⟨htable, hrest⟩ := htokens
  obtain ⟨hcolumns, hvalues⟩ := separated_inj hword (fun _ he => nomatch he) columns columns' hrest
  rw [htable, hcolumns, rows_inj rows rows' (List.cons.inj hvalues).2]

/-! ## What is inserted -/

/-- The tokens in front of the first literal. -/
def frontTokens : List Token :=
  [.word (ascii "insert"), .word (ascii "into"), .word (ascii "user"), OPEN, .word (ascii "username"), COMMA,
    .word (ascii "password"), CLOSE, .word (ascii "values"), OPEN]

theorem insertUser_tokens :
    (insertUser username password).tokens = frontTokens ++ [.str username, COMMA, .str password, CLOSE] := rfl

theorem scan_front :
    scan .between (ascii "insert into user(username, password) values\t\t\t('") = (frontTokens, .literal []) := by
  decide

/-- Both literals and what stands behind each. -/
theorem lex_insertText : lex (insertText username password) =
    (lexFrom (.literal []) (username ++ QUOTE :: 44 :: QUOTE :: (password ++ [QUOTE, 41]))).map (frontTokens ++ ·) := by
  have htext : insertText username password = ascii "insert into user(username, password) values\t\t\t('" ++
      (username ++ QUOTE :: 44 :: QUOTE :: (password ++ [QUOTE, 41])) := by
    simp only [insertText, List.append_assoc]
    rfl
  rw [lex, htext, lexFrom_append, scan_front]

theorem lexFrom_between (v : List UInt8) (bs : List UInt8) :
    lexFrom (.quote v) (44 :: QUOTE :: bs) = (lexFrom (.literal []) bs).map ([.str v, COMMA] ++ ·) :=
  lexFrom_append [44, QUOTE]

theorem lexFrom_end (v : List UInt8) : lexFrom (.quote v) [41] = some [.str v, CLOSE] := rfl

theorem reads_insertText :
    Reads (insertText username password) (insertUser username password) ↔ Plain username ∧ Plain password := by
  rw [Reads, lex_insertText, insertUser_tokens]
  constructor
  · intro h
    obtain ⟨ts, h, hts⟩ := Option.map_eq_some_iff.1 h
    obtain rfl := List.append_cancel_left hts
    obtain ⟨raw, rest, hbs, hu, hraw, h⟩ := lexFrom_tight _ _ h (by
      simp only [size_cons, size_nil, Token.size, COMMA, CLOSE, List.length_append, List.length_cons,
        List.length_nil]
      omega)
    rw [List.nil_append] at hu
    rw [← hu] at hraw hbs
    obtain ⟨-, hrest⟩ := List.append_inj hbs rfl
    obtain rfl := (List.cons.inj hrest).2
    rw [lexFrom_between] at h
    obtain ⟨ts, h, hts⟩ := Option.map_eq_some_iff.1 h
    obtain rfl : ts = [.str password, CLOSE] := List.append_cancel_left hts
    obtain ⟨raw', rest', -, hp, hraw', -⟩ := lexFrom_tight _ _ h (by
      simp only [size_cons, size_nil, Token.size, CLOSE, List.length_append, List.length_cons, List.length_nil]
      omega)
    rw [List.nil_append] at hp
    exact ⟨hraw, hp ▸ hraw'⟩
  · rintro ⟨hu, hp⟩
    rw [lexFrom_literal hu, List.nil_append, lexFrom_quote, lexFrom_between, lexFrom_literal hp, List.nil_append,
      lexFrom_quote, lexFrom_end]
    rfl

theorem insertText_length : (insertText username password).length = username.length + password.length + 53 := by
  have hfront : (ascii "insert into user(username, password) values\t\t\t('").length = 48 := by decide
  have hmid : (ascii "','").length = 3 := by decide
  have hend : (ascii "')").length = 2 := by decide
  simp only [insertText, List.length_append, hfront, hmid, hend]
  omega

/-- **The statement inserts what was given** just when both fields denote themselves and it stays within `sql_cmd`. -/
theorem reads_iff (user : User) :
    (∃ text, writeToSql user = some text ∧ Reads text (insertUser user.username user.password)) ↔
      Verbatim user.username user.password := by
  have hroom : (insertText user.username user.password).length < SQL_CMD ↔
      user.username.length + user.password.length < 971 := by
    rw [insertText_length, SQL_CMD]
    omega
  rw [Verbatim, ← and_assoc, ← reads_insertText, ← hroom]
  unfold writeToSql
  constructor
  · rintro ⟨text, htext, hreads⟩
    split at htext
    · rename_i hfits
      obtain rfl := Option.some.inj htext
      exact ⟨hreads, hfits⟩
    · cases htext
  · rintro ⟨hreads, hfits⟩
    exact ⟨_, if_pos hfits, hreads⟩

/-- `it's` ends the first literal at its quote. -/
theorem reads_iff_breaks :
    ¬ ∃ text, writeToSql ⟨0, ascii "it's", ascii "pw"⟩ = some text ∧
      Reads text (insertUser (ascii "it's") (ascii "pw")) := by
  rintro ⟨text, htext, hreads⟩
  obtain rfl : insertText (ascii "it's") (ascii "pw") = text :=
    Option.some.inj ((if_pos (by rw [insertText_length]; decide)).symm.trans htext)
  rw [Reads, lex_insertText, insertUser_tokens] at hreads
  exact absurd hreads (by decide)

end UnixNote.Sql
