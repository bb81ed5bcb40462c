import CommandGrammar.Text.Quoted

/-! What is written in a quoted literal is read back from it, in either style. -/
namespace CommandGrammar.Text

/-- A character that opens and closes a literal. -/
inductive Quote where
  | single | double
  deriving DecidableEq, Repr

namespace Quote

def char : Quote → Char
  | .single => '\''
  | .double => '"'

/-- A quote is none of the characters that an escape gives a meaning to. -/
theorem char_ne (q : Quote) :
    q.char ≠ '\\' ∧ q.char ≠ '\n' ∧ q.char ≠ 'n' ∧ q.char ≠ 't' ∧ q.char ≠ 'r' := by
  cases q <;> decide

end Quote

/-- A value in quotes, with escapes. -/
def quoted (q : Quote) (value : Text) : Text := q.char :: (escape q.char value ++ [q.char])

private theorem escapeMeaning_eq_self {c : Char} (h : c ≠ 'n' ∧ c ≠ 't' ∧ c ≠ 'r') :
    escapeMeaning c = c := by
  rw [escapeMeaning, if_neg h.1, if_neg h.2.1, if_neg h.2.2]

private theorem unescape_quote (quote : Char) (t : Text) : unescape quote (quote :: t) = [] := by
  rw [unescape.eq_def]
  exact if_pos rfl

theorem unescape_backslash {quote : Char} (h : quote ≠ '\\') (c : Char) (t : Text) :
    unescape quote ('\\' :: c :: t) = escapeMeaning c :: unescape quote t := by
  rw [unescape.eq_def]
  simp only [h.symm, if_false, if_true]

theorem unescape_plain {quote c : Char} (hq : c ≠ quote) (hc : c ≠ '\\') (t : Text) :
    unescape quote (c :: t) = c :: unescape quote t := by
  rw [unescape.eq_def]
  simp only [hq, hc, if_false]

/-- Reading stops at the closing quote with all that was written. -/
theorem unescape_escape (q : Quote) (value rest : Text) :
    unescape q.char (escape q.char value ++ q.char :: rest) = value := by
  obtain ⟨hslash, -, hmeaning⟩ := q.char_ne
  induction value with
  | nil => exact unescape_quote q.char rest
  | cons c value ih =>
    rw [escape]
    by_cases hspecial : c = '\\' ∨ c = q.char
    · have hself : escapeMeaning c = c := by
        rcases hspecial with rfl | rfl
        · rfl
        · exact escapeMeaning_eq_self hmeaning
      rw [if_pos hspecial, List.cons_append, List.cons_append, unescape_backslash hslash, hself, ih]
    · obtain ⟨hc, hq⟩ := not_or.mp hspecial
      rw [if_neg hspecial]
      by_cases hn : c = '\n'
      · rw [if_pos hn, List.cons_append, List.cons_append, unescape_backslash hslash, ih, hn]
        rfl
      · rw [if_neg hn, List.cons_append, unescape_plain hq hc, ih]

private theorem undouble_quote {quote : Char} {t : Text} (h : t.head? ≠ some quote) :
    undouble quote (quote :: t) = [] := by
  rw [undouble.eq_def]
  simp only [if_true]
  cases t with
  | nil => rfl
  | cons d t =>
    rw [List.head?_cons, ne_eq, Option.some.injEq] at h
    exact if_neg h

theorem undouble_pair (quote : Char) (t : Text) :
    undouble quote (quote :: quote :: t) = quote :: undouble quote t := by
  rw [undouble.eq_def]
  simp only [if_true]

theorem undouble_plain {quote c : Char} (h : c ≠ quote) (t : Text) :
    undouble quote (c :: t) = c :: undouble quote t := by
  rw [undouble.eq_def]
  simp only [h, if_false]

/-- Reading stops at the closing quote, which is one that no other quote follows. -/
theorem undouble_double (quote : Char) (value : Text) {rest : Text}
    (h : rest.head? ≠ some quote) :
    undouble quote (double quote value ++ quote :: rest) = value := by
  induction value with
  | nil => exact undouble_quote h
  | cons c value ih =>
    rw [double]
    by_cases hc : c = quote
    · rw [if_pos hc, hc, List.cons_append, List.cons_append, undouble_pair, ih]
    · rw [if_neg hc, List.cons_append, undouble_plain hc, ih]

namespace QuoteStyle

/-- What may stand before the opening quote. -/
def marks : QuoteStyle → List Text
  | .escaped => [[], ['h'], ['H']]
  | .verbatim => [['@']]

theorem unmarked : [] ∈ QuoteStyle.escaped.marks := List.mem_cons_self

/-- Writes a value as the body of a literal. -/
def write : QuoteStyle → Char → Text → Text
  | .escaped => escape
  | .verbatim => double

/-- Reads a body up to its closing quote, or to the end if it has none. -/
def read : QuoteStyle → Char → Text → Text
  | .escaped => unescape
  | .verbatim => undouble

/-- The quote ends a literal, but in a verbatim one not before another quote. -/
theorem read_closing (style : QuoteStyle) (quote : Char) {rest : Text}
    (h : style = .verbatim → rest.head? ≠ some quote) : style.read quote (quote :: rest) = [] := by
  cases style with
  | escaped => exact unescape_quote quote rest
  | verbatim => exact undouble_quote (h rfl)

theorem read_write (style : QuoteStyle) (q : Quote) (value : Text) :
    style.read q.char (style.write q.char value ++ [q.char]) = value := by
  cases style with
  | escaped => exact unescape_escape q value []
  | verbatim => exact undouble_double q.char value nofun

end QuoteStyle

/-- The value of a literal is what is read behind its opening quote. -/
theorem quotedValue_eq_read {style : QuoteStyle} {mark : Text} (hmark : mark ∈ style.marks)
    (q : Quote) (body : Text) :
    quotedValue (mark ++ q.char :: body) = style.read q.char body := by
  have hopen : openQuote? (mark ++ q.char :: body) = some (style, q.char, body) := by
    cases style with
    | escaped =>
      simp only [QuoteStyle.marks, List.mem_cons, List.not_mem_nil, or_false] at hmark
      rcases hmark with rfl | rfl | rfl <;> cases q <;> rfl
    | verbatim =>
      simp only [QuoteStyle.marks, List.mem_cons, List.not_mem_nil, or_false] at hmark
      subst hmark
      cases q <;> rfl
  rw [quotedValue, hopen]
  cases style <;> rfl

theorem quotedValue_quoted (q : Quote) (value : Text) : quotedValue (quoted q value) = value := by
  have hread := quotedValue_eq_read QuoteStyle.unmarked q (escape q.char value ++ [q.char])
  exact hread.trans (QuoteStyle.read_write .escaped q value)

end CommandGrammar.Text
