import CommandGrammar.Proofs.Text.Escape
import CommandGrammar.Proofs.Token.Respacing

/-! Quoted literals as tokens. A literal ends as a token where reading its value stops, and what is
written as a literal is one token with the value that was written. -/
namespace CommandGrammar

namespace Text.QuoteStyle
open Token.Lexicon

/-- How the literals of a style are read as tokens. -/
def delimited : QuoteStyle → Char → Delimited
  | .escaped => escapedLiteral
  | .verbatim => verbatimLiteral

/-- What the bodies of a style are repetitions of. -/
def unit : QuoteStyle → Char → Pattern
  | .escaped => escapedUnit
  | .verbatim => verbatimUnit

/-- A value written as a literal, with a mark before the opening quote. -/
def literal (style : QuoteStyle) (mark : Text) (q : Quote) (value : Text) : Text :=
  mark ++ q.char :: (style.write q.char value ++ [q.char])

variable {style : QuoteStyle} {q : Quote}

private theorem delimited_eq (style : QuoteStyle) (quote : Char) : style.delimited quote =
    ⟨.stringLiteral, (style.delimited quote).body, (style.delimited quote).body, quote⟩ := by
  cases style with
  | escaped => rfl
  | verbatim => rfl

private theorem opens {mark : Text} (hmark : mark ∈ style.marks) (q : Quote) :
    (mark ++ [q.char], style.delimited q.char) ∈ openings := by
  cases style with
  | escaped =>
    simp only [marks, List.mem_cons, List.not_mem_nil, or_false] at hmark
    rcases hmark with rfl | rfl | rfl <;> cases q <;> simp [openings, delimited, Quote.char]
  | verbatim =>
    simp only [marks, List.mem_cons, List.not_mem_nil, or_false] at hmark
    subst hmark
    cases q <;> simp [openings, delimited, Quote.char]

/-- In either style the body of a token is a mark, the quote and a repetition of units. -/
private theorem matches_body_iff {quote : Char} {t : Text} :
    (style.delimited quote).body.Matches t ↔ ∃ mark ∈ style.marks, ∃ run,
      t = mark ++ quote :: run ∧ (Pattern.star (style.unit quote)).Matches run := by
  cases style with
  | escaped => exact matches_escapedBody_iff
  | verbatim =>
    simp only [marks, List.mem_singleton, exists_eq_left]
    exact matches_verbatimBody_iff

/-- A unit stands for one character, whatever comes behind it. -/
private theorem read_unit {u : Text} (h : (style.unit q.char).Matches u) :
    ∃ c, ∀ rest, style.read q.char (u ++ rest) = c :: style.read q.char rest := by
  cases style with
  | escaped =>
    rcases matches_escapedUnit_iff.mp h with ⟨c, rfl, hq, hc, -⟩ | ⟨c, rfl, -⟩
    · exact ⟨c, fun rest => unescape_plain hq hc rest⟩
    · exact ⟨escapeMeaning c, fun rest => unescape_backslash q.char_ne.1 c rest⟩
  | verbatim =>
    rcases matches_verbatimUnit_iff.mp h with ⟨c, rfl, hc⟩ | rfl
    · exact ⟨c, fun rest => undouble_plain hc rest⟩
    · exact ⟨q.char, fun rest => undouble_pair q.char rest⟩

/-- No quote inside a repetition of units is taken for the closing one. -/
private theorem read_run {run : Text} (h : (Pattern.star (style.unit q.char)).Matches run) :
    ∃ value, ∀ rest, style.read q.char (run ++ rest) = value ++ style.read q.char rest := by
  generalize hp : Pattern.star (style.unit q.char) = p at h
  induction h with
  | stop => exact ⟨[], fun _ => rfl⟩
  | more hu _ _ ih =>
    cases hp
    obtain ⟨c, hc⟩ := read_unit hu
    obtain ⟨value, hvalue⟩ := ih rfl
    refine ⟨c :: value, fun rest => ?_⟩
    rw [List.append_assoc, hc, hvalue, List.cons_append]
  | _ => cases hp

/-- An escaped value is made of the units of an escaped literal. -/
private theorem matches_escape (q : Quote) (value : Text) :
    (Pattern.star (escapedUnit q.char)).Matches (escape q.char value) := by
  obtain ⟨hslash, hline, -⟩ := q.char_ne
  have hunit {c : Char} (hc : c ≠ '\n') : (escapedUnit q.char).Matches ['\\', c] :=
    matches_escapedUnit_iff.mpr (.inr ⟨c, rfl, hc⟩)
  induction value with
  | nil => exact .stop
  | cons c value ih =>
    rw [escape]
    by_cases hspecial : c = '\\' ∨ c = q.char
    · rw [if_pos hspecial]
      refine .more (s := ['\\', c]) (hunit ?_) ih
      rcases hspecial with rfl | rfl
      · decide
      · exact hline
    · obtain ⟨hc, hq⟩ := not_or.mp hspecial
      rw [if_neg hspecial]
      by_cases hn : c = '\n'
      · rw [if_pos hn]
        exact .more (s := ['\\', 'n']) (hunit (by decide)) ih
      · rw [if_neg hn]
        exact .more (s := [c]) (matches_escapedUnit_iff.mpr (.inl ⟨c, rfl, hq, hc, hn⟩)) ih

private theorem matches_double (quote : Char) (value : Text) :
    (Pattern.star (verbatimUnit quote)).Matches (double quote value) := by
  induction value with
  | nil => exact .stop
  | cons c value ih =>
    rw [double]
    by_cases hc : c = quote
    · rw [if_pos hc, hc]
      exact .more (s := [quote, quote]) (matches_verbatimUnit_iff.mpr (.inr rfl)) ih
    · rw [if_neg hc]
      exact .more (s := [c]) (matches_verbatimUnit_iff.mpr (.inl ⟨c, rfl, hc⟩)) ih

private theorem matches_write (style : QuoteStyle) (q : Quote) (value : Text) :
    (Pattern.star (style.unit q.char)).Matches (style.write q.char value) := by
  cases style with
  | escaped => exact matches_escape q value
  | verbatim => exact matches_double q.char value

/-- The value that was written is read back. -/
theorem quotedValue_literal {mark : Text} (hmark : mark ∈ style.marks) (q : Quote) (value : Text) :
    quotedValue (style.literal mark q value) = value := by
  rw [literal, quotedValue_eq_read hmark, read_write]

/-- A literal that its last character closes. -/
structure Closed (style : QuoteStyle) (q : Quote) (t : Text) : Prop where
  /-- Reading the value passes over all between the opening quote and the last character. -/
  whole : ∃ mark ∈ style.marks, ∃ body, t = mark ++ q.char :: (body ++ [q.char]) ∧
    ∀ rest, style.read q.char (body ++ rest) = quotedValue t ++ style.read q.char rest
  /-- It stops there, unless a verbatim literal goes on with a second quote. -/
  stops : ∀ rest, (style = .verbatim → rest.head? ≠ some q.char) →
    quotedValue (t ++ rest) = quotedValue t

/-- A body that is read to its end as a token is closed by the quote behind it. -/
private theorem closed_of_matches {b : Text} (h : (style.delimited q.char).body.Matches b) :
    style.Closed q (b ++ [q.char]) := by
  obtain ⟨mark, hmark, run, rfl, hrun⟩ := matches_body_iff.mp h
  obtain ⟨value, hvalue⟩ := read_run hrun
  have hread (rest : Text) (hrest : style = .verbatim → rest.head? ≠ some q.char) :
      quotedValue (mark ++ q.char :: run ++ [q.char] ++ rest) = value := by
    have hsplit : mark ++ q.char :: run ++ [q.char] ++ rest =
        mark ++ q.char :: (run ++ q.char :: rest) := by simp
    rw [hsplit, quotedValue_eq_read hmark, hvalue, read_closing style q.char hrest, List.append_nil]
  have halone : quotedValue (mark ++ q.char :: run ++ [q.char]) = value := by
    simpa using hread [] fun _ => nofun
  constructor
  · refine ⟨mark, hmark, run, by simp, fun rest => ?_⟩
    rw [halone, hvalue]
  · intro rest hrest
    rw [hread rest hrest, halone]

end Text.QuoteStyle

namespace Piece
open Text Token.Lexicon

/-- A literal is read up to its closing quote. -/
theorem munch_literal {style : QuoteStyle} {mark : Text} (hmark : mark ∈ style.marks) (q : Quote)
    (value : Text) {r : Text} (hr : r.head? ≠ some q.char) :
    Munch (style.literal mark q value ++ r) .stringLiteral (style.literal mark q value) := by
  have opens := QuoteStyle.opens hmark q
  have hbody : (style.delimited q.char).body.Matches (mark ++ q.char :: style.write q.char value) :=
    QuoteStyle.matches_body_iff.mpr ⟨mark, hmark, _, rfl, style.matches_write q value⟩
  have hliteral : style.literal mark q value =
      (mark ++ q.char :: style.write q.char value) ++ [q.char] := by
    simp [QuoteStyle.literal]
  rw [QuoteStyle.delimited_eq] at opens
  rw [hliteral, List.append_assoc, List.singleton_append]
  exact .of_closing opens ⟨style.write q.char value, by simp⟩ hbody hbody hr

/-- What is read as a quoted literal is closed by its last character. -/
theorem Munch.closed_literal {s t : Text} (h : Munch s .stringLiteral t) :
    ∃ style q, QuoteStyle.Closed style q t := by
  have hlexemes : ∀ l ∈ lexemes, l.kind ≠ .stringLiteral := by decide +kernel
  generalize hk : Kind.stringLiteral = k at h
  cases h with
  | closed opens _ body _ _ =>
    obtain ⟨mem, -⟩ := matches_opening opens
    simp only [delimited, List.mem_cons, List.not_mem_nil, or_false] at mem
    rcases mem with rfl | rfl | rfl | rfl | rfl
    · exact ⟨.escaped, .double, QuoteStyle.closed_of_matches body.holds⟩
    · exact ⟨.escaped, .single, QuoteStyle.closed_of_matches body.holds⟩
    · exact ⟨.verbatim, .double, QuoteStyle.closed_of_matches body.holds⟩
    · exact ⟨.verbatim, .single, QuoteStyle.closed_of_matches body.holds⟩
    · cases hk
  | broken => cases hk
  | lexeme _ mem => exact absurd hk.symm (hlexemes _ mem)
  | bad => cases hk

end Piece

namespace Token
open Text Piece

/-- A token of any other kind stands before the end marker. -/
theorem mem_dropLast {text : Text} {t : Token} (h : t ∈ ofText text) (hk : t.kind ≠ .endOfText) :
    t ∈ (ofText text).dropLast := by
  obtain ⟨front, trivia, heq, -, -⟩ := ofText_eq text
  rw [heq] at h ⊢
  rw [List.dropLast_concat]
  rcases List.mem_append.mp h with hfront | hend
  · exact hfront
  · rw [List.mem_singleton.mp hend] at hk
    exact absurd rfl hk

/-- Reading tokens and reading values agree on quoted literals. A value written as a literal in either
style, with any mark that the style has and in either quote, is one token that is the whole text, and
its value is what was written. The value of every quoted literal among the tokens of a text ends
exactly with its last character: it is the same whatever comes behind. -/
theorem stringLiteral_closed :
    (∀ (style : QuoteStyle), ∀ mark ∈ style.marks, ∀ (q : Quote) (value : Text),
      ofText (style.literal mark q value) =
        [⟨.stringLiteral, [], style.literal mark q value, 0⟩,
          .atEnd [] (style.literal mark q value).byteSize] ∧
      (style.literal mark q value).quotedValue = value) ∧
    ∀ (text : Text), ∀ t ∈ ofText text, t.kind = .stringLiteral →
      ∃ (style : QuoteStyle) (q : Quote), style.Closed q t.text := by
  constructor
  · intro style mark hmark q value
    refine ⟨?_, QuoteStyle.quotedValue_literal hmark q value⟩
    have hmunch := munch_literal hmark q value (r := []) nofun
    rw [List.append_nil] at hmunch
    exact ofText_of_munch hmunch rfl
  · intro text t ht hkind
    obtain ⟨hmunch, -⟩ := munch_text (mem_dropLast ht (by rw [hkind]; decide))
    rw [hkind] at hmunch
    exact hmunch.closed_literal

/-- The quote behind a backslash that is itself escaped closes the literal. -/
example : (ofText ['\'', '\\', '\\', '\'', 'x']).map Token.text =
    [['\'', '\\', '\\', '\''], ['x'], []] := by
  decide +kernel

end Token
end CommandGrammar
