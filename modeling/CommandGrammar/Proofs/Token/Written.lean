import CommandGrammar.Proofs.Token.Quotation
import CommandGrammar.Proofs.Token.Spelling

/-! What is read where a mark, a word or a quoted value was written. -/
namespace CommandGrammar.Piece
open Token.Lexicon

/-- Marks of one character that no other lexeme begins with. -/
def soleMarks : List Kind := [.dot, .openBracket, .closeBracket, .openBrace, .closeBrace]

/-- Such a mark is read whatever comes behind it. -/
theorem munch_mark {k : Kind} (hk : k ∈ soleMarks) {c : Char} (hc : k.fixedText? = some [c])
    (r : Text) : Munch ([c] ++ r) k [c] := by
  have hopenings : ∀ k ∈ soleMarks, ∀ t ∈ k.fixedText?, ∀ x ∈ openings, x.1.head? ≠ t.head? := by
    decide
  have hlexemes : ∀ k ∈ soleMarks, ∀ t ∈ k.fixedText?, ∀ l ∈ lexemes,
      l.kind = k ∨ l.pattern.refuses t = true := by decide +kernel
  have mem : (⟨k, .exactly [c]⟩ : Lexeme) ∈ lexemes := (mem_lexemes_iff hc).mpr rfl
  have hmatch : (Pattern.exactly [c]).Matches [c] := Pattern.matches_exactly_iff.mpr rfl
  refine .lexeme (l := ⟨k, .exactly [c]⟩) ?_ mem hmatch (longest_of_forall ⟨_, mem, hmatch⟩ ?_) ?_
  · rintro ⟨o, d⟩ opens hstart
    have hne := hopenings k hk _ hc _ opens
    cases o with
    | nil => exact opening_ne_nil _ opens rfl
    | cons e o =>
      obtain ⟨w, hw⟩ := hstart
      cases hw
      exact hne rfl
  · rintro d w - ⟨l', mem', hmatch'⟩
    rcases hlexemes k hk _ hc l' mem' with hkind | hrefuses
    · rw [(mem_lexemes_iff (hkind ▸ hc)).mp mem', Pattern.matches_exactly_iff] at hmatch'
      cases hmatch'
    · exact Pattern.not_matches_of_refuses hrefuses _ hmatch'
  · intro l' mem' hmatch'
    refine kind_eq_of_matches mem mem' hmatch hmatch' (.inl ?_)
    rintro rfl
    cases hc

/-- A name that needs no quotes. -/
def IsWord (t : Text) : Prop :=
  identifier.Matches t ∧ t ≠ "true".toList ∧ t ≠ "false".toList

def wordKind (t : Text) : Kind := if t = "let".toList then .letKeyword else .identifier

/-- No literal opens with a word that a dot or a brace ends. -/
private theorem free_word {t r : Text} (ht : ∀ c ∈ t, isWordChar c = true)
    (hr : ∀ c ∈ r.head?, c ∈ ['.', '}']) : Free (t ++ r) := by
  have hopenings : ∀ x ∈ openings, x.1.all isWordChar = false ∧ '.' ∉ x.1 ∧ '}' ∉ x.1 := by
    decide
  intro x hx hstart
  obtain ⟨hword, hdot, hbrace⟩ := hopenings x hx
  have hinside (hle : x.1 <+: t) : False := by
    have hall : x.1.all isWordChar = true :=
      List.all_eq_true.mpr fun c hc => ht c (hle.subset hc)
    rw [hall] at hword
    cases hword
  rcases List.prefix_or_prefix_of_prefix hstart (List.prefix_append t r) with hle | ⟨w, hw⟩
  · exact hinside hle
  · cases w with
    | nil => exact hinside ⟨[], by rw [List.append_nil, ← hw, List.append_nil]⟩
    | cons d w =>
      have hd : d ∈ x.1 := by
        rw [← hw]
        exact List.mem_append_right t List.mem_cons_self
      rw [← hw, List.prefix_append_right_inj] at hstart
      obtain ⟨v, rfl⟩ := hstart
      have hmark : d = '.' ∨ d = '}' := by simpa using hr d rfl
      rcases hmark with rfl | rfl
      · exact hdot hd
      · exact hbrace hd

/-- What begins with a letter goes over neither a dot nor a closing brace. -/
private theorem not_isLexeme_word {c : Char} (hc : isLetter c = true) {t w : Text} {d : Char}
    (hd : d ∈ ['.', '}']) : ¬ IsLexeme (c :: t ++ d :: w) := by
  have hlexemes : ∀ l ∈ lexemes, l.kind ∈ wordKinds →
      l.pattern.mentions '.' = false ∧ l.pattern.mentions '}' = false := by decide +kernel
  rintro ⟨l, mem, hmatch⟩
  have hkind : l.kind ∈ wordKinds := by
    rcases sortOf_of_matches mem hmatch with hsort | ⟨hid, -⟩
    · rw [← hsort, List.cons_append]
      exact sortOf_letter_mem hc _
    · rw [hid]
      decide
  obtain ⟨hdot, hbrace⟩ := hlexemes l mem hkind
  have hmentions : l.pattern.mentions d = false := by
    have hmark : d = '.' ∨ d = '}' := by simpa using hd
    rcases hmark with rfl | rfl
    · exact hdot
    · exact hbrace
  exact Pattern.not_mem_of_mentions hmentions hmatch (by simp)

/-- A word is read up to a dot or a closing brace. -/
theorem munch_word {t r : Text} (h : IsWord t) (hr : ∀ c ∈ r.head?, c ∈ ['.', '}']) :
    Munch (t ++ r) (wordKind t) t := by
  obtain ⟨hmatch, htrue, hfalse⟩ := h
  obtain ⟨c, u, rfl, hc, hu⟩ := matches_identifier_iff.mp hmatch
  have hfree : Free (c :: u ++ r) :=
    free_word (List.forall_mem_cons.mpr ⟨isWordChar_of_isLetter hc, hu⟩) hr
  have hlongest : IsLexeme (c :: u) → Longest IsLexeme (c :: u ++ r) (c :: u) := by
    refine fun hlex => longest_of_forall hlex fun d w hw => not_isLexeme_word hc ?_
    obtain ⟨v, rfl⟩ := hw
    exact hr d rfl
  by_cases hlet : c :: u = "let".toList
  · have mem : (⟨.letKeyword, .exactly "let".toList⟩ : Lexeme) ∈ lexemes :=
      (mem_lexemes_iff rfl).mpr rfl
    have hmatch : (Pattern.exactly "let".toList).Matches (c :: u) :=
      Pattern.matches_exactly_iff.mpr hlet
    rw [wordKind, if_pos hlet]
    exact .lexeme (l := ⟨.letKeyword, .exactly "let".toList⟩) hfree mem hmatch
      (hlongest ⟨_, mem, hmatch⟩) fun l' mem' hmatch' =>
        kind_eq_of_matches mem mem' hmatch hmatch' (.inl nofun)
  · have hreserved : c :: u ∉ reserved := by
      simp only [reserved, List.mem_cons, List.not_mem_nil, or_false]
      rintro (h | h | h)
      · exact htrue h
      · exact hfalse h
      · exact hlet h
    rw [wordKind, if_neg hlet]
    exact .lexeme (l := ⟨.identifier, identifier⟩) hfree identifier_mem hmatch
      (hlongest ⟨_, identifier_mem, hmatch⟩) fun l' mem' hmatch' =>
        kind_eq_of_matches identifier_mem mem' hmatch hmatch' (.inr hreserved)

/-- A quoted value is read up to its closing quote. -/
theorem munch_quoted (q : Text.Quote) (value : Text) {r : Text} (hr : r.head? ≠ some q.char) :
    Munch (Text.quoted q value ++ r) .stringLiteral (Text.quoted q value) :=
  munch_literal Text.QuoteStyle.unmarked q value hr

end CommandGrammar.Piece
