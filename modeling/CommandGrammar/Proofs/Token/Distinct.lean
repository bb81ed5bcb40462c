import CommandGrammar.Proofs.Pattern.Alphabet
import CommandGrammar.Proofs.Token.Scan

/-! The lexemes tell each other apart: the text alone says of what kind it is, but for the words that
would also be identifiers. -/
namespace CommandGrammar.Piece
open Token.Lexicon

/-- The words with a meaning of their own. -/
def reserved : List Text := ["true".toList, "false".toList, "let".toList]

/-- The kind of a text that is a lexeme, told by its first character and the marks behind it. -/
def sortOf : Text → Kind
  | [] => .badToken
  | c :: t =>
    if isSpace c then .whitespace
    else if isDigit c then
      if '.' ∈ t then .realLiteral else if '-' ∈ t then .rawGuidLiteral else .longLiteral
    else if isLetter c then
      if '*' ∈ t then .wildcardedIdentifier
      else if '-' ∈ t then .rawGuidLiteral
      else if c :: t = "let".toList then .letKeyword
      else if c :: t ∈ reserved then .booleanLiteral
      else .identifier
    else if c = '*' ∧ t ≠ [] then .wildcardedIdentifier
    else if c = '/' ∧ t ≠ [] then .lineComment
    else (Kind.all.find? fun k => k.fixedText? == some (c :: t)).getD .badToken

section Characters
variable {c : Char}

private theorem not_isSpace_of_isWordChar (h : isWordChar c = true) : isSpace c = false := by
  have hspaces : [' ', '\t', '\r', '\n', '\x0c'].all (!isWordChar ·) = true := by decide
  rw [Bool.eq_false_iff]
  intro hs
  have hc : c ∈ [' ', '\t', '\r', '\n', '\x0c'] := by simpa [isSpace, or_assoc] using hs
  have hword := List.all_eq_true.mp hspaces c hc
  rw [h] at hword
  cases hword

private theorem isUpper_iff : c.isUpper = true ↔ 'A'.val ≤ c.val ∧ c.val ≤ 'Z'.val :=
  decide_eq_true_iff

private theorem isLower_iff : c.isLower = true ↔ 'a'.val ≤ c.val ∧ c.val ≤ 'z'.val :=
  Bool.and_eq_true_iff.trans (and_congr decide_eq_true_iff decide_eq_true_iff)

private theorem isAlpha_iff : c.isAlpha = true ↔ c.isUpper = true ∨ c.isLower = true :=
  Bool.or_eq_true_iff

theorem isLetter_iff :
    isLetter c = true ↔ ('A' ≤ c ∧ c ≤ 'Z') ∨ ('a' ≤ c ∧ c ≤ 'z') ∨ c = '_' := by
  rw [isLetter, Bool.or_eq_true, isAlpha_iff, isUpper_iff, isLower_iff, beq_iff_eq, or_assoc]
  rfl

theorem isDigit_iff : isDigit c = true ↔ '0' ≤ c ∧ c ≤ '9' :=
  Bool.and_eq_true_iff.trans (and_congr decide_eq_true_iff decide_eq_true_iff)

private theorem not_isDigit_of_isLetter (h : isLetter c = true) : isDigit c = false := by
  rw [Bool.eq_false_iff]
  intro hd
  have hlow : c.val.toNat ≤ 57 := (isDigit_iff.mp hd).2
  rcases isLetter_iff.mp h with ⟨h, -⟩ | ⟨h, -⟩ | rfl
  · exact absurd (Nat.le_trans h hlow) (by decide)
  · exact absurd (Nat.le_trans h hlow) (by decide)
  · exact absurd hlow (by decide)

theorem isWordChar_of_isLetter (h : isLetter c = true) : isWordChar c = true := by
  rw [isWordChar, h, Bool.true_or]

private theorem isWordChar_of_isDigit (h : isDigit c = true) : isWordChar c = true := by
  rw [isWordChar, h, Bool.or_true]

/-- A hexadecimal digit is a digit or a letter. -/
private theorem isDigit_or_isLetter_of_isHexDigit (h : isHexDigit c = true) :
    isDigit c = true ∨ isLetter c = true := by
  simp only [isHexDigit, Bool.or_eq_true, Bool.and_eq_true, decide_eq_true_eq, Char.le_def] at h
  rcases h with (h | ⟨hlo, hhi⟩) | ⟨hlo, hhi⟩
  · exact .inl h
  · have hlower : c.isLower = true := isLower_iff.mpr ⟨hlo, UInt32.le_trans hhi (by decide)⟩
    exact .inr (by rw [isLetter, isAlpha_iff.mpr (.inr hlower), Bool.true_or])
  · have hupper : c.isUpper = true := isUpper_iff.mpr ⟨hlo, UInt32.le_trans hhi (by decide)⟩
    exact .inr (by rw [isLetter, isAlpha_iff.mpr (.inl hupper), Bool.true_or])

end Characters

theorem identifier_mem : (⟨.identifier, identifier⟩ : Lexeme) ∈ lexemes := by
  simp [lexemes]

theorem matches_identifier_iff {t : Text} :
    identifier.Matches t ↔ ∃ c r, t = c :: r ∧ isLetter c = true ∧ ∀ d ∈ r, isWordChar d = true := by
  rw [identifier, Pattern.matches_seq_iff]
  constructor
  · rintro ⟨u, v, rfl, hu, hv⟩
    obtain ⟨c, rfl, hc⟩ := Pattern.matches_one_iff.mp hu
    exact ⟨c, v, rfl, hc, Pattern.matches_star_one_iff.mp hv⟩
  · rintro ⟨c, r, rfl, hc, hr⟩
    exact ⟨[c], r, rfl, .one hc, Pattern.matches_star_one_iff.mpr hr⟩

/-- Digits and then a mark that is no digit: the shape of the beginning of reals and guids. -/
private theorem cons_of_append {accepts : Char → Bool} {u v : Text} {mark : Char} (hne : u ≠ [])
    (hu : ∀ c ∈ u, accepts c = true) :
    ∃ c r, u ++ mark :: v = c :: r ∧ accepts c = true ∧ mark ∈ r := by
  obtain ⟨c, u, rfl⟩ := List.exists_cons_of_ne_nil hne
  exact ⟨c, u ++ mark :: v, rfl, hu c List.mem_cons_self, by simp⟩

private theorem real_start {t : Text} (h : real.Matches t) :
    ∃ c r, t = c :: r ∧ isDigit c = true ∧ '.' ∈ r := by
  obtain ⟨u, v, rfl, hu, hv⟩ := Pattern.matches_inOrder_cons.mp h
  obtain ⟨w, rfl, -⟩ := Pattern.matches_inOrder_char.mp hv
  obtain ⟨hne, hall⟩ := Pattern.matches_plus_one_iff.mp hu
  exact cons_of_append hne hall

private theorem guid_start {t : Text} (h : guid.Matches t) :
    ∃ c r, t = c :: r ∧ isHexDigit c = true ∧ '-' ∈ r := by
  obtain ⟨u, v, rfl, hu, hv⟩ := Pattern.matches_inOrder_cons.mp h
  obtain ⟨w, rfl, -⟩ := Pattern.matches_inOrder_char.mp hv
  obtain ⟨hlen, hall⟩ := Pattern.matches_times_one_iff.mp hu
  exact cons_of_append (fun hu => by simp [hu] at hlen) hall

private theorem wildcardInside_start {t : Text} (h : wildcardInside.Matches t) :
    ∃ c r, t = c :: r ∧ isLetter c = true ∧ '*' ∈ r := by
  obtain ⟨u, v, rfl, hu, hv⟩ := Pattern.matches_inOrder_cons.mp h
  obtain ⟨w, rfl, -⟩ := Pattern.matches_inOrder_char.mp hv
  obtain ⟨c, r, rfl, hc, -⟩ := matches_identifier_iff.mp hu
  exact ⟨c, r ++ '*' :: w, rfl, hc, by simp⟩

private theorem wildcardFirst_start {t : Text} (h : wildcardFirst.Matches t) :
    ∃ r, t = '*' :: r ∧ r ≠ [] := by
  obtain ⟨v, rfl, hv⟩ := Pattern.matches_inOrder_char.mp h
  obtain ⟨u, w, rfl, hu, -⟩ := Pattern.matches_inOrder_cons.mp hv
  obtain ⟨c, rfl, -⟩ := Pattern.matches_one_iff.mp hu
  exact ⟨c :: w, rfl, List.cons_ne_nil _ _⟩

/-- A digit begins what its marks make it. -/
private theorem sortOf_digit {c : Char} (hc : isDigit c = true) (t : Text) :
    sortOf (c :: t) =
      if '.' ∈ t then .realLiteral else if '-' ∈ t then .rawGuidLiteral else .longLiteral := by
  rw [sortOf, not_isSpace_of_isWordChar (isWordChar_of_isDigit hc), hc]
  rfl

private theorem sortOf_letter {c : Char} (hc : isLetter c = true) (t : Text) :
    sortOf (c :: t) =
      if '*' ∈ t then .wildcardedIdentifier
      else if '-' ∈ t then .rawGuidLiteral
      else if c :: t = "let".toList then .letKeyword
      else if c :: t ∈ reserved then .booleanLiteral
      else .identifier := by
  rw [sortOf, not_isSpace_of_isWordChar (isWordChar_of_isLetter hc), not_isDigit_of_isLetter hc, hc]
  rfl

/-- The kinds of what begins with a letter. -/
def wordKinds : List Kind :=
  [.identifier, .wildcardedIdentifier, .rawGuidLiteral, .letKeyword, .booleanLiteral]

theorem sortOf_letter_mem {c : Char} (hc : isLetter c = true) (t : Text) :
    sortOf (c :: t) ∈ wordKinds := by
  rw [sortOf_letter hc]
  repeat' split
  all_goals decide

private theorem sortOf_identifier {t : Text} (h : identifier.Matches t) :
    sortOf t = .identifier ∨ t ∈ reserved := by
  obtain ⟨c, r, rfl, hc, hr⟩ := matches_identifier_iff.mp h
  have hmark {m : Char} (hm : isWordChar m = false) : m ∉ r := by
    intro hmem
    rw [hr m hmem] at hm
    cases hm
  rw [sortOf_letter hc, if_neg (hmark (by decide)), if_neg (hmark (by decide))]
  by_cases hlet : c :: r = "let".toList
  · rw [hlet]
    exact .inr (by decide)
  · rw [if_neg hlet]
    split
    · exact .inr ‹_›
    · exact .inl rfl

private theorem sortOf_guid {t : Text} (h : guid.Matches t) : sortOf t = .rawGuidLiteral := by
  have hmark {m : Char} (hm : guid.mentions m = false) : m ∉ t :=
    Pattern.not_mem_of_mentions hm h
  obtain ⟨c, r, rfl, hc, hdash⟩ := guid_start h
  have hdot : '.' ∉ r := fun hmem => hmark (by decide) (List.mem_cons_of_mem c hmem)
  have hstar : '*' ∉ r := fun hmem => hmark (by decide) (List.mem_cons_of_mem c hmem)
  rcases isDigit_or_isLetter_of_isHexDigit hc with hc | hc
  · rw [sortOf_digit hc, if_neg hdot, if_pos hdash]
  · rw [sortOf_letter hc, if_neg hstar, if_pos hdash]

/-- The text of a lexeme tells its kind, unless an identifier is spelt like a reserved word. -/
theorem sortOf_of_matches {l : Lexeme} (mem : l ∈ lexemes) {t : Text} (h : l.pattern.Matches t) :
    sortOf t = l.kind ∨ l.kind = .identifier ∧ t ∈ reserved := by
  have hfixed : ∀ k ∈ Kind.all, ∀ x ∈ k.fixedText?, sortOf x = k := by decide +kernel
  simp only [lexemes, List.mem_append, List.mem_cons, List.not_mem_nil, or_false] at mem
  rcases mem with ((rfl | rfl) | mem) | rfl | rfl | rfl | rfl | rfl | rfl | rfl | rfl
  · obtain ⟨hne, hall⟩ := Pattern.matches_plus_one_iff.mp h
    obtain ⟨c, t, rfl⟩ := List.exists_cons_of_ne_nil hne
    rw [sortOf, if_pos (hall c List.mem_cons_self)]
    exact .inl rfl
  · obtain ⟨u, v, rfl, hu, -⟩ := Pattern.matches_seq_iff.mp h
    rw [Pattern.matches_exactly_iff.mp hu]
    exact .inl rfl
  · obtain ⟨k, hk, hl⟩ := List.mem_filterMap.mp mem
    obtain ⟨x, hx, rfl⟩ := Option.map_eq_some_iff.mp hl
    rw [Pattern.matches_exactly_iff.mp h]
    exact .inl (hfixed k hk x hx)
  · rw [Pattern.matches_exactly_iff.mp h]
    exact .inl rfl
  · rw [Pattern.matches_exactly_iff.mp h]
    exact .inl rfl
  · exact (sortOf_identifier h).imp_right fun hr => ⟨rfl, hr⟩
  · obtain ⟨c, r, rfl, hc, hstar⟩ := wildcardInside_start h
    rw [sortOf_letter hc, if_pos hstar]
    exact .inl rfl
  · obtain ⟨r, rfl, hne⟩ := wildcardFirst_start h
    rw [sortOf]
    simp [hne, isSpace, isDigit, isLetter]
  · obtain ⟨hne, hall⟩ := Pattern.matches_plus_one_iff.mp h
    obtain ⟨c, t, rfl⟩ := List.exists_cons_of_ne_nil hne
    obtain ⟨hc, ht⟩ := List.forall_mem_cons.mp hall
    have hmark {m : Char} (hm : isDigit m = false) : m ∉ t := by
      intro hmem
      rw [ht m hmem] at hm
      cases hm
    rw [sortOf_digit hc, if_neg (hmark (by decide)), if_neg (hmark (by decide))]
    exact .inl rfl
  · obtain ⟨c, r, rfl, hc, hdot⟩ := real_start h
    rw [sortOf_digit hc, if_pos hdot]
    exact .inl rfl
  · exact .inl (sortOf_guid h)

/-- Two lexemes match the same text only if they are of one kind, or one of them is an identifier
spelt like a reserved word. -/
theorem kind_eq_of_matches {l l' : Lexeme} (mem : l ∈ lexemes) (mem' : l' ∈ lexemes) {t : Text}
    (h : l.pattern.Matches t) (h' : l'.pattern.Matches t) (hl : l.kind ≠ .identifier ∨ t ∉ reserved) :
    l'.kind = l.kind ∨ l'.kind = .identifier ∧ t ∈ reserved := by
  rcases sortOf_of_matches mem h with hsort | ⟨hid, hr⟩
  · exact (sortOf_of_matches mem' h').imp_left fun hsort' => hsort'.symm.trans hsort
  · exact absurd hl (by simp [hid, hr])

/-- A kind that is listed once has one lexeme. -/
theorem eq_of_kind_eq {l l' : Lexeme} (mem : l ∈ lexemes) (mem' : l' ∈ lexemes)
    (hk : l'.kind = l.kind) (once : lexemes.countP (·.kind == l.kind) = 1) : l' = l := by
  rw [List.countP_eq_length_filter] at once
  obtain ⟨x, hx⟩ := List.length_eq_one_iff.mp once
  have hsame {y : Lexeme} (hy : y ∈ lexemes) (hyk : y.kind = l.kind) : y = x := by
    have hfilter : y ∈ lexemes.filter (·.kind == l.kind) :=
      List.mem_filter.mpr ⟨hy, beq_iff_eq.mpr hyk⟩
    rwa [hx, List.mem_singleton] at hfilter
  rw [hsame mem' hk, hsame mem rfl]

end CommandGrammar.Piece
