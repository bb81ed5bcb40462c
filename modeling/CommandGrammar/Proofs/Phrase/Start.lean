import CommandGrammar.Fragment.Function
import CommandGrammar.Proofs.Grammar.Finds
import CommandGrammar.Proofs.Source.Derives

/-! How phrases begin, and how what the grammars match begins. The first tokens of a phrase decide
which alternative reads it. -/
namespace CommandGrammar

private theorem Kind.isIdentifierLike_iff {k : Kind} :
    k.isIdentifierLike = true ↔ k = .identifier ∨ k = .letKeyword := by
  rw [isIdentifierLike, isKeyword, Bool.or_eq_true_iff, beq_iff_eq, beq_iff_eq]

/-- The kinds that a statement may begin with. -/
def Phrase.starters : List Kind :=
  [.identifier, .letKeyword, .openBracket, .longLiteral, .realLiteral, .booleanLiteral,
   .stringLiteral, .guidLiteral]

theorem Phrase.ne_of_mem_starters {k k' : Kind} (h : k ∈ starters) (h' : k' ∉ starters) :
    k ≠ k' := by
  rintro rfl
  exact h' h

namespace Source
open Computability
variable {text : Text} {s : Source} {p q : Nat}

theorem derives_identifier_iff :
    s.Derives Phrase.identifier p q ↔ q = p + 1 ∧ (s.peek p).kind.isIdentifierLike = true := by
  rw [Phrase.identifier, derives_add_iff, derives_ofKind_iff, derives_ofKind_iff, ← and_or_left,
    Kind.isIdentifierLike_iff]

theorem derives_literal_iff :
    s.Derives Phrase.literal p q ↔
      q = p + 1 ∧ ∃ sort : LiteralSort, (s.peek p).kind = sort.tokenKind := by
  simp only [Phrase.literal, derives_add_iff, derives_ofKind_iff]
  constructor
  · rintro ((((⟨hq, h⟩ | ⟨hq, h⟩) | ⟨hq, h⟩) | ⟨hq, h⟩) | ⟨hq, h⟩)
    · exact ⟨hq, .long, h⟩
    · exact ⟨hq, .real, h⟩
    · exact ⟨hq, .boolean, h⟩
    · exact ⟨hq, .string, h⟩
    · exact ⟨hq, .guid, h⟩
  · rintro ⟨hq, sort, h⟩
    cases sort with
    | long => exact .inl (.inl (.inl (.inl ⟨hq, h⟩)))
    | real => exact .inl (.inl (.inl (.inr ⟨hq, h⟩)))
    | boolean => exact .inl (.inl (.inr ⟨hq, h⟩))
    | string => exact .inl (.inr ⟨hq, h⟩)
    | guid => exact .inr ⟨hq, h⟩

/-- A statement binds a name or is an expression. -/
private theorem statement_start (h : s.Derives Phrase.statement p q) :
    ((s.peek p).kind = .letKeyword ∧ (s.peek (p + 1)).kind.isIdentifierLike = true) ∨
      s.Derives Phrase.expression p q := by
  rw [Phrase.statement, derives_add_iff, Phrase.binding, mul_assoc, derives_mul_iff] at h
  rcases h with ⟨m, h, -⟩ | h
  · obtain ⟨r, hlet, hname⟩ := derives_mul_iff.mp h
    obtain ⟨rfl, hkind⟩ := derives_ofKind_iff.mp hlet
    exact .inl ⟨hkind, (derives_identifier_iff.mp hname).2⟩
  · exact .inr h

theorem ensures_kind (k : Kind) :
    s.Ensures (.kind k) fun p q _ => q = p + 1 ∧ (s.peek p).kind = k :=
  (Ensures.satisfy _).mono fun _ _ _ h => ⟨h.2.2.1, eq_of_beq h.2.1⟩

theorem ensures_literal :
    s.Ensures Fragment.literal fun p q _ =>
      q = p + 1 ∧ ∃ sort : LiteralSort, (s.peek p).kind = sort.tokenKind := by
  apply Ensures.withLabel
  apply Ensures.first
  intro g hg
  obtain ⟨sort, _, rfl⟩ := List.mem_map.mp hg
  exact .map ((ensures_kind _).mono fun p q l h => ⟨h.1, sort, h.2⟩)

theorem ensures_identifierName :
    s.Ensures Fragment.identifierName fun p q _ =>
      q = p + 1 ∧ (s.peek p).kind.isIdentifierLike = true :=
  .map ((Ensures.satisfy _).mono fun _ _ _ h => ⟨h.2.2.1, h.2.1⟩)

namespace Lexed

/-- A reference is one name or begins with a bracket. -/
theorem reference_start (hs : Lexed text s) (h : s.Derives Phrase.reference p q) :
    (q = p + 1 ∧ (s.peek p).kind.isIdentifierLike = true) ∨ (s.peek p).kind = .openBracket := by
  rw [Phrase.reference, derives_add_iff, mul_assoc, derives_mul_iff] at h
  rcases h with h | ⟨m, h, -⟩
  · exact .inl (derives_identifier_iff.mp h)
  · exact .inr ((hs.derives_mark_iff rfl).mp h).2

/-- An expression is a literal, or it begins with a name that ends it or has a dot behind it, or it
begins with a bracket. -/
theorem expression_start (hs : Lexed text s) (h : s.Derives Phrase.expression p q) :
    (∃ sort : LiteralSort, (s.peek p).kind = sort.tokenKind) ∨
      ((s.peek p).kind.isIdentifierLike = true ∧ (q = p + 1 ∨ (s.peek (p + 1)).kind = .dot)) ∨
      (s.peek p).kind = .openBracket := by
  rw [Phrase.expression, derives_add_iff, derives_mul_iff] at h
  rcases h with h | ⟨m, href, hlinks⟩
  · exact .inl (derives_literal_iff.mp h).2
  · rcases hs.reference_start href with ⟨rfl, hname⟩ | hbracket
    · have hnext : p + 1 = q ∨ (s.peek (p + 1)).kind = .dot := by
        refine hlinks.kstar_induction (motive := fun r => r = q ∨ (s.peek r).kind = .dot)
          (.inl rfl) fun r m _ hlink _ _ => .inr ?_
        obtain ⟨_, hdot, -⟩ := derives_mul_iff.mp hlink
        exact ((hs.derives_mark_iff rfl).mp hdot).2
      exact .inr (.inl ⟨hname, hnext.imp_left Eq.symm⟩)
    · exact .inr (.inr hbracket)

private theorem expression_kind_mem (hs : Lexed text s) (h : s.Derives Phrase.expression p q) :
    (s.peek p).kind ∈ Phrase.starters := by
  rcases hs.expression_start h with ⟨sort, hkind⟩ | ⟨hname, -⟩ | hbracket
  · rw [hkind]
    cases sort <;> decide
  · rcases Kind.isIdentifierLike_iff.mp hname with hkind | hkind
    · rw [hkind]
      decide
    · rw [hkind]
      decide
  · rw [hbracket]
    decide

theorem statement_kind_mem (hs : Lexed text s) (h : s.Derives Phrase.statement p q) :
    (s.peek p).kind ∈ Phrase.starters := by
  rcases statement_start h with ⟨hlet, -⟩ | h
  · rw [hlet]
    decide
  · exact hs.expression_kind_mem h

/-- Behind the first name of a statement there is no equals sign, unless the statement ends there. -/
theorem statement_second (hs : Lexed text s) (h : s.Derives Phrase.statement p q)
    (hname : (s.peek p).kind.isIdentifierLike = true) :
    q = p + 1 ∨ (s.peek (p + 1)).kind ≠ .equal := by
  have next {k : Kind} (hk : (s.peek (p + 1)).kind = k) (hne : k ≠ .equal) :
      q = p + 1 ∨ (s.peek (p + 1)).kind ≠ .equal := .inr (hk ▸ hne)
  rcases statement_start h with ⟨-, hbound⟩ | h
  · rcases Kind.isIdentifierLike_iff.mp hbound with hk | hk
    · exact next hk nofun
    · exact next hk nofun
  · rcases hs.expression_start h with ⟨sort, hkind⟩ | ⟨-, hq | hdot⟩ | hbracket
    · rw [hkind] at hname
      cases sort <;> cases hname
    · exact .inl hq
    · exact next hdot nofun
    · rw [hbracket] at hname
      cases hname

theorem ensures_text (hs : Lexed text s) {k : Kind} {x : Text} (hk : k.fixedText? = some x) :
    s.Ensures (.text x) fun p q _ => q = p + 1 ∧ (s.peek p).kind = k := by
  intro p q l hl
  rw [hs.parse_text hk] at hl
  exact ensures_kind k hl

/-- What an expression matches begins as an expression does. -/
theorem ensures_expression_kind (hs : Lexed text s) :
    s.Ensures Fragment.expression fun p _ _ => (s.peek p).kind ∈ Phrase.starters := by
  have hliteral : s.Ensures Fragment.literal fun p _ _ => (s.peek p).kind ∈ Phrase.starters := by
    refine ensures_literal.mono fun p q e h => ?_
    obtain ⟨-, sort, hkind⟩ := h
    rw [hkind]
    cases sort <;> decide
  have hname : s.Ensures Fragment.identifierName fun p _ _ =>
      (s.peek p).kind ∈ Phrase.starters := by
    refine ensures_identifierName.mono fun p q n h => ?_
    rcases Kind.isIdentifierLike_iff.mp h.2 with hkind | hkind
    · rw [hkind]
      decide
    · rw [hkind]
      decide
  have hbracketed : s.Ensures Fragment.bracketedName fun p _ _ =>
      (s.peek p).kind ∈ Phrase.starters := by
    refine .map (.seq_start ((hs.ensures_text (k := .openBracket) rfl).mono fun p q l h => ?_))
    rw [h.2]
    decide
  have hreference : s.Ensures Fragment.anyReference fun p _ _ =>
      (s.peek p).kind ∈ Phrase.starters := .map (.either hname hbracketed)
  exact .withLabel _ (.either hliteral (.map (.seq_start hreference)))

/-- A binding is matched by its first three tokens. -/
theorem ensures_binding_kind (hs : Lexed text s) :
    s.Ensures Fragment.binding fun p _ _ => (s.peek p).kind = .letKeyword ∧
      (s.peek (p + 1)).kind.isIdentifierLike = true ∧ (s.peek (p + 2)).kind = .equal := by
  have hname : s.Ensures ((Grammar.kind .letKeyword).seq Fragment.identifierName) fun p q _ =>
      q = p + 2 ∧ (s.peek p).kind = .letKeyword ∧
        (s.peek (p + 1)).kind.isIdentifierLike = true := by
    refine .seq (ensures_kind _) ensures_identifierName ?_
    rintro p m q l n ⟨rfl, hlet⟩ ⟨rfl, hname⟩
    exact ⟨rfl, hlet, hname⟩
  have hequal : s.Ensures
      ((Grammar.text ['=']).seq (Fragment.expression.required Placeholder.expression.element))
      fun p _ _ => (s.peek p).kind = .equal :=
    .seq_start ((hs.ensures_text rfl).mono fun _ _ _ h => h.2)
  refine .map (.seq hname hequal ?_)
  rintro p m q a b ⟨rfl, hlet, hname⟩ hequal
  exact ⟨hlet, hname, hequal⟩

theorem ensures_statement_kind (hs : Lexed text s) :
    s.Ensures Fragment.statement fun p _ _ => (s.peek p).kind ∈ Phrase.starters := by
  refine .either (hs.ensures_binding_kind.mono fun p q x h => ?_) (.map hs.ensures_expression_kind)
  rw [h.1]
  decide

end Lexed
end Source
end CommandGrammar
