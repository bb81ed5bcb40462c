import CommandGrammar.Proofs.Source.Lexed
import CommandGrammar.Proofs.Token.Quotation

/-! Kinds and spellings agree. Among the tokens of a text a mark is known by its kind and by its text alike,
and an identifier by its characters, unless it is spelt like a reserved word. -/
namespace CommandGrammar

namespace Piece
open Token.Lexicon

/-- An ASCII letter or an underscore. -/
def StartsName (c : Char) : Prop := ('A' ≤ c ∧ c ≤ 'Z') ∨ ('a' ≤ c ∧ c ≤ 'z') ∨ c = '_'

/-- An ASCII letter or an underscore, and any of these and ASCII digits behind it. -/
def IsIdentifier (t : Text) : Prop :=
  ∃ c r, t = c :: r ∧ StartsName c ∧ ∀ d ∈ r, StartsName d ∨ ('0' ≤ d ∧ d ≤ '9')

private theorem matches_identifier_iff_isIdentifier {t : Text} :
    identifier.Matches t ↔ IsIdentifier t := by
  simp only [matches_identifier_iff, isWordChar, Bool.or_eq_true, isLetter_iff, isDigit_iff]
  rfl

/-- A text with letters and digits only opens no literal. -/
private theorem not_opening_of_identifier {t : Text} (h : identifier.Matches t)
    {x : Text × Delimited} (opens : x ∈ openings) : ¬ x.1 <+: t := by
  have hopenings : ∀ x ∈ openings, x.1.all isWordChar = false := by decide
  intro hstart
  obtain ⟨c, r, rfl, hc, hr⟩ := matches_identifier_iff.mp h
  have hall : x.1.all isWordChar = true := by
    have hword : ∀ d ∈ c :: r, isWordChar d = true :=
      List.forall_mem_cons.mpr ⟨isWordChar_of_isLetter hc, hr⟩
    exact List.all_eq_true.mpr fun d hd => hword d (hstart.subset hd)
  rw [hopenings x opens] at hall
  cases hall

/-- What is read as an identifier is what the pattern says, but for the reserved words. -/
theorem Munch.identifier_iff {s t : Text} {k : Kind} (h : Munch s k t) :
    k = .identifier ↔ IsIdentifier t ∧ t ∉ reserved := by
  have hdelimited : ∀ x ∈ openings, x.2.kind ≠ .identifier := by decide
  have hreserved : ∀ t ∈ reserved,
      ∃ l ∈ lexemes, l.kind ≠ .identifier ∧ l.pattern.accepts t = true := by decide +kernel
  rw [← matches_identifier_iff_isIdentifier]
  cases h with
  | @closed o d b opens start body _ _ =>
    refine iff_of_false (hdelimited _ opens) fun ⟨hmatch, _⟩ => ?_
    exact not_opening_of_identifier hmatch opens
      ((opening_prefix_body opens start body).trans (List.prefix_append b _))
  | broken opens start body _ =>
    refine iff_of_false nofun fun ⟨hmatch, _⟩ => ?_
    exact not_opening_of_identifier hmatch opens (opening_prefix_body opens start body)
  | @lexeme l _ _ mem matched _ wins =>
    constructor
    · intro hk
      cases eq_of_kind_eq identifier_mem mem hk (by decide +kernel)
      refine ⟨matched, fun ht => ?_⟩
      -- A reserved word is a lexeme of another kind too, which wins.
      obtain ⟨l', mem', hk', hl'⟩ := hreserved t ht
      rcases wins l' mem' ((Pattern.accepts_iff _ _).mp hl') with hsame | ⟨hid, -⟩
      · exact hk' hsame
      · exact hk' hid
    · rintro ⟨hmatch, ht⟩
      rcases kind_eq_of_matches identifier_mem mem hmatch matched (.inr ht) with hk | ⟨hk, -⟩
      · exact hk
      · exact hk
  | bad _ start none =>
    refine iff_of_false nofun fun ⟨hmatch, _⟩ => ?_
    exact none _ start ⟨_, identifier_mem, hmatch⟩

end Piece

namespace Token

/-- A token before the end marker is solid. -/
private theorem solid_of_mem {text : Text} {t : Token} (h : t ∈ ofText text)
    (hk : t.kind ≠ .endOfText) : t.Solid := by
  obtain ⟨front, trivia, heq, hfront, -⟩ := ofText_eq text
  have hmem := mem_dropLast h hk
  rw [heq, List.dropLast_concat] at hmem
  exact (hfront t hmem).1

end Token

namespace Source
open Piece

/-- Before the end marker a token is of a kind with one spelling exactly if it is spelt so, and a grammar may
look for it by its kind or by its text. It is an identifier exactly if it has the characters of one and is not
reserved. -/
theorem kind_iff_spelling (text : Text) :
    (∀ t ∈ Token.ofText text, t.kind ≠ .endOfText →
      (∀ k x, k.fixedText? = some x → (t.kind = k ↔ t.text = x)) ∧
        (t.kind = .identifier ↔ IsIdentifier t.text ∧ t.text ∉ reserved)) ∧
    ∀ k x, k.fixedText? = some x → ∀ p,
      (ofText text).parse (.text x) p = (ofText text).parse (.kind k) p := by
  constructor
  · intro t ht hend
    refine ⟨(Token.solid_of_mem ht hend).spelling, ?_⟩
    exact (Token.munch_text (Token.mem_dropLast ht hend)).1.identifier_iff
  · intro k x hk p
    exact (lexed_ofText text).parse_text hk

/-- A word that begins like a keyword, the keyword, a bracket, and a literal that breaks off. -/
def keywordAndAlike : Text := "lets let [h'x".toList

/-- The word is an identifier, and the keyword behind it is found by its kind as by its text. -/
theorem spelling_keywordAndAlike :
    ∃ t ∈ Token.ofText keywordAndAlike, t.text = "lets".toList ∧ t.kind ≠ .endOfText ∧
      Kind.letKeyword.fixedText? = some "let".toList ∧
      (t.kind = .letKeyword ↔ t.text = "let".toList) ∧
      (t.kind = .identifier ↔ IsIdentifier t.text ∧ t.text ∉ reserved) ∧
      (ofText keywordAndAlike).parse (.text "let".toList) 1 =
        (ofText keywordAndAlike).parse (.kind .letKeyword) 1 := by
  obtain ⟨htokens, hgrammars⟩ := kind_iff_spelling keywordAndAlike
  have hmem : (⟨.identifier, [], "lets".toList, 0⟩ : Token) ∈ Token.ofText keywordAndAlike := by
    decide +kernel
  obtain ⟨hfixed, hidentifier⟩ := htokens _ hmem nofun
  exact ⟨_, hmem, rfl, nofun, rfl, hfixed _ _ rfl, hidentifier, hgrammars _ _ rfl 1⟩

end Source
end CommandGrammar
