import CommandGrammar.Proofs.Phrase.Completeness
import CommandGrammar.Proofs.Phrase.Soundness
import CommandGrammar.Proofs.Rule.Parse

/-! A text is read with nothing missing exactly if its tokens are a phrase. -/
namespace CommandGrammar

namespace Phrase

/-- What a whole text may be read as. -/
inductive Goal where
  | function | body | script | query
  deriving DecidableEq, Repr

namespace Goal

def rule : Goal → Rule
  | .function => .functionDeclaration
  | .body => .functionBody
  | .script => .scriptInput
  | .query => .queryInput

def language : Goal → Language Token
  | .function => Phrase.function
  | .body => Phrase.body
  | .script => Phrase.script
  | .query => Phrase.expression

end Goal
end Phrase

namespace Source
open Leaf Phrase
variable {text : Text} {s : Source}

private theorem Lexed.obeys_goal (hs : Lexed text s) (goal : Goal) :
    s.Obeys Element.flatten (RuleSet.standard.grammar goal.rule) goal.language := by
  cases goal with
  | function => exact hs.obeys_function
  | body => exact hs.obeys_bodyElement
  | script => exact hs.obeys_script
  | query => exact hs.obeys_expression

private theorem Lexed.finds_goal (hs : Lexed text s) (goal : Goal) {p q : Nat}
    (h : s.Derives goal.language p q) (hend : s.isEnd q = true) :
    s.Finds Element.flatten (RuleSet.standard.grammar goal.rule) p q := by
  cases goal with
  | function => exact hs.finds_function h
  | body => exact hs.finds_bodyElement h
  | script => exact hs.finds_script h hend
  | query =>
    refine hs.finds_expression h ?_
    rw [eq_of_beq hend]
    exact nofun

/-- The tokens of a text before the end marker are those of the whole source. -/
private theorem slice_ofText (text : Text) :
    (ofText text).slice 0 (ofText text).size = (Token.ofText text).dropLast := by
  rw [slice_zero (Nat.le_refl _), size, List.take_length, ← tokens_ofText, tokens,
    List.dropLast_concat]

end Source

namespace Phrase
open Source

/-- Reading a text as one of the goals succeeds and reports nothing missing exactly if the tokens of
the text, the end marker left out, are a phrase of the goal. -/
theorem parse_complete_iff (goal : Goal) (text : Text) :
    (∃ e, RuleSet.standard.parse goal.rule text = .ok e ∧ Diagnostic.missing e = []) ↔
      (Token.ofText text).dropLast ∈ goal.language := by
  have hs := lexed_ofText text
  rw [← slice_ofText]
  constructor
  · rintro ⟨e, he, hmissing⟩
    have hpresent := (Diagnostic.missing_eq_nil_iff e).mp hmissing
    exact (hs.obeys_goal goal (RuleSet.parse_eq_ok_iff.mp he) hpresent).2
  · intro hmem
    have hend := hs.isEnd_iff.mpr (Nat.le_refl (ofText text).size)
    obtain ⟨e, he, hpresent⟩ := hs.finds_goal goal ⟨Nat.zero_le _, hmem⟩ hend
    exact ⟨e, RuleSet.parse_eq_ok_iff.mpr he, (Diagnostic.missing_eq_nil_iff e).mpr hpresent⟩

end Phrase
end CommandGrammar
