import CommandGrammar.Proofs.Fragment.Leaves
import CommandGrammar.Proofs.Grammar.Obeys
import CommandGrammar.Proofs.Phrase.Start

/-! What the grammars of the query language read without a placeholder is a phrase of it. -/
namespace CommandGrammar.Source
open Fragment Computability Leaf
variable {text : Text} {s : Source}

private theorem obeys_ofKind (k : Kind) : s.Obeys (fun l => [l]) (.kind k) (Phrase.ofKind k) :=
  (ensures_kind k).mono fun _ _ _ h _ => derives_ofKind_iff.mpr h

private theorem obeys_identifierName : s.Obeys Name.leaves identifierName Phrase.identifier :=
  ensures_identifierName.mono fun _ _ _ h _ => derives_identifier_iff.mpr h

private theorem obeys_typeName : s.Obeys (fun l => [l]) typeName Phrase.type := by
  refine .satisfy s _ fun p _ h => ?_
  obtain ⟨hkind, htext⟩ := Bool.and_eq_true_iff.mp h
  exact ⟨eq_of_beq hkind, List.contains_iff_mem.mp htext⟩

private theorem obeys_literal : s.Obeys Element.flatten literal Phrase.literal :=
  ensures_literal.mono fun _ _ _ h _ => derives_literal_iff.mpr h

namespace Lexed

private theorem obeys_kind (hs : Lexed text s) {k : Kind} {x : Text} (hk : k.fixedText? = some x) :
    s.Obeys (fun l => [l]) (.kind k) (Phrase.mark k) :=
  (ensures_kind k).mono fun _ _ _ h _ => (hs.derives_mark_iff hk).mpr h

private theorem obeys_text (hs : Lexed text s) {k : Kind} {x : Text} (hk : k.fixedText? = some x) :
    s.Obeys (fun l => [l]) (.text x) (Phrase.mark k) :=
  (hs.ensures_text hk).mono fun _ _ _ h _ => (hs.derives_mark_iff hk).mpr h

private theorem obeys_requiredKind (hs : Lexed text s) {k : Kind} {x : Text}
    (hk : k.fixedText? = some x) : s.Obeys (fun l => [l]) (requiredKind k) (Phrase.mark k) :=
  (hs.obeys_kind hk).required (by simp [present_singleton, placeholder])

private theorem obeys_reference (hs : Lexed text s) :
    s.Obeys Element.flatten anyReference Phrase.reference := by
  have hbracketed : s.Obeys Name.leaves bracketedName
      (Phrase.mark .openBracket * (Phrase.ofKind .stringLiteral * Phrase.mark .closeBracket)) :=
    ((hs.obeys_text rfl).seq ((obeys_ofKind _).seq (hs.obeys_text rfl))).map fun _ => rfl
  rw [← mul_assoc] at hbracketed
  exact (obeys_identifierName.either hbracketed).map fun _ => rfl

theorem obeys_expression (hs : Lexed text s) :
    s.Obeys Element.flatten expression Phrase.expression := by
  have hdot : s.Obeys (fun l => [l]) (Grammar.hide (.text ['.'])) (Phrase.mark .dot) := by
    refine Ensures.map ((hs.obeys_text rfl).mono fun p q l hl hpresent => hl ?_)
    rw [present_singleton] at hpresent ⊢
    exact hpresent
  have hlink : s.Obeys (fun l : Link => l.dot :: l.selector.flatten)
      (link anyReference ['.'] (Placeholder.reference .any).element)
      (Phrase.mark .dot * Phrase.reference) :=
    (hdot.seq (hs.obeys_reference.required (by decide))).map fun _ => rfl
  have hpath : s.Obeys Element.flatten dottedReference
      (Phrase.reference * (Phrase.mark .dot * Phrase.reference)∗) :=
    (hs.obeys_reference.seq hlink.many).map fun a => Element.flatten_chain a.1 a.2
  exact .withLabel _ (obeys_literal.either hpath)

private theorem obeys_statement (hs : Lexed text s) :
    s.Obeys Statement.flatten statement Phrase.statement := by
  have hvalue : s.Obeys Element.flatten (expression.required Placeholder.expression.element)
      Phrase.expression :=
    hs.obeys_expression.required (by decide)
  have hbinding : s.Obeys Statement.flatten binding (Phrase.ofKind .letKeyword * Phrase.identifier *
      (Phrase.mark .equal * Phrase.expression)) :=
    (((obeys_ofKind _).seq obeys_identifierName).seq ((hs.obeys_text rfl).seq hvalue)).map
      fun _ => by simp [Statement.flatten]
  rw [← mul_assoc] at hbinding
  exact hbinding.either (hs.obeys_expression.map fun _ => rfl)

theorem obeys_script (hs : Lexed text s) : s.Obeys Element.flatten script Phrase.script :=
  (hs.obeys_statement.seq (hs.obeys_kind rfl).optional).many.map flatten_script

private theorem obeys_parameters (hs : Lexed text s) :
    s.Obeys Parameters.flatten parameters Phrase.parameters := by
  have hone : s.Obeys Parameter.leaves parameter
      (Phrase.identifier * (Phrase.mark .colon * Phrase.type)) :=
    (obeys_identifierName.seq ((hs.obeys_requiredKind rfl).seq
      (obeys_typeName.required (by decide)))).map fun _ => rfl
  rw [← mul_assoc] at hone
  have hlist : s.Obeys Parameter.leavesOf parameterList
      (1 + Phrase.parameter * (Phrase.mark .comma * Phrase.parameter)∗) :=
    (hone.seq ((hs.obeys_kind rfl).seq hone).many).optional.map leavesOf_parameterList
  have hall : s.Obeys Parameters.flatten parameters (Phrase.mark .openParen *
      ((1 + Phrase.parameter * (Phrase.mark .comma * Phrase.parameter)∗) *
        Phrase.mark .closeParen)) :=
    .withLabel _ (((hs.obeys_kind rfl).seq (hlist.seq (hs.obeys_requiredKind rfl))).map
      fun _ => rfl)
  rwa [← mul_assoc] at hall

private theorem obeys_body (hs : Lexed text s) : s.Obeys Body.flatten body Phrase.body := by
  have hclosed : s.Obeys Statements.flatten closedStatements
      (Phrase.statement * Phrase.mark .semicolon)∗ :=
    (hs.obeys_statement.seq (hs.obeys_kind rfl)).many.map flatten_closedStatements
  have hall : s.Obeys Body.flatten body (Phrase.mark .openBrace *
      (((Phrase.statement * Phrase.mark .semicolon)∗ *
        ((1 + Phrase.expression) * (1 + Phrase.mark .semicolon))) * Phrase.mark .closeBrace)) :=
    .withLabel _ (((hs.obeys_kind rfl).seq
      ((hclosed.seq (hs.obeys_expression.optional.seq (hs.obeys_kind rfl).optional)).seq
        (hs.obeys_requiredKind rfl))).map flatten_body)
  simp only [← mul_assoc] at hall
  exact hall

theorem obeys_function (hs : Lexed text s) : s.Obeys Element.flatten function Phrase.function :=
  .withLabel _ ((hs.obeys_parameters.seq hs.obeys_body).map fun _ => rfl)

theorem obeys_bodyElement (hs : Lexed text s) : s.Obeys Element.flatten bodyElement Phrase.body :=
  .withLabel _ (hs.obeys_body.map fun _ => rfl)

end Lexed
end CommandGrammar.Source
