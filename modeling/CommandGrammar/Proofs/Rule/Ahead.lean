import CommandGrammar.Proofs.Grammar.Placeless
import CommandGrammar.Proofs.Source.Parse
import CommandGrammar.Rule.Set

/-! A rule sees what lies ahead of it, up to the next end marker, and nothing else: neither the tokens
before it nor how many there are, nor what stands behind the end marker. -/
namespace CommandGrammar

namespace Source
variable {s s' : Source} {p p' : Nat}

/-- The tokens from a position on are the same in two sources, as far as the first end marker, which is
the same as well. -/
def SameAhead (s : Source) (p : Nat) (s' : Source) (p' : Nat) : Prop :=
  ∀ i, (∀ j < i, s.isEnd (p + j) = false) → s.peek (p + i) = s'.peek (p' + i)

namespace SameAhead

private theorem peek_eq (h : s.SameAhead p s' p') : s.peek p = s'.peek p' := h 0 nofun

private theorem isEnd_eq (h : s.SameAhead p s' p') : s.isEnd p = s'.isEnd p' := by
  rw [isEnd, isEnd, h.peek_eq]

private theorem next (h : s.SameAhead p s' p') (hend : s.isEnd p = false) :
    s.SameAhead (p + 1) s' (p' + 1) := by
  intro i hi
  rw [Nat.add_right_comm, Nat.add_right_comm p']
  refine h (i + 1) fun j hj => ?_
  cases j with
  | zero => exact hend
  | succ j =>
    rw [← Nat.add_assoc, Nat.add_right_comm]
    exact hi j (Nat.lt_of_succ_lt_succ hj)

end SameAhead

/-- It is enough to look as far as some end marker. -/
private theorem sameAhead_of_isEnd {n : Nat} (hend : s.isEnd (p + n) = true)
    (h : ∀ i ≤ n, s.peek (p + i) = s'.peek (p' + i)) : s.SameAhead p s' p' := by
  intro i hi
  refine h i (Nat.le_of_not_lt fun hlt => ?_)
  rw [hi n hlt] at hend
  cases hend

private theorem window_stop_of_isEnd (h : s.isEnd p = true) : (s.window p).stop = s.offsetAt p := by
  rw [← window_offset, Window.offset, window_tokens_of_isEnd h]
  rfl

/-- The end marker of a window is that of the window one token further on. -/
private theorem window_stop_succ (h : s.isEnd p = false) :
    (s.window p).stop = (s.window (p + 1)).stop := by
  have hlength : 1 ≤ (s.window p).tokens.length := by
    rw [window_tokens_of_not_isEnd h]
    exact Nat.succ_pos _
  rw [← window_advance s p 1 hlength, Window.advance_stop]

/-- What is the same ahead looks the same in the windows there. -/
private theorem SameAhead.sameView (h : s.SameAhead p s' p') :
    (s.window p).SameView (s'.window p') := by
  induction hleft : s.size - p using Nat.strongRecOn generalizing p p' with
  | ind left ih =>
    cases hend : s.isEnd p with
    | true =>
      have hend' : s'.isEnd p' = true := h.isEnd_eq ▸ hend
      constructor
      · rw [window_tokens_of_isEnd hend, window_tokens_of_isEnd hend']
      · rw [window_stop_of_isEnd hend, window_stop_of_isEnd hend', offsetAt, offsetAt, h.peek_eq]
    | false =>
      have hend' : s'.isEnd p' = false := h.isEnd_eq ▸ hend
      have hinside : p < s.size := by
        apply Nat.lt_of_not_le
        intro hp
        rw [isEnd, peek_of_drop_nil (List.drop_eq_nil_iff.mpr hp), s.final_isEnd] at hend
        cases hend
      have hrest := ih (s.size - (p + 1)) (by omega) (h.next hend) rfl
      constructor
      · rw [window_tokens_of_not_isEnd hend, window_tokens_of_not_isEnd hend', hrest.tokens, h.peek_eq]
      · rw [window_stop_succ hend, window_stop_succ hend', hrest.stop]

/-- A placeless grammar does the same wherever the same lies ahead of it. -/
theorem SameAhead.parse_eq {α : Type} {g : Grammar α} (hg : g.Placeless)
    (h : s.SameAhead p s' p') :
    s'.parse g p' = (s.parse g p).map fun (a, q) => (a, p' + (q - p)) := by
  rw [parse, parse, hg.run_result_eq h.sameView, Option.map_map]
  congr 1
  funext x
  simp only [Function.comp_apply, Nat.add_sub_cancel_left]

end Source

namespace Grammar
open Fragment

/-- A capture takes over the tokens and, if there are none, the offset. -/
@[simp] private theorem placeless_captured {α : Type} {kind : Kind} {g : Grammar α} :
    (captured kind g).Placeless ↔ g.Placeless := by
  refine and_iff_right fun x y htokens hoffset => ?_
  simp only [htokens, hoffset]

@[simp] private theorem placeless_bracketedRun (multiline : Bool) :
    (bracketedRun multiline).Placeless := by
  simp [bracketedRun, seq3]

@[simp] private theorem placeless_identifierName : identifierName.Placeless := trivial

@[simp] private theorem placeless_bracketedName : bracketedName.Placeless :=
  ⟨trivial, trivial, trivial⟩

@[simp] private theorem placeless_name (multiline : Bool) : (name multiline).Placeless := by
  simp [name, nameIn, NameForm.all, nameForm, bracedName, identifierLike, seq3]

@[simp] private theorem placeless_literalOf (sort : LiteralSort) (kind : Kind) :
    (literalOf sort kind).Placeless :=
  trivial

@[simp] private theorem placeless_literal : literal.Placeless := by simp [literal]

@[simp] private theorem placeless_path {head continuation : Grammar Element} (separator : Text)
    (placeholder : Element) :
    (path head continuation separator placeholder).Placeless ↔
      head.Placeless ∧ continuation.Placeless := by
  simp [path, link, foldLeft]

@[simp] private theorem placeless_expression : expression.Placeless := by
  simp [expression, dottedReference, anyReference]

@[simp] private theorem placeless_statement : statement.Placeless := by simp [statement, binding]

@[simp] private theorem placeless_requiredKind (k : Kind) : (requiredKind k).Placeless := by
  simp [requiredKind]

@[simp] private theorem placeless_parameters : parameters.Placeless := by
  simp [parameters, parameterList, separated, parameter, typeName, seq3]

@[simp] private theorem placeless_body : body.Placeless := by simp [body, closedStatements, seq3]

@[simp] private theorem placeless_declaration (o : Options) : o.declaration.Placeless := by
  simp [Options.declaration]

@[simp] private theorem placeless_reference (o : Options) (symbols : SymbolSet) :
    (o.reference symbols).Placeless := by
  simp [Options.reference]

@[simp] private theorem placeless_wildcarded : wildcarded.Placeless := by simp [wildcarded]

/-- No rule looks at positions. -/
theorem placeless_rule (o : Options) (r : Rule) : (o.rules.grammar r).Placeless := by
  cases r <;> simp [Options.rules, RuleSet.grammar, rawGuid, guid, string, guidOrString, value, type,
    typeName, script, function, bodyElement, inputText, bracketedInputText, anyToken, notText,
    Options.bracketedString, Options.qualifiedName, Options.referencePath, Options.wildcardedPath,
    Options.qualifiedWildcarded, Options.wildcardedOrName, seq3]

end Grammar

namespace RuleSet

/-- Where the same lies ahead, up to and with the next end marker, a rule does the same: it matches in
the one source exactly if it does in the other, returns the same tree and consumes as many tokens. -/
theorem parse_depends_ahead (o : Options) (r : Rule) {s s' : Source} {p p' : Nat}
    (h : s.SameAhead p s' p') :
    s'.parse (o.rules.grammar r) p' =
      (s.parse (o.rules.grammar r) p).map fun (e, q) => (e, p' + (q - p)) :=
  h.parse_eq (Grammar.placeless_rule o r)

/-- An open bracket behind another token, with its closing bracket on the far side of an end marker. -/
def markedOff : Source :=
  .ofTokens [⟨.identifier, [], ['x'], 0⟩, ⟨.openBracket, [' '], ['['], 2⟩, ⟨.identifier, [], ['a'], 3⟩,
    ⟨.endOfText, ['\n'], [], 5⟩, ⟨.closeBracket, [], [']'], 5⟩]

/-- The open bracket alone. -/
def openBracket : Source :=
  .ofTokens [⟨.openBracket, [' '], ['['], 2⟩, ⟨.identifier, [], ['a'], 3⟩, ⟨.endOfText, ['\n'], [], 5⟩]

theorem parse_markedOff :
    markedOff.SameAhead 1 openBracket 0 ∧
      markedOff.parse (standard.grammar .nameDeclaration) 1 =
        some (.declaration (.bracketedString ⟨.stringLiteral, [' '], ['[', 'a'], 2, false, false⟩), 3) ∧
      openBracket.parse (standard.grammar .nameDeclaration) 0 =
        some (.declaration (.bracketedString ⟨.stringLiteral, [' '], ['[', 'a'], 2, false, false⟩), 2) := by
  have hsame : markedOff.SameAhead 1 openBracket 0 :=
    Source.sameAhead_of_isEnd (n := 2) (by decide) (by decide)
  have hparse : markedOff.parse (standard.grammar .nameDeclaration) 1 =
      some (.declaration (.bracketedString ⟨.stringLiteral, [' '], ['[', 'a'], 2, false, false⟩), 3) := by
    decide +kernel
  have hahead := parse_depends_ahead {} .nameDeclaration hsame
  refine ⟨hsame, hparse, hahead.trans ?_⟩
  exact congrArg (Option.map _) hparse

end RuleSet
end CommandGrammar
