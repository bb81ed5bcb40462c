import CommandGrammar.Proofs.Rule.Categories
import CommandGrammar.Proofs.Rule.Chain
import CommandGrammar.Proofs.Rule.Tolerance
import CommandGrammar.Proofs.Tree.Placement

/-! Required rules. Where a rule does not match, its placeholder takes the place of a match: nothing of
it is there, but it has the shape and the categories of what the rule would have returned. -/
namespace CommandGrammar

private theorem Diagnostic.missing_of_isMissing {e : Element} (h : e.isMissing = true) :
    missing e = [⟨(describe (.element e)).1, (describe (.element e)).2, .point 0⟩] := by
  rw [Element.isMissing] at h
  rw [missing_eq, missingOf, if_pos h, missingOf]
  intro l hl
  cases hl

namespace Element

/-- An element with nothing of it in the source. -/
structure Absent (e : Element) : Prop where
  leaves_ne_nil : e.leaves ≠ []
  missing : ∀ l ∈ e.leaves, l.missing = true
  fullText : e.fullText = []
  range? : e.range? = none
  reported : ∃ d, Diagnostic.missing e = [d]

/-- The sorts of elements. -/
inductive Shape where
  | token | declaration | reference | path | literal | type | parameters | body | function
  | statement | script
  deriving DecidableEq, Repr

def shape : Element → Shape
  | .token _ => .token
  | .declaration _ => .declaration
  | .reference .. => .reference
  | .path .. => .path
  | .literal .. => .literal
  | .type _ => .type
  | .parameters _ => .parameters
  | .body _ => .body
  | .function .. => .function
  | .statement _ => .statement
  | .script _ => .script

end Element

/-- Of no placeholder is anything there. -/
theorem Placeholder.absent (x : Placeholder) : x.element.Absent := by
  have hleaf : ∀ l ∈ x.element.leaves, ∃ k, l = Leaf.placeholder k := by
    rw [Element.leaves_eq]
    exact x.leaves_element
  have hne : x.element.leaves ≠ [] := by
    rw [Element.leaves_eq]
    cases x <;> nofun
  have hmissing : ∀ l ∈ x.element.leaves, l.missing = true := by
    intro l hl
    obtain ⟨k, rfl⟩ := hleaf l hl
    rfl
  -- An element that is missing as a whole is reported as one, whatever it is made of.
  have hisMissing : x.element.isMissing = true := by
    rw [Element.isMissing, Child.isMissing, Bool.and_eq_true_iff, Bool.not_eq_true',
      List.isEmpty_eq_false_iff]
    exact ⟨hne, List.all_eq_true.mpr hmissing⟩
  refine ⟨hne, hmissing, ?_, (Element.range?_eq_none_iff _).mpr hmissing,
    _, Diagnostic.missing_of_isMissing hisMissing⟩
  rw [Element.fullText, List.flatMap_eq_nil_iff]
  intro l hl
  obtain ⟨k, rfl⟩ := hleaf l hl
  rfl

namespace Grammar
open Fragment

/-- The grammar matches the whole of a text and returns something of the given shape. -/
def Reads (g : Grammar Element) (text : Text) (shape : Element.Shape) : Prop :=
  ((Source.ofText text).parse g 0).map (fun (e, q) => (e.shape, q)) =
    some (shape, (Source.ofText text).size)

instance (g : Grammar Element) (text : Text) (shape : Element.Shape) :
    Decidable (g.Reads text shape) :=
  inferInstanceAs (Decidable (_ = _))

section
variable (o : Options)

theorem parse_letter : ∀ multiline : Bool, (Source.ofText ['a']).parse (name multiline) 0 =
    some (.plain ⟨.identifier, [], ['a'], 0, false, false⟩, (Source.ofText ['a']).size) := by
  decide +kernel

private theorem reads_declaration : o.declaration.Reads ['a'] .declaration := by
  rw [Reads, PathRule.parse_declaration, parse_letter]
  rfl

private theorem reads_reference (symbols : SymbolSet) :
    (o.reference symbols).Reads ['a'] .reference := by
  rw [Reads, PathRule.parse_reference, parse_letter]
  rfl

/-- One name is a chain whatever the separator is. -/
private theorem reads_path (r : PathRule) (n : Name) :
    (o.rules.grammar r.rule).Reads ['a'] (r.first n).shape := by
  have hend : (Source.ofText ['a']).isEnd (Source.ofText ['a']).size = true := by decide +kernel
  have hlink : (Source.ofText ['a']).parse (r.link o) (Source.ofText ['a']).size = none := by
    rw [PathRule.parse_link, if_neg]
    rintro ⟨hnotEnd, -⟩
    rw [hend] at hnotEnd
    cases hnotEnd
  have hlinks : (Source.ofText ['a']).parse (r.link o).many (Source.ofText ['a']).size =
      some ([], (Source.ofText ['a']).size) := by
    rw [Source.parse_many, hlink]
  simp only [Reads, PathRule.parse_eq, parse_letter, Option.bind_some, hlinks, Option.map_some]
  cases r <;> rfl

private theorem reads_bracketedString : o.bracketedString.Reads ['[', ']'] .literal := by
  have hrun : ∀ multiline : Bool, (Source.ofText ['[', ']']).parse (bracketedRun multiline) 0 =
      some (⟨.stringLiteral, [], ['[', ']'], 0, false, false⟩, (Source.ofText ['[', ']']).size) := by
    decide +kernel
  rw [Reads, Options.bracketedString, Source.parse_withLabel, Source.parse_map, hrun]
  rfl

/-- A pattern is no qualifier, so the separator does not matter either. -/
private theorem reads_wildcardedPath : o.wildcardedPath.Reads ['a', '*'] .declaration := by
  have hname : ∀ multiline : Bool, (Source.ofText ['a', '*']).parse (name multiline) 0 = none := by
    decide +kernel
  have hpattern : (Source.ofText ['a', '*']).parse wildcarded 0 =
      some (.declaration (.wildcarded ⟨.wildcardedIdentifier, [], ['a', '*'], 0, false, false⟩),
        (Source.ofText ['a', '*']).size) := by
    decide +kernel
  have hqualified : (Source.ofText ['a', '*']).parse
      (.guarded o.qualifiedWildcarded o.qualifiedWildcarded) 0 = none := by
    simp only [Grammar.guarded, Options.qualifiedWildcarded, seq3, Source.parse_map,
      Source.parse_seq, Source.parse_lookahead, PathRule.parse_declaration, hname, Option.map_none,
      Option.bind_none]
  simp only [Reads, Options.wildcardedPath, Options.wildcardedOrName, Source.parse_withLabel,
    Grammar.first, Source.parse_orElse, hqualified, hpattern, Option.none_or, Option.some_or]
  rfl

end
end Grammar

namespace Rule

/-- The digits of a guid that is all zeros. -/
def zeroGuid : Text := ['-'].intercalate ([8, 4, 4, 4, 12].map fun n => List.replicate n '0')

/-- A text that the rule reads. -/
def sample : Rule → Text
  | .rawGuidLiteral => zeroGuid
  | .guidLiteral => ['g', 'u', 'i', 'd', '('] ++ zeroGuid ++ [')']
  | .stringLiteral | .guidOrString => ['"', '"']
  | .bracketedStringLiteral => ['[', ']']
  | .value => ['0']
  | .type => ['i', 'n', 't']
  | .wildcardedName | .qualifiedWildcardedName => ['a', '*']
  | .functionDeclaration => ['(', ')', '{', '}']
  | .functionBody => ['{', '}']
  | _ => ['a']

end Rule

namespace RuleSet
open Fragment Grammar
variable (o : Options)

/-- The sample of a rule is read to something of the shape of the rule's placeholder. Scripts are an
exception, as they are lists of statements and their placeholder is a single one. -/
private theorem reads_sample (r : Rule) (hr : r ≠ .scriptInput) :
    (o.rules.grammar r).Reads r.sample r.placeholder.element.shape := by
  cases r with
  | rawGuidLiteral => exact (by decide +kernel : rawGuid.Reads Rule.zeroGuid .literal)
  | guidLiteral => exact (by decide +kernel : guid.Reads (Rule.sample .guidLiteral) .literal)
  | stringLiteral => exact (by decide +kernel : string.Reads ['"', '"'] .literal)
  | guidOrString => exact (by decide +kernel : guidOrString.Reads ['"', '"'] .literal)
  | bracketedStringLiteral => exact reads_bracketedString o
  | value => exact (by decide +kernel : value.Reads ['0'] .literal)
  | type => exact (by decide +kernel : type.Reads ['i', 'n', 't'] .type)
  | nameDeclaration => exact reads_declaration o
  | qualifiedName => exact reads_path o .declaration .placeholder
  | databaseTablePath => exact reads_path o .databaseTable .placeholder
  | databaseTableColumnPath => exact reads_path o .databaseTableColumn .placeholder
  | tableColumnPath => exact reads_path o .tableColumn .placeholder
  | wildcardedName => exact (by decide +kernel : wildcarded.Reads ['a', '*'] .declaration)
  | qualifiedWildcardedName => exact reads_wildcardedPath o
  | functionDeclaration =>
    exact (by decide +kernel : function.Reads ['(', ')', '{', '}'] .function)
  | functionBody => exact (by decide +kernel : bodyElement.Reads ['{', '}'] .body)
  | queryInput => exact (by decide +kernel : expression.Reads ['a'] .reference)
  | scriptInput => exact absurd rfl hr
  | inputText => exact (by decide +kernel : inputText.Reads ['a'] .token)
  | bracketedInputText => exact (by decide +kernel : bracketedInputText.Reads ['a'] .token)
  | _ => exact reads_reference o _

/-- A rule that fails somewhere returns something of the shape of its placeholder elsewhere. -/
private theorem exists_parse_shape {r : Rule} {s : Source} {p : Nat}
    (hfail : s.parse (o.rules.grammar r) p = none) :
    ∃ text e, o.rules.parse r text = .ok e ∧ e.shape = r.placeholder.element.shape := by
  -- A script never fails, so its placeholder, which has another shape, is never returned.
  have hr : r ≠ .scriptInput := by
    rintro rfl
    have hscript : (s.parse (o.rules.grammar .scriptInput) p).isSome = true := unfailing_script s p
    rw [hfail] at hscript
    cases hscript
  obtain ⟨⟨e, q⟩, hparse, he⟩ := Option.map_eq_some_iff.mp (reads_sample o r hr)
  obtain ⟨hshape, rfl⟩ := Prod.mk.inj he
  exact ⟨r.sample, e, parse_eq_ok_iff.mpr hparse, hshape⟩

/-- A required rule matches everywhere. It returns what the rule itself does and, where the rule fails,
the rule's placeholder with nothing consumed. Nothing of the placeholder is there, but it has a shape
that the rule returns for some text, and the categories that the first name of every match has. A
query may also be a literal, which has no name. -/
theorem required_recovers (o : Options) (r : Rule) (s : Source) (p : Nat) :
    s.parse (o.rules.required r) p =
      some ((s.parse (o.rules.grammar r) p).getD (r.placeholder.element, p)) ∧
    r.placeholder.element.Absent ∧
    (s.parse (o.rules.grammar r) p = none →
      ∃ text e, o.rules.parse r text = .ok e ∧ e.shape = r.placeholder.element.shape) ∧
    ∀ e q, s.parse (o.rules.grammar r) p = some (e, q) →
      e.categories? = r.placeholder.element.categories? ∨
        r = .queryInput ∧ e.categories? = none := by
  refine ⟨?_, r.placeholder.absent, fun hfail => exists_parse_shape o hfail,
    fun e q h => categories?_of_parse o h⟩
  rw [required, Source.parse_required]
  cases s.parse (o.rules.grammar r) p with
  | none => rfl
  | some x => rfl

end RuleSet
end CommandGrammar
