import CommandGrammar.Proofs.Grammar.Ensures
import CommandGrammar.Rule.Set

/-! What the first name of a match may bind to. The categories are those of the rule's placeholder,
however the match is spelt and however long its chain is. -/
namespace CommandGrammar

namespace Element

/-- The categories that the first name of a chain may bind to, if it is a reference. -/
def categories? (e : Element) : Option SymbolSet :=
  match e.leftmost with
  | .reference _ symbols => some symbols
  | _ => none

private theorem categories?_chain (e : Element) (links : List Link) :
    (e.chain links).categories? = e.categories? := by
  rw [categories?, leftmost_chain, categories?]

end Element

namespace Grammar
open Fragment

/-- Every match begins with a reference of the given categories, or with something else if there are
none. -/
def Refers (categories? : Option SymbolSet) (g : Grammar Element) : Prop :=
  ∀ s : Source, s.Ensures g fun _ _ e => e.categories? = categories?

namespace Refers
variable {α : Type} {x : Option SymbolSet} {g : Grammar Element}

private theorem map {h : Grammar α} {f : α → Element} (hf : ∀ a, (f a).categories? = x) :
    (h.map f).Refers x :=
  fun _ => .map fun _ _ a _ => hf a

private theorem withLabel (hg : g.Refers x) (label : String) : (g.withLabel label).Refers x :=
  fun s => (hg s).withLabel label

private theorem map_withLabel {h : Grammar α} (f : α → Element) (hf : ∀ a, (f a).categories? = x)
    (label : String) : ((h.map f).withLabel label).Refers x :=
  (map hf).withLabel label

private theorem first {gs : List (Grammar Element)} (hgs : ∀ g ∈ gs, g.Refers x) :
    (Grammar.first gs).Refers x :=
  fun s => .first fun g hg => hgs g hg s

/-- The first name of a chain stays the first however long the chain is. -/
private theorem path (hg : g.Refers x) (continuation : Grammar Element) (separator : Text)
    (placeholder : Element) : (path g continuation separator placeholder).Refers x := by
  intro s
  refine .map (.seq (hg s) (.any _) ?_)
  intro p m q e links he _
  exact (e.categories?_chain links).trans he

end Refers

private theorem refers_literalOf (sort : LiteralSort) (kind : Kind) :
    (literalOf sort kind).Refers none :=
  .map fun _ => rfl

private theorem refers_literal : literal.Refers none := by
  refine .withLabel (.first fun g hg => ?_) _
  obtain ⟨sort, -, rfl⟩ := List.mem_map.mp hg
  exact refers_literalOf sort _

private theorem refers_guid : guid.Refers none := (refers_literalOf _ _).withLabel _

private theorem refers_rawGuid : rawGuid.Refers none := (refers_literalOf _ _).withLabel _

private theorem refers_string : string.Refers none := (refers_literalOf _ _).withLabel _

private theorem refers_guidOrString : guidOrString.Refers none := by
  apply Refers.first
  simp only [List.forall_mem_cons]
  exact ⟨refers_guid, refers_string, refers_rawGuid, nofun⟩

private theorem refers_value : value.Refers none := by
  refine .withLabel (.first ?_) _
  simp only [List.forall_mem_cons]
  exact ⟨refers_guid, refers_rawGuid, refers_literal, nofun⟩

private theorem refers_type : type.Refers none := .map_withLabel .type (fun _ => rfl) _

private theorem refers_wildcarded : wildcarded.Refers none :=
  .map_withLabel (fun l => .declaration (.wildcarded l)) (fun _ => rfl) _

private theorem refers_function : function.Refers none :=
  .map_withLabel (fun (ps, b) => .function ps b) (fun _ => rfl) _

private theorem refers_bodyElement : bodyElement.Refers none :=
  .map_withLabel .body (fun _ => rfl) _

private theorem refers_script : script.Refers none := .map fun _ => rfl

private theorem refers_inputText : inputText.Refers none := .map_withLabel .token (fun _ => rfl) _

private theorem refers_bracketedInputText : bracketedInputText.Refers none :=
  .map_withLabel .token (fun _ => rfl) _

/-- A query is a literal, or a chain of names that may be anything. -/
private theorem ensures_expression_categories (s : Source) :
    s.Ensures expression fun _ _ e => e.categories? = none ∨ e.categories? = some .any := by
  have hany : anyReference.Refers (some .any) := .map fun _ => rfl
  have hdotted : dottedReference.Refers (some .any) := hany.path _ _ _
  refine .withLabel _ (.either ((refers_literal s).mono ?_) ((hdotted s).mono ?_))
  · exact fun _ _ _ h => .inl h
  · exact fun _ _ _ h => .inr h

section
variable (o : Options)

private theorem refers_declaration : o.declaration.Refers none :=
  .map_withLabel .declaration (fun _ => rfl) _

private theorem refers_qualifiedName : o.qualifiedName.Refers none :=
  .withLabel (.path (refers_declaration o) _ _ _) _

private theorem refers_bracketedString : o.bracketedString.Refers none :=
  .map_withLabel (.literal .string) (fun _ => rfl) _

private theorem refers_reference (symbols : SymbolSet) :
    (o.reference symbols).Refers (some symbols) := by
  intro s
  apply Source.Ensures.withLabel
  apply Source.Ensures.withHint
  exact .map fun _ _ _ _ => rfl

private theorem refers_referencePath (head rest : SymbolSet) (label : String) :
    (o.referencePath head rest label).Refers (some head) :=
  .withLabel (.path (refers_reference o head) _ _ _) _

/-- A qualifier is a name that is declared. -/
private theorem refers_wildcardedPath : o.wildcardedPath.Refers none := by
  have hname : o.wildcardedOrName.Refers none := by
    apply Refers.first
    simp only [List.forall_mem_cons]
    exact ⟨refers_wildcarded, refers_declaration o, nofun⟩
  have hqualified : o.qualifiedWildcarded.Refers none := by
    intro s
    refine .map (.seq (refers_declaration o s) (.any _) ?_)
    intro p m q e x he _
    exact he
  refine .withLabel (.first ?_) _
  simp only [List.forall_mem_cons]
  exact ⟨fun s => .guarded (hqualified s), hname, nofun⟩

/-- Matches of a rule begin with the same categories as its placeholder. -/
theorem refers_rule (r : Rule) (hr : r ≠ .queryInput) :
    (o.rules.grammar r).Refers r.placeholder.element.categories? := by
  cases r with
  | rawGuidLiteral => exact refers_rawGuid
  | guidLiteral => exact refers_guid
  | stringLiteral => exact refers_string
  | guidOrString => exact refers_guidOrString
  | bracketedStringLiteral => exact refers_bracketedString o
  | value => exact refers_value
  | type => exact refers_type
  | nameDeclaration => exact refers_declaration o
  | qualifiedName => exact refers_qualifiedName o
  | databaseTablePath => exact refers_referencePath o _ _ _
  | databaseTableColumnPath => exact refers_referencePath o _ _ _
  | tableColumnPath => exact refers_referencePath o _ _ _
  | wildcardedName => exact refers_wildcarded
  | qualifiedWildcardedName => exact refers_wildcardedPath o
  | functionDeclaration => exact refers_function
  | functionBody => exact refers_bodyElement
  | queryInput => exact absurd rfl hr
  | scriptInput => exact refers_script
  | inputText => exact refers_inputText
  | bracketedInputText => exact refers_bracketedInputText
  | _ => exact refers_reference o _

end
end Grammar

/-- The first name of a match may bind to what the rule's placeholder may bind to, except that a
query may also be a literal. -/
theorem RuleSet.categories?_of_parse (o : Options) {r : Rule} {s : Source} {p q : Nat} {e : Element}
    (h : s.parse (o.rules.grammar r) p = some (e, q)) :
    e.categories? = r.placeholder.element.categories? ∨
      r = .queryInput ∧ e.categories? = none := by
  by_cases hr : r = .queryInput
  · subst hr
    rcases Grammar.ensures_expression_categories s h with hnone | hany
    · exact .inr ⟨rfl, hnone⟩
    · exact .inl hany
  · exact .inl (Grammar.refers_rule o r hr s h)

end CommandGrammar
