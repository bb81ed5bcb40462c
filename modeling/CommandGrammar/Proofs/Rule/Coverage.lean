import CommandGrammar.Proofs.Fragment.Leaves
import CommandGrammar.Proofs.Tree.Coverage
import CommandGrammar.Rule.Set

/-! Every rule keeps every token: the leaves of what it returns cover exactly the tokens that it
consumed. -/
namespace CommandGrammar

namespace Source
open Fragment
variable {s : Source}

theorem anchored_kind (k : Kind) : s.Anchored (fun l => [l]) (.kind k) := .satisfy s _

private theorem anchored_text (t : Text) : s.Anchored (fun l => [l]) (.text t) := .satisfy s _

private theorem covering_requiredKind (k : Kind) : s.Covering (fun l => [l]) (requiredKind k) :=
  (anchored_kind k).covering.required fun _ hl => ⟨k, List.mem_singleton.mp hl⟩

/-- A capture reconstructs the tokens between its ends. -/
theorem ensures_captured {α : Type} {kind : Kind} {g : Grammar α} {P : Nat → Nat → Prop}
    (hg : s.Ensures g fun p q _ => P p q) :
    s.Ensures (captured kind g) fun p q l => P p q ∧ l = s.reconstruct kind p q :=
  .capture (hg.mono fun _ _ _ h => ⟨h, rfl⟩)

theorem anchored_bracketedRun (multiline : Bool) :
    s.Anchored (fun l => [l]) (bracketedRun multiline) := by
  have hrun : s.Ensures
      (.seq3 (.text ['[']) (Grammar.many (.satisfy (isRunToken multiline))) (.optional (.text [']'])))
      fun p q _ => p < q ∧ (s.peek p).text = ['['] := by
    refine .seq (Ensures.satisfy _) (Q := fun m q _ => m ≤ q) (fun _ _ _ h => parse_le h) ?_
    rintro p m q a b ⟨-, hopen, rfl, -⟩ hq
    exact ⟨hq, eq_of_beq hopen⟩
  refine .withLabel _ (Anchored.of_cell ((ensures_captured hrun).mono ?_))
  intro p q l hl
  obtain ⟨⟨hpq, hopen⟩, rfl⟩ := hl
  exact .run hpq hopen

theorem anchored_identifierName : s.Anchored Name.leaves identifierName :=
  (Anchored.satisfy s _).map fun _ => rfl

private theorem anchored_bracketedName : s.Anchored Name.leaves bracketedName :=
  ((anchored_text _).seq ((anchored_kind _).seq (anchored_text _).covering).covering).map
    fun _ => rfl

private theorem anchored_nameForm (multiline : Bool) (form : NameForm) :
    s.Anchored Name.leaves (nameForm multiline form) := by
  cases form with
  | identifier => exact anchored_identifierName
  | bracketed => exact anchored_bracketedName
  | braced =>
    exact ((anchored_text _).seq
      ((Anchored.satisfy s _).seq (anchored_text _).covering).covering).map fun _ => rfl
  | quoted => exact (anchored_kind _).map fun _ => rfl
  | bracketedString => exact (anchored_bracketedRun multiline).map fun _ => rfl

theorem anchored_nameIn (forms : List NameForm) (multiline : Bool) :
    s.Anchored Name.leaves (nameIn forms multiline) := by
  apply Ensures.withLabel
  apply Ensures.first
  intro g hg
  obtain ⟨form, _, rfl⟩ := List.mem_map.mp hg
  exact anchored_nameForm multiline form

theorem anchored_literalOf (sort : LiteralSort) (kind : Kind) :
    s.Anchored Element.flatten (literalOf sort kind) :=
  (anchored_kind kind).map fun _ => rfl

private theorem anchored_path {head continuation : Grammar Element} (separator : Text)
    (x : Placeholder) (hh : s.Anchored Element.flatten head)
    (hc : s.Anchored Element.flatten continuation) :
    s.Anchored Element.flatten (path head continuation separator x.element) := by
  have hlink : s.Covering (fun l : Link => l.dot :: l.selector.flatten)
      (link continuation separator x.element) :=
    ((Covering.hidden s _).seq (hc.covering.required x.leaves_element)).map fun _ => rfl
  exact (hh.seq hlink.many).map fun a => Element.flatten_chain a.1 a.2

private theorem anchored_literal : s.Anchored Element.flatten literal := by
  apply Ensures.withLabel
  apply Ensures.first
  intro g hg
  obtain ⟨sort, _, rfl⟩ := List.mem_map.mp hg
  exact anchored_literalOf sort _

theorem anchored_anyReference : s.Anchored Element.flatten anyReference :=
  Anchored.map (Ensures.either anchored_identifierName anchored_bracketedName) fun _ => rfl

private theorem anchored_expression : s.Anchored Element.flatten expression :=
  .withLabel _ (.either anchored_literal
    (anchored_path ['.'] (.reference .any) anchored_anyReference anchored_anyReference))

theorem anchored_statement : s.Anchored Statement.flatten statement := by
  have hvalue : s.Covering Element.flatten (expression.required Placeholder.expression.element) :=
    anchored_expression.covering.required Placeholder.expression.leaves_element
  have hbinding : s.Anchored Statement.flatten binding :=
    (((anchored_kind _).seq anchored_identifierName.covering).seq
      ((anchored_text _).seq hvalue).covering).map fun _ => by simp [Statement.flatten]
  exact .either hbinding (anchored_expression.map fun _ => rfl)

private theorem anchored_parameters : s.Anchored Parameters.flatten parameters := by
  have htype : s.Covering (fun l => [l]) (typeName.required (.placeholder .identifier)) :=
    (Anchored.satisfy s _).covering.required fun _ hl => ⟨_, List.mem_singleton.mp hl⟩
  have hone : s.Covering Parameter.leaves parameter :=
    (anchored_identifierName.covering.seq ((covering_requiredKind _).seq htype)).map fun _ => rfl
  have hlist : s.Covering Parameter.leavesOf parameterList :=
    (hone.seq ((anchored_kind _).covering.seq hone).many).optional.map leavesOf_parameterList
  exact .withLabel _ (((anchored_kind _).seq (hlist.seq (covering_requiredKind _))).map
    fun _ => rfl)

private theorem anchored_body : s.Anchored Body.flatten body := by
  have hsemicolon : s.Covering (fun l => [l]) (.kind .semicolon) := (anchored_kind _).covering
  have hclosed : s.Covering Statements.flatten closedStatements :=
    (anchored_statement.covering.seq hsemicolon).many.map flatten_closedStatements
  exact .withLabel _ (((anchored_kind _).seq
    ((hclosed.seq (anchored_expression.covering.optional.seq hsemicolon.optional)).seq
      (covering_requiredKind _))).map flatten_body)

theorem anchored_function : s.Anchored Element.flatten function :=
  .withLabel _ ((anchored_parameters.seq anchored_body.covering).map fun _ => rfl)

theorem anchored_bodyElement : s.Anchored Element.flatten bodyElement :=
  .withLabel _ (anchored_body.map fun _ => rfl)

private theorem anchored_guid : s.Anchored Element.flatten guid :=
  .withLabel _ (anchored_literalOf _ _)

private theorem anchored_rawGuid : s.Anchored Element.flatten rawGuid :=
  .withLabel _ (anchored_literalOf _ _)

private theorem anchored_string : s.Anchored Element.flatten string :=
  .withLabel _ (anchored_literalOf _ _)

private theorem anchored_guidOrString : s.Anchored Element.flatten guidOrString :=
  .orElse anchored_guid (.either anchored_string anchored_rawGuid)

private theorem anchored_value : s.Anchored Element.flatten value :=
  .withLabel _ (.orElse anchored_guid (.either anchored_rawGuid anchored_literal))

theorem anchored_type : s.Anchored Element.flatten type :=
  .withLabel _ ((Anchored.satisfy s _).map fun _ => rfl)

theorem anchored_wildcarded : s.Anchored Element.flatten wildcarded :=
  .withLabel _ ((anchored_kind _).map fun _ => rfl)

section
variable (o : Options)

theorem anchored_bracketedString : s.Anchored Element.flatten o.bracketedString :=
  .withLabel _ ((anchored_bracketedRun _).map fun _ => rfl)

theorem anchored_declaration : s.Anchored Element.flatten o.declaration :=
  .withLabel _ ((anchored_nameIn _ _).map fun _ => rfl)

theorem anchored_reference (symbols : SymbolSet) :
    s.Anchored Element.flatten (o.reference symbols) :=
  .withLabel _ (.withHint _ ((anchored_nameIn _ _).map fun _ => rfl))

private theorem anchored_qualifiedName : s.Anchored Element.flatten o.qualifiedName :=
  .withLabel _ (anchored_path _ .declaration (anchored_declaration o) (anchored_declaration o))

private theorem anchored_referencePath (head rest : SymbolSet) (label : String) :
    s.Anchored Element.flatten (o.referencePath head rest label) :=
  .withLabel _ (anchored_path _ (.reference rest) (anchored_reference o _) (anchored_reference o _))

private theorem anchored_wildcardedOrName : s.Anchored Element.flatten o.wildcardedOrName :=
  .either anchored_wildcarded (anchored_declaration o)

theorem anchored_qualifiedWildcarded : s.Anchored Element.flatten o.qualifiedWildcarded :=
  ((anchored_declaration o).seq
    ((anchored_text _).seq (anchored_wildcardedOrName o).covering).covering).map fun _ => rfl

private theorem anchored_wildcardedPath : s.Anchored Element.flatten o.wildcardedPath :=
  .withLabel _ (.either (.guarded (anchored_qualifiedWildcarded o)) (anchored_wildcardedOrName o))

end

/-- What a rule returns: one leaf with the raw text it consumed, or a tree whose leaves cover it. No
tree begins with a placeholder. -/
structure Keeps (s : Source) (p q : Nat) (e : Element) : Prop where
  tokens : s.Covers p q e.flatten ∨ e = .token (s.reconstruct .inputText p q)
  head : ∀ l ∈ e.flatten.head?, l.missing = false

/-- Raw text is one leaf on all tokens that were consumed. -/
theorem ensures_raw {α : Type} (g : Grammar α) (label : String) :
    s.Ensures (((captured .inputText g).map Element.token).withLabel label) fun p q e =>
      e = .token (s.reconstruct .inputText p q) := by
  refine .withLabel _ (.map ((ensures_captured (P := fun _ _ => True) (.any g)).mono ?_))
  intro p q l hl
  rw [hl.2]

private theorem keeps_raw {α : Type} (g : Grammar α) (label : String) :
    s.Ensures (((captured .inputText g).map Element.token).withLabel label) s.Keeps := by
  refine (ensures_raw g label).mono ?_
  rintro p q e rfl
  exact ⟨.inr rfl, Leaf.head_present (missing_reconstruct s .inputText p q) []⟩

private theorem keeps_script : s.Ensures script s.Keeps := by
  have hsemicolon : s.Covering (fun l => [l]) (.kind .semicolon) := (anchored_kind _).covering
  refine .map ((anchored_statement.seq hsemicolon.optional).many.mono fun p q ss h => ?_)
  rw [← flatten_script] at h
  exact ⟨.inl h.1, h.2⟩

theorem ensures_keeps (o : Options) (r : Rule) : s.Ensures (o.rules.grammar r) s.Keeps := by
  have kept {g : Grammar Element} (hg : s.Anchored Element.flatten g) : s.Ensures g s.Keeps := by
    refine hg.mono ?_
    intro p q e hkept
    obtain ⟨hcovers, l, ls, he, hl⟩ := hkept
    refine ⟨.inl hcovers, ?_⟩
    rw [he]
    exact Leaf.head_present hl ls
  cases r with
  | rawGuidLiteral => exact kept anchored_rawGuid
  | guidLiteral => exact kept anchored_guid
  | stringLiteral => exact kept anchored_string
  | guidOrString => exact kept anchored_guidOrString
  | bracketedStringLiteral => exact kept (anchored_bracketedString o)
  | value => exact kept anchored_value
  | type => exact kept anchored_type
  | nameDeclaration => exact kept (anchored_declaration o)
  | qualifiedName => exact kept (anchored_qualifiedName o)
  | databaseTablePath => exact kept (anchored_referencePath o _ _ _)
  | databaseTableColumnPath => exact kept (anchored_referencePath o _ _ _)
  | tableColumnPath => exact kept (anchored_referencePath o _ _ _)
  | wildcardedName => exact kept anchored_wildcarded
  | qualifiedWildcardedName => exact kept (anchored_wildcardedPath o)
  | functionDeclaration => exact kept anchored_function
  | functionBody => exact kept anchored_bodyElement
  | queryInput => exact kept anchored_expression
  | scriptInput => exact keeps_script
  | inputText => exact keeps_raw Grammar.anyToken.many "<input_text>"
  | bracketedInputText => exact keeps_raw (Grammar.notText [[']']]).many "<input_text>"
  | _ => exact kept (anchored_reference o _)

/-- A leaf on the tokens it was made of, where raw text may be made of none. -/
inductive Tile (s : Source) (p q : Nat) (l : Leaf) : Prop
  | cell (h : s.Cell p q l)
  | raw (h : p ≤ q) (hl : l = s.reconstruct .inputText p q)

/-- The leaves that a rule found lie on the tokens that it consumed, in order and without a gap; the
leaves that it made up are blank. -/
theorem leaves_tile_tokens (s : Source) (o : Options) (r : Rule) {p q : Nat} {e : Element}
    (h : s.parse (o.rules.grammar r) p = some (e, q)) :
    Tiling s.Tile p q (e.leaves.filter (!·.missing)) ∧
      (∀ l ∈ e.leaves, l.missing = true → l.trivia = [] ∧ l.text = []) ∧
      ∀ i, p ≤ i → i < q → i < s.size ∧ s.isEnd i = false := by
  obtain ⟨hpq, htokens⟩ := parse_tokens h
  rw [Element.leaves_eq]
  rcases (ensures_keeps o r h).tokens with hcovers | rfl
  · exact ⟨hcovers.tiling.mono fun _ _ _ => .cell, hcovers.blank, htokens⟩
  · have hp := missing_reconstruct s .inputText p q
    refine ⟨?_, ?_, htokens⟩
    · rw [Element.flatten, List.filter_cons_of_pos (by simp [hp])]
      exact .cons (.raw hpq rfl) (.nil q)
    · intro l hl hm
      rw [List.mem_singleton.mp hl, hp] at hm
      cases hm

/-- A bracketed name and a separator of the wrong kind, with an end marker before the next name. -/
def brokenChain : Source :=
  ofTokens [⟨.openBracket, [' '], ['['], 1⟩, ⟨.identifier, [], ['a'], 2⟩,
    ⟨.closeBracket, ['\t'], [']'], 4⟩, ⟨.badToken, [], ['.'], 5⟩, ⟨.endOfText, [' '], [], 7⟩,
    ⟨.identifier, [], ['b'], 7⟩]

def brokenChainName : Element :=
  .path (.declaration (.bracketedString ⟨.stringLiteral, [' '], ['[', 'a', '\t', ']'], 1, false, false⟩))
    ⟨.badToken, [], ['.'], 5, false, true⟩ (.declaration .placeholder)

theorem leaves_tile_brokenChain :
    brokenChain.parse ((Options.rules {}).grammar .qualifiedName) 0 = some (brokenChainName, 4) ∧
      Tiling brokenChain.Tile 0 4 (brokenChainName.leaves.filter (!·.missing)) := by
  have h : brokenChain.parse ((Options.rules {}).grammar .qualifiedName) 0 =
      some (brokenChainName, 4) := by decide +kernel
  exact ⟨h, (leaves_tile_tokens brokenChain {} .qualifiedName h).1⟩

end Source
end CommandGrammar
