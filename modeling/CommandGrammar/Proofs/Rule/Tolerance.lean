import CommandGrammar.Proofs.Grammar.Decided
import CommandGrammar.Rule.Set

/-! What a rule needs in order to match stands in the next three tokens. Everything behind them is made
up for if it is missing, except that parameters need a body. -/
namespace CommandGrammar

namespace Source
open Fragment Grammar
variable {s : Source} {p : Nat}

private theorem isSome_parse_parameters :
    (s.parse parameters p).isSome = true ↔ (s.peek p).kind = .openParen := by
  have hrest : Unfailing (parameterList.seq (requiredKind .closeParen)) :=
    ((Unfailing.optional _).map _).seq (.required _ _)
  rw [parameters, parse_withLabel, isSome_parse_map, seq3, hrest.isSome_parse_seq]
  exact isSome_parse_kind nofun

/-- Behind the opening brace nothing can fail. -/
private theorem isSome_parse_body :
    (s.parse body p).isSome = true ↔ (s.peek p).kind = .openBrace := by
  have hrest : Unfailing ((seq3 closedStatements expression.optional
      (Grammar.kind .semicolon).optional).seq (requiredKind .closeBrace)) :=
    (((Unfailing.many _).map _).seq ((Unfailing.optional _).seq (.optional _))).seq (.required _ _)
  rw [body, parse_withLabel, isSome_parse_map, seq3, hrest.isSome_parse_seq]
  exact isSome_parse_kind nofun

private theorem isSome_parse_bodyElement :
    (s.parse bodyElement p).isSome = true ↔ (s.peek p).kind = .openBrace := by
  rw [bodyElement, parse_withLabel, isSome_parse_map, isSome_parse_body]

/-- A function needs its parameters and its body, and the body may come late. -/
private theorem isSome_parse_function :
    (s.parse function p).isSome = true ↔
      (s.peek p).kind = .openParen ∧
        ∃ ps m, s.parse parameters p = some (ps, m) ∧ (s.peek m).kind = .openBrace := by
  -- The body is not required, so it fails the function even behind complete parameters.
  rw [function, parse_withLabel, isSome_parse_map, ← isSome_parse_parameters]
  constructor
  · intro h
    have hparameters := isSome_of_seq h
    obtain ⟨⟨ps, m⟩, hps⟩ := Option.isSome_iff_exists.mp hparameters
    rw [parse_seq, hps, Option.bind_some, Option.isSome_map, isSome_parse_body] at h
    exact ⟨hparameters, ps, m, hps, h⟩
  · rintro ⟨-, ps, m, hps, hbrace⟩
    rw [parse_seq, hps, Option.bind_some, Option.isSome_map, isSome_parse_body]
    exact hbrace

end Source

namespace Grammar
open Fragment
variable {n : Nat}

private theorem blind_kind (k : Kind) : Blind (·.kind == k) := fun _ _ h => congrArg (· == k) h.1

private theorem blind_text (x : Text) : Blind (·.text == x) := fun _ _ h => congrArg (· == x) h.2

private theorem blind_isIdentifierLike : Blind (·.kind.isIdentifierLike) :=
  fun _ _ h => congrArg Kind.isIdentifierLike h.1

private theorem blind_isTypeName : Blind isTypeName := by
  intro t t' h
  rw [isTypeName, isTypeName, h.1, h.2]

private theorem decided_kind (k : Kind) : DecidedBy 1 (.kind k) := .satisfy (blind_kind k)

private theorem decided_text (x : Text) : DecidedBy 1 (.text x) := .satisfy (blind_text x)

private theorem decided_bracketedRun (multiline : Bool) : DecidedBy 1 (bracketedRun multiline) :=
  .withLabel (.capture ((decided_text _).seq ((Unfailing.many _).seq (.optional _))) _) _

private theorem decided_bracketedName : DecidedBy 3 bracketedName :=
  .map (.cons (blind_text _) (.cons (blind_kind _) (decided_text _))) _

private theorem decided_nameForm (multiline : Bool) (form : NameForm) :
    DecidedBy 3 (nameForm multiline form) := by
  cases form with
  | identifier => exact .map (.mono (.satisfy blind_isIdentifierLike) (by decide)) _
  | bracketed => exact decided_bracketedName
  | braced => exact .map (.cons (blind_text _) (.cons blind_isIdentifierLike (decided_text _))) _
  | quoted => exact .map ((decided_kind _).mono (by decide)) _
  | bracketedString => exact .map ((decided_bracketedRun multiline).mono (by decide)) _

private theorem decided_nameIn (forms : List NameForm) (multiline : Bool) :
    DecidedBy 3 (nameIn forms multiline) := by
  refine .withLabel (.first fun g hg => ?_) _
  obtain ⟨form, -, rfl⟩ := List.mem_map.mp hg
  exact decided_nameForm multiline form

private theorem decided_literalOf (sort : LiteralSort) (kind : Kind) :
    DecidedBy 1 (literalOf sort kind) :=
  (decided_kind kind).map _

/-- A chain matches where its first part does. -/
private theorem decided_path {head : Grammar Element} (hhead : DecidedBy n head)
    (continuation : Grammar Element) (separator : Text) (placeholder : Element) :
    DecidedBy n (path head continuation separator placeholder) :=
  .map (hhead.seq (.many _)) _

private theorem decided_literal : DecidedBy 1 literal := by
  refine .withLabel (.first fun g hg => ?_) _
  obtain ⟨sort, -, rfl⟩ := List.mem_map.mp hg
  exact decided_literalOf sort _

private theorem decided_expression : DecidedBy 3 expression := by
  have href : DecidedBy 3 anyReference :=
    .map (.either (decided_nameForm false .identifier) decided_bracketedName) _
  exact .withLabel (.either (decided_literal.mono (by decide)) (decided_path href _ _ _)) _

private theorem decided_guid : DecidedBy 1 guid := (decided_literalOf _ _).withLabel _

private theorem decided_rawGuid : DecidedBy 1 rawGuid := (decided_literalOf _ _).withLabel _

private theorem decided_string : DecidedBy 1 string := (decided_literalOf _ _).withLabel _

private theorem decided_guidOrString : DecidedBy 1 guidOrString :=
  decided_guid.orElse (.either decided_string decided_rawGuid)

private theorem decided_value : DecidedBy 1 value :=
  .withLabel (decided_guid.orElse (.either decided_rawGuid decided_literal)) _

private theorem decided_type : DecidedBy 1 type := .withLabel (.map (.satisfy blind_isTypeName) _) _

private theorem decided_wildcarded : DecidedBy 1 wildcarded := .withLabel ((decided_kind _).map _) _

theorem unfailing_script : Unfailing script := (Unfailing.many _).map _

theorem unfailing_inputText : Unfailing inputText :=
  (((Unfailing.many _).capture _).map _).withLabel _

theorem unfailing_bracketedInputText : Unfailing bracketedInputText :=
  (((Unfailing.many _).capture _).map _).withLabel _

private theorem decided_bodyElement : DecidedBy 1 bodyElement := by
  intro s s' p p' halike
  rw [Bool.eq_iff_iff, Source.isSome_parse_bodyElement, Source.isSome_parse_bodyElement,
    halike.head.1]

section
variable (o : Options)

private theorem decided_declaration : DecidedBy 3 o.declaration :=
  .withLabel (.map (decided_nameIn _ _) _) _

private theorem decided_reference (symbols : SymbolSet) : DecidedBy 3 (o.reference symbols) :=
  .withLabel (.withHint (.map (decided_nameIn _ _) _) _) _

private theorem decided_qualifiedName : DecidedBy 3 o.qualifiedName :=
  .withLabel (decided_path (decided_declaration o) _ _ _) _

private theorem decided_referencePath (head rest : SymbolSet) (label : String) :
    DecidedBy 3 (o.referencePath head rest label) :=
  .withLabel (decided_path (decided_reference o _) _ _ _) _

private theorem decided_bracketedString : DecidedBy 1 o.bracketedString :=
  .withLabel (.map (decided_bracketedRun _) _) _

/-- A qualifier is a name itself, so it makes a match even if the rest is not there. -/
private theorem isSome_parse_wildcardedPath (s : Source) (p : Nat) :
    (s.parse o.wildcardedPath p).isSome = (s.parse o.wildcardedOrName p).isSome := by
  have himp : (s.parse (.guarded o.qualifiedWildcarded o.qualifiedWildcarded) p).isSome = true →
      (s.parse o.wildcardedOrName p).isSome = true := by
    intro h
    have hqualified := Source.isSome_of_guarded h
    rw [Options.qualifiedWildcarded, Source.isSome_parse_map] at hqualified
    have hqualifier := Source.isSome_of_seq hqualified
    simp [Options.wildcardedOrName, Source.isSome_parse_first, hqualifier]
  rw [Options.wildcardedPath, Source.parse_withLabel, Source.isSome_parse_first]
  simpa using himp

private theorem decided_wildcardedPath : DecidedBy 3 o.wildcardedPath := by
  have hname : DecidedBy 3 o.wildcardedOrName :=
    .either (decided_wildcarded.mono (by decide)) (decided_declaration o)
  intro s s' p p' halike
  rw [isSome_parse_wildcardedPath, isSome_parse_wildcardedPath, hname halike]

/-- Every rule but that of whole functions is decided by three tokens. -/
theorem decided_rule (r : Rule) (hr : r ≠ .functionDeclaration) :
    DecidedBy 3 (o.rules.grammar r) := by
  have one {g : Grammar Element} (hg : DecidedBy 1 g) : DecidedBy 3 g := hg.mono (by decide)
  have always {g : Grammar Element} (hg : g.Unfailing) : DecidedBy 3 g :=
    fun s s' p p' _ => (hg s p).trans (hg s' p').symm
  cases r with
  | rawGuidLiteral => exact one decided_rawGuid
  | guidLiteral => exact one decided_guid
  | stringLiteral => exact one decided_string
  | guidOrString => exact one decided_guidOrString
  | bracketedStringLiteral => exact one (decided_bracketedString o)
  | value => exact one decided_value
  | type => exact one decided_type
  | nameDeclaration => exact decided_declaration o
  | qualifiedName => exact decided_qualifiedName o
  | databaseTablePath => exact decided_referencePath o _ _ _
  | databaseTableColumnPath => exact decided_referencePath o _ _ _
  | tableColumnPath => exact decided_referencePath o _ _ _
  | wildcardedName => exact one decided_wildcarded
  | qualifiedWildcardedName => exact decided_wildcardedPath o
  | functionDeclaration => exact absurd rfl hr
  | functionBody => exact one decided_bodyElement
  | queryInput => exact decided_expression
  | scriptInput => exact always unfailing_script
  | inputText => exact always unfailing_inputText
  | bracketedInputText => exact always unfailing_bracketedInputText
  | _ => exact decided_reference o _

end
end Grammar

namespace RuleSet
open Fragment

/-- Whether a rule matches is decided at its start. For every rule but one the next three tokens
decide; a body needs its opening brace, and scripts and raw text need nothing. Only a function may
fail late: it needs the opening brace of its body behind the parameters, however long they are. -/
theorem failure_decided_at_start (o : Options) :
    (∀ r ≠ Rule.functionDeclaration, ∀ (s s' : Source) (p : Nat), s.Alike p s' p 3 →
      (s.parse (o.rules.grammar r) p).isSome = (s'.parse (o.rules.grammar r) p).isSome) ∧
    (∀ (s : Source) (p : Nat),
      (s.parse (o.rules.grammar .functionBody) p).isSome = true ↔ (s.peek p).kind = .openBrace) ∧
    (∀ r ∈ [Rule.scriptInput, .inputText, .bracketedInputText], ∀ (s : Source) (p : Nat),
      (s.parse (o.rules.grammar r) p).isSome = true) ∧
    ∀ (s : Source) (p : Nat),
      (s.parse (o.rules.grammar .functionDeclaration) p).isSome = true ↔
        (s.peek p).kind = .openParen ∧
          ∃ ps m, s.parse parameters p = some (ps, m) ∧ (s.peek m).kind = .openBrace := by
  refine ⟨?_, fun s p => Source.isSome_parse_bodyElement, ?_,
    fun s p => Source.isSome_parse_function⟩
  · intro r hr s s' p halike
    exact Grammar.decided_rule o r hr halike
  · simp only [List.forall_mem_cons]
    exact ⟨Grammar.unfailing_script, Grammar.unfailing_inputText,
      Grammar.unfailing_bracketedInputText, nofun⟩

/-- Five tokens do not decide about a function. -/
example : ((Source.ofText ['(', 'a', ',', 'b', ')', '{']).parse function 0).isSome = true ∧
    ((Source.ofText ['(', 'a', ',', 'b', ')']).parse function 0).isSome = false := by
  decide +kernel

end RuleSet
end CommandGrammar
