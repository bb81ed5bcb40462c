import CommandGrammar.Proofs.Fragment.BracketRun
import CommandGrammar.Proofs.Grammar.Variant
import CommandGrammar.Proofs.Tree.Placement

/-! The choice between bracketed strings on one line and on several. A string that may go over several lines
begins like the one that may not and goes on behind the first line break; on a text without line breaks no
rule tells the two apart. -/
namespace CommandGrammar

namespace Source
open Fragment

/-- Of two strings from the same bracket the first is a beginning of the second, and where it is shorter a
token with a line break ends it. -/
structure Lengthens (s : Source) (x y : Leaf × Nat) : Prop where
  stop : x.2 ≤ y.2
  fullText : x.1.fullText <+: y.1.fullText
  lineBreak : x.2 < y.2 → s.isEnd x.2 = false ∧ (s.peek x.2).text ∉ [['['], [']']] ∧
    ((s.peek x.2).trivia.hasLineBreak = true ∨ (s.peek x.2).text.hasLineBreak = true)

section Run
variable {s : Source} {p m q m' q' : Nat}

/-- A run that may go over several lines ends no earlier. -/
private theorem BracketRun.le (h : s.BracketRun false p m q) (h' : s.BracketRun true p m' q') :
    m ≤ m' := by
  apply Nat.le_of_not_lt
  intro hlt
  obtain ⟨hend, htoken⟩ := h.inner m' h'.lt hlt
  exact h'.stops ⟨hend, isRunToken_iff.mpr ⟨(isRunToken_iff.mp htoken).1, .inl rfl⟩⟩

private theorem BracketRun.lengthens (h : s.BracketRun false p m q)
    (h' : s.BracketRun true p m' q') :
    s.Lengthens (s.reconstruct .stringLiteral p q, q) (s.reconstruct .stringLiteral p q', q') := by
  rcases Nat.eq_or_lt_of_le (h.le h') with rfl | hlt
  · obtain rfl : q = q' := h.closing.trans h'.closing.symm
    exact ⟨Nat.le_refl q, List.prefix_refl _, fun hlt => absurd hlt (Nat.lt_irrefl q)⟩
  · -- The longer run takes in the token that ends the shorter one, which is thus no bracket.
    obtain ⟨hend, htoken⟩ := h'.inner m h.lt hlt
    obtain ⟨⟨hclose, hopen⟩, -⟩ := isRunToken_iff.mp htoken
    have hline : (s.peek m).fullText.hasLineBreak = true := by
      rw [← Bool.not_eq_false]
      intro hnone
      exact h.stops ⟨hend, isRunToken_iff.mpr ⟨⟨hclose, hopen⟩, .inr hnone⟩⟩
    obtain rfl : q = m := h.closing.trans (if_neg fun hbracket => hclose hbracket.2)
    have hle : q ≤ q' := by
      rw [h'.closing]
      split
      · exact Nat.le_succ_of_le (Nat.le_of_lt hlt)
      · exact Nat.le_of_lt hlt
    refine ⟨hle, ?_, fun _ => ⟨hend, by simp [hclose, hopen], ?_⟩⟩
    · rw [fullText_reconstruct, fullText_reconstruct, ← slice_append (Nat.le_of_lt h.lt) hle,
        List.flatMap_append]
      exact List.prefix_append _ _
    · rwa [Token.fullText, Text.hasLineBreak_append, Bool.or_eq_true] at hline

end Run

/-- Both strings are there if there is a bracket. -/
private theorem rel_bracketedRun (s : Source) (p : Nat) :
    Option.Rel s.Lengthens (s.parse (bracketedRun false) p) (s.parse (bracketedRun true) p) := by
  have hsome : (s.parse (bracketedRun false) p).isSome = (s.parse (bracketedRun true) p).isSome := by
    rw [Bool.eq_iff_iff, isSome_parse_bracketedRun, isSome_parse_bracketedRun]
  cases hshort : s.parse (bracketedRun false) p with
  | none =>
    cases hlong : s.parse (bracketedRun true) p with
    | none => exact .none
    | some y =>
      rw [hshort, hlong] at hsome
      cases hsome
  | some x =>
    cases hlong : s.parse (bracketedRun true) p with
    | none =>
      rw [hshort, hlong] at hsome
      cases hsome
    | some y =>
      obtain ⟨l, q⟩ := x
      obtain ⟨l', q'⟩ := y
      obtain ⟨⟨m, hrun⟩, rfl⟩ := ensures_bracketedRun s false hshort
      obtain ⟨⟨m', hrun'⟩, rfl⟩ := ensures_bracketedRun s true hlong
      exact .some (hrun.lengthens hrun')

end Source

/-- There is no line break in the text of the token or in front of it. -/
def Token.Unbroken (t : Token) : Prop := t.fullText.hasLineBreak = false

/-- A text without line breaks has none in its tokens. -/
private theorem Token.unbroken_of_mem {text : Text} (h : text.hasLineBreak = false) {t : Token}
    (ht : t ∈ ofText text) : t.Unbroken := by
  rw [Text.hasLineBreak, List.any_eq_false] at h
  rw [Unbroken, Text.hasLineBreak, List.any_eq_false]
  intro c hc
  refine h c ?_
  rw [← flatMap_fullText_ofText text]
  exact List.mem_flatMap.mpr ⟨t, ht, hc⟩

private theorem Source.mem_of_mem_window {s : Source} {p : Nat} {t : Token}
    (ht : t ∈ (s.window p).tokens) : t ∈ s.tokens :=
  List.mem_append_left _ (List.mem_of_mem_drop ((List.takeWhile_prefix _).subset ht))

namespace RuleSet
open Fragment Grammar

private theorem variant_bracketedRun :
    Variant Token.Unbroken (bracketedRun false) (bracketedRun true) := by
  have htoken (t : Token) (ht : t.Unbroken) : isRunToken false t = isRunToken true t := by
    rw [Bool.eq_iff_iff, isRunToken_iff, isRunToken_iff]
    exact and_congr_right fun _ => iff_of_true (.inr ht) (.inl rfl)
  exact .withLabel (.capture (.seq (.refl _) (.seq (.many (.satisfy htoken)) (.refl _))) _) _

private theorem variant_nameForm (form : NameForm) :
    Variant Token.Unbroken (nameForm false form) (nameForm true form) := by
  cases form with
  | bracketedString => exact .map variant_bracketedRun _
  | _ => exact .refl _

private theorem variant_name : Variant Token.Unbroken (name false) (name true) :=
  .withLabel (.first variant_nameForm NameForm.all) _

private theorem variant_path {head head' rest rest' : Grammar Element}
    (hhead : Variant Token.Unbroken head head') (hrest : Variant Token.Unbroken rest rest')
    (separator : Text) (placeholder : Element) :
    Variant Token.Unbroken (path head rest separator placeholder)
      (path head' rest' separator placeholder) :=
  .map (.seq hhead (.many (.map (.seq (.refl _) (hrest.required placeholder)) _))) _

section Options
variable (separator : Text)

private theorem variant_declaration :
    Variant Token.Unbroken (Options.declaration ⟨separator, false⟩)
      (Options.declaration ⟨separator, true⟩) :=
  .withLabel (.map variant_name _) _

private theorem variant_qualifiedName :
    Variant Token.Unbroken (Options.qualifiedName ⟨separator, false⟩)
      (Options.qualifiedName ⟨separator, true⟩) :=
  .withLabel (variant_path (variant_declaration separator) (variant_declaration separator) _ _) _

private theorem variant_reference (symbols : SymbolSet) :
    Variant Token.Unbroken (Options.reference ⟨separator, false⟩ symbols)
      (Options.reference ⟨separator, true⟩ symbols) :=
  .withLabel (.withHint (.map variant_name _) _) _

private theorem variant_referencePath (head rest : SymbolSet) (label : String) :
    Variant Token.Unbroken (Options.referencePath ⟨separator, false⟩ head rest label)
      (Options.referencePath ⟨separator, true⟩ head rest label) :=
  .withLabel (variant_path (variant_reference separator head) (variant_reference separator rest) _ _) _

private theorem variant_bracketedString :
    Variant Token.Unbroken (Options.bracketedString ⟨separator, false⟩)
      (Options.bracketedString ⟨separator, true⟩) :=
  .withLabel (.map variant_bracketedRun _) _

private theorem variant_wildcardedPath :
    Variant Token.Unbroken (Options.wildcardedPath ⟨separator, false⟩)
      (Options.wildcardedPath ⟨separator, true⟩) := by
  have hname := variant_declaration separator
  have hlast : Variant Token.Unbroken (Options.wildcardedOrName ⟨separator, false⟩)
      (Options.wildcardedOrName ⟨separator, true⟩) := .either (.refl _) hname
  have hqualified : Variant Token.Unbroken (Options.qualifiedWildcarded ⟨separator, false⟩)
      (Options.qualifiedWildcarded ⟨separator, true⟩) := .map (.seq hname (.seq (.refl _) hlast)) _
  exact .withLabel (.either (.guarded hqualified hqualified) hlast) _

end Options

/-- The rules with the one choice are those with the other but for the tokens of bracketed runs. -/
theorem variant_grammar (rs : RuleSet) (r : Rule) :
    Variant Token.Unbroken ({ rs with multiline := false }.grammar r)
      ({ rs with multiline := true }.grammar r) := by
  cases r with
  | bracketedStringLiteral => exact variant_bracketedString _
  | nameDeclaration => exact variant_declaration _
  | qualifiedName => exact variant_qualifiedName _
  | databaseTablePath | databaseTableColumnPath | tableColumnPath =>
    exact variant_referencePath _ _ _ _
  | qualifiedWildcardedName => exact variant_wildcardedPath _
  | rawGuidLiteral | guidLiteral | stringLiteral | guidOrString | value | type | wildcardedName
  | functionDeclaration | functionBody | queryInput | scriptInput | inputText
  | bracketedInputText => exact .refl _
  | _ => exact variant_reference _ _

/-- The choice between strings on one line and on several only lengthens bracketed runs. On any source each
run is a beginning of the longer one, up to a line break where they differ. On a text without line breaks no
rule tells the choices apart, wherever it starts and whether or not it is required. -/
theorem multiline_lengthens :
    (∀ (s : Source) p,
      Option.Rel s.Lengthens (s.parse (bracketedRun false) p) (s.parse (bracketedRun true) p)) ∧
    ∀ (rs : RuleSet) (text : Text), text.hasLineBreak = false → ∀ r p,
      ({ rs with multiline := false }.grammar r).run ((Source.ofText text).window p) =
          ({ rs with multiline := true }.grammar r).run ((Source.ofText text).window p) ∧
        ({ rs with multiline := false }.required r).run ((Source.ofText text).window p) =
          ({ rs with multiline := true }.required r).run ((Source.ofText text).window p) := by
  refine ⟨Source.rel_bracketedRun, fun rs text h r p => ?_⟩
  have htokens : ∀ t ∈ ((Source.ofText text).window p).tokens, t.Unbroken := by
    intro t ht
    have hmem := Source.mem_of_mem_window ht
    rw [Source.tokens_ofText] at hmem
    exact Token.unbroken_of_mem h hmem
  have hvariant := variant_grammar rs r
  exact ⟨hvariant.run_eq htokens, (hvariant.required _).run_eq htokens⟩

/-- A bracket that is closed on the next line. -/
def bracketOverLines : Source := .ofText "[a\nb]".toList

/-- The longer of two runs goes on behind the line break, and a path with a bracket on one line is read the
same. -/
theorem multiline_bracketOverLines :
    (∃ x y, bracketOverLines.parse (bracketedRun false) 0 = some x ∧
      bracketOverLines.parse (bracketedRun true) 0 = some y ∧ x.2 < y.2 ∧
      bracketOverLines.Lengthens x y) ∧
    Text.hasLineBreak "db.[a b]".toList = false ∧
    (RuleSet.grammar { multiline := false } .databaseTablePath).run
        ((Source.ofText "db.[a b]".toList).window 0) =
      (RuleSet.grammar { multiline := true } .databaseTablePath).run
        ((Source.ofText "db.[a b]".toList).window 0) := by
  obtain ⟨hruns, hrules⟩ := multiline_lengthens
  have hshort : bracketOverLines.parse (bracketedRun false) 0 =
      some (⟨.stringLiteral, [], "[a".toList, 0, false, false⟩, 2) := by decide +kernel
  have hlong : bracketOverLines.parse (bracketedRun true) 0 =
      some (⟨.stringLiteral, [], "[a\nb]".toList, 0, false, false⟩, 4) := by decide +kernel
  have hrel := hruns bracketOverLines 0
  rw [hshort, hlong] at hrel
  refine ⟨⟨_, _, hshort, hlong, by decide, ?_⟩, rfl, ?_⟩
  · cases hrel with
    | some hlengthens => exact hlengthens
  · exact (hrules standard "db.[a b]".toList rfl .databaseTablePath 0).1

end RuleSet
end CommandGrammar
