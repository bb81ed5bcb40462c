import CommandGrammar.Proofs.Fragment.BracketRun
import CommandGrammar.Proofs.Grammar.Records
import CommandGrammar.Proofs.Rule.Places

/-! The log of a rule and the placeholders in what it returns. An alternative fails before it supplies
anything, with one exception: a statement of a body that no semicolon closes is given up, with whatever it
supplied, and read again as the value of the body. -/
namespace CommandGrammar

namespace Grammar
open Fragment

@[simp] private theorem silent_bracketedRun (multiline : Bool) :
    (bracketedRun multiline).Silent := by
  simp [bracketedRun, captured, seq3]

@[simp] private theorem silent_identifierName : identifierName.Silent := trivial

@[simp] private theorem silent_bracketedName : bracketedName.Silent := ⟨trivial, trivial, trivial⟩

@[simp] private theorem silent_name (multiline : Bool) : (name multiline).Silent := by
  simp [name, nameIn, NameForm.all, nameForm, bracedName, identifierLike, seq3]

@[simp] private theorem silent_wildcarded : wildcarded.Silent := by simp [wildcarded]

@[simp] private theorem silent_declaration (o : Options) : o.declaration.Silent := by
  simp [Options.declaration]

@[simp] private theorem silent_qualifiedWildcarded (o : Options) :
    o.qualifiedWildcarded.Silent := by
  simp [Options.qualifiedWildcarded, Options.wildcardedOrName, seq3]

@[simp] private theorem silent_inputText : inputText.Silent := by
  simp [inputText, captured, anyToken]

@[simp] private theorem silent_bracketedInputText : bracketedInputText.Silent := by
  simp [bracketedInputText, captured, notText]

end Grammar

namespace Source
open Fragment Grammar
variable {s : Source}

private theorem records_requiredKind (k : Kind) : s.Records (fun l => [l]) (requiredKind k) :=
  (Records.satisfy s _).required rfl rfl

private theorem records_identifierName : s.Records Name.leaves identifierName :=
  (Records.satisfy s _).map fun _ => rfl

private theorem records_bracketedName : s.Records Name.leaves bracketedName :=
  (Records.satisfy_seq (.satisfy_seq (.satisfy s _))).map fun _ => rfl

private theorem records_bracketedRun (multiline : Bool) :
    s.Records (fun l => [l]) (bracketedRun multiline) := by
  refine .of_cell (silent_bracketedRun multiline) ((ensures_bracketedRun s multiline).mono ?_)
  rintro p q l ⟨⟨m, hrun⟩, rfl⟩
  exact .run hrun.lt_stop hrun.opening

private theorem records_nameIn (forms : List NameForm) (multiline : Bool) :
    s.Records Name.leaves (nameIn forms multiline) := by
  refine .withLabel _ (.first fun g hg => ?_)
  obtain ⟨form, -, rfl⟩ := List.mem_map.mp hg
  cases form with
  | identifier => exact records_identifierName
  | bracketed => exact records_bracketedName
  | braced => exact (Records.satisfy_seq (.satisfy_seq (.satisfy s _))).map fun _ => rfl
  | quoted => exact (Records.satisfy s _).map fun _ => rfl
  | bracketedString => exact (records_bracketedRun multiline).map fun _ => rfl

private theorem records_literalOf (sort : LiteralSort) (kind : Kind) :
    s.Records Element.flatten (literalOf sort kind) :=
  (Records.satisfy s _).map fun _ => rfl

/-- A link fails at its separator or not at all. -/
private theorem records_path {head continuation : Grammar Element} (separator : Text)
    {x : Placeholder} {l : Leaf} (hx : x.element.flatten = [l]) (hl : l.missing = true)
    (hhead : s.Records Element.flatten head) (hcontinuation : s.Records Element.flatten continuation) :
    s.Records Element.flatten (path head continuation separator x.element) := by
  have hlink : s.Records (fun l : Link => l.dot :: l.selector.flatten)
      (link continuation separator x.element) :=
    ((Records.hidden s _).seq (hcontinuation.required hx hl) (.required _ _)).map fun _ => rfl
  have hdot : s.Ensures (link continuation separator x.element) fun _ _ y =>
      ∃ l ls, y.dot :: y.selector.flatten = l :: ls ∧ l.missing = false := by
    refine .map (.seq (ensures_hidden _) (.any _) ?_)
    rintro p m q d e ⟨t, rfl⟩ -
    exact ⟨_, _, rfl, rfl⟩
  exact (hhead.seq (hlink.many hdot) (.many _)).map fun a => Element.flatten_chain a.1 a.2

private theorem records_literal : s.Records Element.flatten literal := by
  refine .withLabel _ (.first fun g hg => ?_)
  obtain ⟨sort, -, rfl⟩ := List.mem_map.mp hg
  exact records_literalOf sort _

private theorem records_expression : s.Records Element.flatten expression := by
  have hreference : s.Records Element.flatten anyReference :=
    (Records.either records_identifierName records_bracketedName).map fun _ => rfl
  exact .withLabel _ (.either records_literal
    (records_path ['.'] (x := .reference .any) rfl rfl hreference hreference))

/-- A binding that lacks its value has come by its equal sign, and then nothing makes it fail. -/
private theorem records_statement : s.Records Statement.flatten statement := by
  have hvalue : s.Records Element.flatten (expression.required Placeholder.expression.element) :=
    records_expression.required rfl rfl
  have hbinding : s.Records Statement.flatten binding :=
    ((Records.satisfy_seq records_identifierName).behind
      (silent_seq.mpr ⟨silent_satisfy _, silent_identifierName⟩) (.satisfy_seq hvalue)).map
      fun _ => by simp [Statement.flatten]
  exact .either hbinding (records_expression.map fun _ => rfl)

private theorem records_parameters : s.Records Parameters.flatten parameters := by
  have htype : s.Records (fun l => [l]) (typeName.required (.placeholder .identifier)) :=
    (Records.satisfy s _).required rfl rfl
  have hone : s.Records Parameter.leaves parameter :=
    (records_identifierName.behind silent_identifierName
      ((records_requiredKind _).seq htype (.required _ _))).map fun _ => rfl
  have hcomma : s.Ensures ((Grammar.kind .comma).seq parameter) fun _ _ x =>
      ∃ l ls, [x.1] ++ x.2.leaves = l :: ls ∧ l.missing = false := by
    refine .seq (Ensures.satisfy _) (.any _) ?_
    rintro p m q l x ⟨-, -, -, rfl⟩ -
    exact ⟨_, _, rfl, rfl⟩
  have hlist : s.Records Parameter.leavesOf parameterList :=
    (hone.seq (hone.satisfy_seq.many hcomma) (.many _)).optional.map leavesOf_parameterList
  exact .withLabel _ ((Records.satisfy_seq
    (hlist.seq (records_requiredKind _) (.required _ _))).map fun _ => rfl)

private theorem records_script : s.Records Element.flatten script := by
  have hone : s.Records (fun x => x.1.flatten ++ x.2.elim [] fun l => [l])
      (statement.seq (Grammar.kind .semicolon).optional) :=
    records_statement.seq (Records.satisfy s _).optional (.optional _)
  have hhead : s.Ensures (statement.seq (Grammar.kind .semicolon).optional) fun _ _ x =>
      ∃ l ls, (x.1.flatten ++ x.2.elim [] fun l => [l]) = l :: ls ∧ l.missing = false := by
    refine .seq anchored_statement (.any _) ?_
    rintro p m q x sep ⟨-, l, ls, hx, hl⟩ -
    exact ⟨l, _, by rw [hx, List.cons_append], hl⟩
  exact (hone.many hhead).map flatten_script

/-- A statement that no semicolon follows is given up together with what it supplied. -/
private theorem retains_body : s.Retains Body.flatten body := by
  have hsemicolon : s.Records (fun l => [l]) (.kind .semicolon) := .satisfy s _
  have hclosed : s.Retains Statements.flatten closedStatements :=
    (records_statement.retains.seq hsemicolon.retains).many.map flatten_closedStatements
  have hvalue : s.Retains (fun x => x.1.elim [] Element.flatten ++ x.2.elim [] fun l => [l])
      (expression.optional.seq (Grammar.kind .semicolon).optional) :=
    records_expression.optional.retains.seq hsemicolon.optional.retains
  exact .withLabel _ (((Records.satisfy s _).retains.seq
    ((hclosed.seq hvalue).seq (records_requiredKind _).retains)).map flatten_body)

private theorem retains_function : s.Retains Element.flatten function :=
  .withLabel _ ((records_parameters.retains.seq retains_body).map fun _ => rfl)

private theorem retains_bodyElement : s.Retains Element.flatten bodyElement :=
  .withLabel _ (retains_body.map fun _ => rfl)

private theorem records_guid : s.Records Element.flatten guid :=
  .withLabel _ (records_literalOf _ _)

private theorem records_rawGuid : s.Records Element.flatten rawGuid :=
  .withLabel _ (records_literalOf _ _)

private theorem records_string : s.Records Element.flatten string :=
  .withLabel _ (records_literalOf _ _)

private theorem records_type : s.Records Element.flatten type :=
  .withLabel _ ((Records.satisfy s _).map fun _ => rfl)

section
variable (o : Options)

private theorem records_bracketedString : s.Records Element.flatten o.bracketedString :=
  .withLabel _ ((records_bracketedRun _).map fun _ => rfl)

private theorem records_declaration : s.Records Element.flatten o.declaration :=
  .withLabel _ ((records_nameIn _ _).map fun _ => rfl)

private theorem records_reference (symbols : SymbolSet) :
    s.Records Element.flatten (o.reference symbols) :=
  .withLabel _ (.withHint _ ((records_nameIn _ _).map fun _ => rfl))

private theorem records_referencePath (head rest : SymbolSet) (label : String) :
    s.Records Element.flatten (o.referencePath head rest label) :=
  .withLabel _ (records_path _ (x := .reference rest) rfl rfl (records_reference o head)
    (records_reference o rest))

private theorem records_qualifiedName : s.Records Element.flatten o.qualifiedName :=
  .withLabel _ (records_path _ (x := .declaration) rfl rfl (records_declaration o)
    (records_declaration o))

private theorem records_wildcarded : s.Records Element.flatten wildcarded :=
  .withLabel _ ((Records.satisfy s _).map fun _ => rfl)

/-- What is read twice is silent. -/
private theorem records_wildcardedPath : s.Records Element.flatten o.wildcardedPath := by
  have hname : s.Records Element.flatten o.wildcardedOrName :=
    .either records_wildcarded (records_declaration o)
  have hqualified : s.Records Element.flatten o.qualifiedWildcarded :=
    ((records_declaration o).behind (silent_declaration o) (.satisfy_seq hname)).map fun _ => rfl
  exact .withLabel _ (.either (hqualified.guarded (silent_qualifiedWildcarded o)
    (silent_qualifiedWildcarded o)) hname)

/-- Positions for the missing leaves of a tree, in their order: the leaves before such a leaf have the source
text of the tokens before its position. -/
structure Locates (s : Source) (p q : Nat) (e : Element) (ms : List Nat) : Prop where
  count : ms.length = (e.leaves.filter (·.missing)).length
  behind : ∀ before l after, e.leaves = before ++ l :: after → l.missing = true →
    ∃ m, ms[(before.filter (·.missing)).length]? = some m ∧ p ≤ m ∧ m ≤ q ∧
      before.flatMap Leaf.fullText = (s.slice p m).flatMap Token.fullText

private theorem Keeps.blank {p q : Nat} {e : Element} (h : s.Keeps p q e) :
    ∀ l ∈ e.leaves, l.missing = true → l.trivia = [] ∧ l.text = [] := by
  rw [Element.leaves_eq]
  rcases h.tokens with hcovers | rfl
  · exact hcovers.blank
  · intro l hl hm
    rw [List.mem_singleton.mp hl, missing_reconstruct] at hm
    cases hm

private theorem Walk.locates {p q : Nat} {e : Element} {ms : List Nat}
    (hwalk : s.Walk p q e.flatten ms) (hkeeps : s.Keeps p q e) : s.Locates p q e ms := by
  rw [← Element.leaves_eq] at hwalk
  refine ⟨hwalk.length, ?_⟩
  intro before l after hsplit hl
  obtain ⟨m, hm, htiling⟩ := (hsplit ▸ hwalk).behind hl
  obtain ⟨hpm, hmq⟩ := hwalk.bounds m (List.mem_of_getElem? hm)
  refine ⟨m, hm, hpm, hmq, ?_⟩
  have hblank : ∀ b ∈ before, b.missing = true → b.trivia = [] ∧ b.text = [] := by
    intro b hb
    refine hkeeps.blank b ?_
    rw [hsplit]
    exact List.mem_append_left _ hb
  rw [← Leaf.flatMap_fullText_filter hblank]
  exact (htiling.mono fun _ _ _ => Cell.spells).flatMap_fullText.2

/-- Raw text has no missing leaf. -/
private theorem locates_raw (s : Source) (p q : Nat) :
    s.Locates p q (.token (s.reconstruct .inputText p q)) [] := by
  have hl := missing_reconstruct s .inputText p q
  constructor
  · rw [Element.leaves_eq, Element.flatten, List.filter_cons_of_neg (by simp [hl])]
    rfl
  · intro before l after hsplit hm
    have hmem : l ∈ Element.leaves (.token (s.reconstruct .inputText p q)) := by
      rw [hsplit]
      exact List.mem_append_right _ List.mem_cons_self
    rw [Element.leaves_eq, Element.flatten, List.mem_singleton] at hmem
    rw [hmem, hl] at hm
    cases hm

/-- The rules other than those for functions report their placeholders and nothing else. -/
theorem ensures_locates (r : Rule) (hr : r ∉ [Rule.functionDeclaration, .functionBody]) :
    s.Ensures (o.rules.grammar r) fun p q e => s.Locates p q e (s.supplies (o.rules.grammar r) p) := by
  have recorded {r : Rule} (hg : s.Records Element.flatten (o.rules.grammar r)) :
      s.Ensures (o.rules.grammar r) fun p q e =>
        s.Locates p q e (s.supplies (o.rules.grammar r) p) :=
    fun _ _ _ h => (hg.found h).locates (ensures_keeps o r h)
  have raw {g : Grammar Element} (hg : g.Silent) (hraw : s.Ensures g fun p q e =>
      e = .token (s.reconstruct .inputText p q)) :
      s.Ensures g fun p q e => s.Locates p q e (s.supplies g p) := by
    intro p q e h
    rw [hraw h, hg.supplies]
    exact locates_raw s p q
  cases r with
  | rawGuidLiteral => exact recorded records_rawGuid
  | guidLiteral => exact recorded records_guid
  | stringLiteral => exact recorded records_string
  | guidOrString => exact recorded (.orElse records_guid (.either records_string records_rawGuid))
  | bracketedStringLiteral => exact recorded (records_bracketedString o)
  | value =>
    exact recorded (.withLabel _ (.orElse records_guid (.either records_rawGuid records_literal)))
  | type => exact recorded records_type
  | nameDeclaration => exact recorded (records_declaration o)
  | qualifiedName => exact recorded (records_qualifiedName o)
  | databaseTablePath => exact recorded (records_referencePath o _ _ _)
  | databaseTableColumnPath => exact recorded (records_referencePath o _ _ _)
  | tableColumnPath => exact recorded (records_referencePath o _ _ _)
  | wildcardedName => exact recorded records_wildcarded
  | qualifiedWildcardedName => exact recorded (records_wildcardedPath o)
  | functionDeclaration => exact absurd (by decide) hr
  | functionBody => exact absurd (by decide) hr
  | queryInput => exact recorded records_expression
  | scriptInput => exact recorded records_script
  | inputText => exact raw silent_inputText (ensures_raw Grammar.anyToken.many "<input_text>")
  | bracketedInputText =>
    exact raw silent_bracketedInputText
      (ensures_raw (Grammar.notText [[']']]).many "<input_text>")
  | _ => exact recorded (records_reference o _)

/-- Of a function some of the positions are those of its placeholders. -/
theorem ensures_retains (r : Rule) : s.Ensures (o.rules.grammar r) fun p q e =>
    ∃ ms, ms.Sublist (s.supplies (o.rules.grammar r) p) ∧ s.Locates p q e ms := by
  have retained {g : Grammar Element} (hg : s.Retains Element.flatten g)
      (hkeeps : s.Ensures g s.Keeps) : s.Ensures g fun p q e =>
        ∃ ms, ms.Sublist (s.supplies g p) ∧ s.Locates p q e ms := by
    intro p q e h
    obtain ⟨ms, hms, hwalk⟩ := hg h
    exact ⟨ms, hms, hwalk.locates (hkeeps h)⟩
  by_cases hf : r = .functionDeclaration
  · rw [hf]
    exact retained retains_function (ensures_keeps o .functionDeclaration)
  · by_cases hb : r = .functionBody
    · rw [hb]
      exact retained retains_bodyElement (ensures_keeps o .functionBody)
    · have hr : r ∉ [Rule.functionDeclaration, .functionBody] := by simp [hf, hb]
      exact (ensures_locates o r hr).mono fun p q e h => ⟨_, .refl _, h⟩

end
end Source

namespace RuleSet
open Source

/-- Where a rule reports to have supplied placeholders. For each missing leaf of the tree the position is
reported behind the tokens of the leaves before it, in the order of the leaves. Nothing else is reported
unless the rule is for functions, whose statements may be given up. -/
theorem supplies_locate_missing (o : Options) (r : Rule) (s : Source) {p q : Nat} {e : Element}
    (h : s.parse (o.rules.grammar r) p = some (e, q)) :
    (r ≠ .functionBody ∧ r ≠ .functionDeclaration →
      s.Locates p q e (s.supplies (o.rules.grammar r) p)) ∧
    ∃ ms, ms.Sublist (s.supplies (o.rules.grammar r) p) ∧ s.Locates p q e ms := by
  refine ⟨?_, ensures_retains o r h⟩
  rintro ⟨hbody, hfunction⟩
  exact ensures_locates o r (by simp [hbody, hfunction]) h

/-- A chain that lacks its last name, as the value of a body. -/
def danglingBody : Text := "\x7ba.\x7d".toList

/-- The chain is read twice, first as a statement, and there is one placeholder in the end. By itself it is
read once. -/
theorem supplies_danglingBody :
    (∃ e, (ofText danglingBody).parse (standard.grammar .functionBody) 0 = some (e, 4) ∧
      (ofText danglingBody).supplies (standard.grammar .functionBody) 0 = [3, 3] ∧
      (ofText danglingBody).Locates 0 4 e [3]) ∧
    ∃ e, (ofText ['a', '.']).parse (standard.grammar .queryInput) 0 = some (e, 2) ∧
      (ofText ['a', '.']).Locates 0 2 e [2] := by
  constructor
  · have hrun : ((ofText danglingBody).parse (standard.grammar .functionBody) 0).map
        (fun x => ((x.1.leaves.filter (·.missing)).length, x.2)) = some (1, 4) := by decide +kernel
    have hsupplies : (ofText danglingBody).supplies (standard.grammar .functionBody) 0 =
        List.replicate 2 3 := by decide +kernel
    obtain ⟨⟨e, q⟩, h, heq⟩ := Option.map_eq_some_iff.mp hrun
    obtain ⟨hcount, rfl⟩ := Prod.mk.inj heq
    obtain ⟨ms, hms, hlocates⟩ := (supplies_locate_missing {} .functionBody _ h).2
    refine ⟨e, h, hsupplies, ?_⟩
    have hms' : ms.Sublist (List.replicate 2 3) := hsupplies ▸ hms
    obtain ⟨n, -, rfl⟩ := List.sublist_replicate_iff.mp hms'
    have hn : n = 1 := by simpa [hcount] using hlocates.count
    rwa [hn] at hlocates
  · have hrun : ((ofText ['a', '.']).parse (standard.grammar .queryInput) 0).map Prod.snd =
        some 2 := by decide +kernel
    have hsupplies : (ofText ['a', '.']).supplies (standard.grammar .queryInput) 0 = [2] := by
      decide +kernel
    obtain ⟨⟨e, q⟩, h, rfl⟩ := Option.map_eq_some_iff.mp hrun
    refine ⟨e, h, ?_⟩
    have hlocates := (supplies_locate_missing {} .queryInput _ h).1 ⟨nofun, nofun⟩
    exact hsupplies ▸ hlocates

end RuleSet
end CommandGrammar
