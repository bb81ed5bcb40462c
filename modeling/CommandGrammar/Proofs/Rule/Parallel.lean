import CommandGrammar.Proofs.Grammar.Agrees
import CommandGrammar.Rule.Set

/-! Every rule does the same on windows that are parallel. -/
namespace CommandGrammar.Correspondence
open Fragment
variable {multiline : Bool} {c : Correspondence multiline}

namespace View
variable (v : c.View)

/-- A tree in which captured leaves are looked at as such. -/
def element (φ : Leaf → Leaf) : Element → Element := Element.mapParts (v.copy φ) φ

def name (φ : Leaf → Leaf) : Name → Name := Name.mapParts (v.copy φ) φ

def parameters (φ : Leaf → Leaf) : Parameters → Parameters := Parameters.mapParts (v.copy φ) φ

def body (φ : Leaf → Leaf) : Body → Body := Body.mapParts (v.copy φ) φ

def statement (φ : Leaf → Leaf) : Statement → Statement := Statement.mapParts (v.copy φ) φ

/-- A placeholder looks the same from both sides. -/
private theorem element_placeholder (x : Placeholder) :
    v.element c.left x.element = v.element c.right x.element := by
  cases x <;> simp [element, Placeholder.element, Element.mapParts, Name.placeholder, Name.mapParts,
    Name.mapLeaves, Parameters.placeholder, Parameters.mapParts, Body.placeholder, Body.mapParts,
    Statements.mapParts, Yield.mapParts, Statement.mapParts, v.placeholder, c.placeholder]

end View

private theorem element_same (φ : Leaf → Leaf) : c.same.element φ = Element.mapLeaves φ :=
  funext fun e => e.mapParts_self φ

/-- A run is never blank, as its opening bracket is part of it. -/
private theorem agrees_bracketedRun : c.Agrees (fun φ => φ) (bracketedRun multiline) := by
  have hopen : c.Agrees c.same.copy (.text ['[']) := .satisfy _ fun _ _ h => by rw [c.text h]
  have hclose : c.behind.Agrees c.behind.same.copy (.text [']']) :=
    .satisfy _ fun _ _ h => by rw [c.behind.text h]
  have hrun : c.behind.Agrees c.behind.same.copy (.satisfy (isRunToken multiline)) :=
    .satisfy _ fun _ _ h => c.run h
  refine .withLabel _ fun w w' hw =>
    Agrees.captured_agree (hopen.seq_behind (hrun.many.seq hclose.optional)) hw ?_
  intro a hr
  obtain ⟨l, m, n, hopen, hzero⟩ := Grammar.used_seq hr
  rw [Grammar.used_satisfy hopen] at hzero
  omega

section
variable (v : c.View)

private theorem agrees_kind (k : Kind) : c.Agrees v.copy (.kind k) :=
  .satisfy v fun _ _ h => by rw [c.kind h]

private theorem agrees_text (t : Text) : c.Agrees v.copy (.text t) :=
  .satisfy v fun _ _ h => by rw [c.text h]

private theorem agrees_requiredKind (k : Kind) : c.Agrees v.copy (requiredKind k) :=
  (agrees_kind v k).required (v.placeholder k)

private theorem agrees_identifierLike : c.Agrees v.copy identifierLike :=
  .satisfy v fun _ _ h => by rw [c.kind h]

private theorem agrees_typeName : c.Agrees v.copy typeName := by
  refine .satisfy v fun t t' h => ?_
  rw [isTypeName, isTypeName, c.kind h, c.text h]

private theorem agrees_identifierName : c.Agrees v.name identifierName :=
  (agrees_identifierLike v).map fun _ _ => rfl

private theorem agrees_bracketedName : c.Agrees v.name bracketedName :=
  ((agrees_text v _).seq ((agrees_kind v _).seq (agrees_text v _))).map fun _ _ => rfl

private theorem agrees_nameForm (form : NameForm) : c.Agrees v.name (nameForm multiline form) := by
  cases form with
  | identifier => exact agrees_identifierName v
  | bracketed => exact agrees_bracketedName v
  | braced =>
    exact ((agrees_text v _).seq ((agrees_identifierLike v).seq (agrees_text v _))).map
      fun _ _ => rfl
  | quoted => exact (agrees_kind v _).map fun _ _ => rfl
  | bracketedString => exact agrees_bracketedRun.map fun _ _ => rfl

private theorem agrees_nameIn (forms : List NameForm) :
    c.Agrees v.name (nameIn forms multiline) := by
  refine .withLabel _ (.first fun g hg => ?_)
  obtain ⟨form, _, rfl⟩ := List.mem_map.mp hg
  exact agrees_nameForm v form

private theorem agrees_literalOf (sort : LiteralSort) (kind : Kind) :
    c.Agrees v.element (literalOf sort kind) :=
  (agrees_kind v kind).map fun _ _ => rfl

private theorem agrees_path {head continuation : Grammar Element} (separator : Text)
    (x : Placeholder) (hh : c.Agrees v.element head) (hc : c.Agrees v.element continuation) :
    c.Agrees v.element (path head continuation separator x.element) := by
  have hdot : c.Agrees v.copy (Grammar.text separator).hide :=
    .hide v fun _ _ h => by rw [c.text h]
  have hlink : c.Agrees (fun φ => Link.mapParts (v.copy φ) φ)
      (link continuation separator x.element) :=
    (hdot.seq (hc.required (v.element_placeholder x))).map fun _ _ => rfl
  exact (hh.seq hlink.many).map fun φ a => Element.mapParts_chain (v.copy φ) φ a.1 a.2

private theorem agrees_literal : c.Agrees v.element literal := by
  refine .withLabel _ (.first fun g hg => ?_)
  obtain ⟨sort, _, rfl⟩ := List.mem_map.mp hg
  exact agrees_literalOf v sort _

private theorem agrees_expression : c.Agrees v.element expression := by
  have href : c.Agrees v.element anyReference :=
    Agrees.map (.either (agrees_identifierName v) (agrees_bracketedName v)) fun _ _ => rfl
  exact .withLabel _ (.either (agrees_literal v) (agrees_path v ['.'] (.reference .any) href href))

private theorem agrees_statement : c.Agrees v.statement statement := by
  have hvalue : c.Agrees v.element (expression.required Placeholder.expression.element) :=
    (agrees_expression v).required (v.element_placeholder _)
  have hbinding : c.Agrees v.statement binding :=
    (((agrees_kind v _).seq (agrees_identifierName v)).seq ((agrees_text v _).seq hvalue)).map
      fun _ _ => rfl
  exact .either hbinding ((agrees_expression v).map fun _ _ => rfl)

private theorem agrees_parameters : c.Agrees v.parameters parameters := by
  have hone : c.Agrees (fun φ => Parameter.mapParts (v.copy φ) φ) parameter :=
    ((agrees_identifierName v).seq ((agrees_requiredKind v _).seq
      ((agrees_typeName v).required (v.placeholder _)))).map fun _ _ => rfl
  have hlist : c.Agrees
      (fun φ => List.map (Separated.map (Parameter.mapParts (v.copy φ) φ) (v.copy φ)))
      parameterList := by
    refine (hone.seq ((agrees_kind v _).seq hone).many).optional.map fun φ x => ?_
    cases x with
    | none => rfl
    | some x => exact map_attachSeparators (v.copy φ) φ x.1 x.2
  exact .withLabel _ (((agrees_kind v _).seq (hlist.seq (agrees_requiredKind v _))).map
    fun _ _ => rfl)

private theorem agrees_body : c.Agrees v.body body := by
  have hclosed : c.Agrees (fun φ => Statements.mapParts (v.copy φ) φ) closedStatements := by
    refine ((agrees_statement v).seq (agrees_kind v _)).many.map fun φ ss => ?_
    rw [Statements.mapParts_ofList, List.map_map, List.map_map]
    rfl
  refine .withLabel _ (((agrees_kind v _).seq ((hclosed.seq ((agrees_expression v).optional.seq
    (agrees_kind v _).optional)).seq (agrees_requiredKind v _))).map fun φ x => ?_)
  obtain ⟨o, ⟨ss, e, semi⟩, close⟩ := x
  cases e with
  | none => rfl
  | some e => rfl

private theorem agrees_script : c.Agrees v.element script := by
  refine ((agrees_statement v).seq (agrees_kind v _).optional).many.map fun φ ss => ?_
  rw [View.element, Element.mapParts, Statements.mapParts_ofList, List.map_map, List.map_map]
  rfl

private theorem agrees_function : c.Agrees v.element function :=
  .withLabel _ (((agrees_parameters v).seq (agrees_body v)).map fun _ _ => rfl)

private theorem agrees_bodyElement : c.Agrees v.element bodyElement :=
  .withLabel _ ((agrees_body v).map fun _ _ => rfl)

private theorem agrees_guid : c.Agrees v.element guid := .withLabel _ (agrees_literalOf v _ _)

private theorem agrees_rawGuid : c.Agrees v.element rawGuid := .withLabel _ (agrees_literalOf v _ _)

private theorem agrees_string : c.Agrees v.element string := .withLabel _ (agrees_literalOf v _ _)

private theorem agrees_guidOrString : c.Agrees v.element guidOrString :=
  .orElse (agrees_guid v) (.either (agrees_string v) (agrees_rawGuid v))

private theorem agrees_value : c.Agrees v.element value :=
  .withLabel _ (.orElse (agrees_guid v) (.either (agrees_rawGuid v) (agrees_literal v)))

private theorem agrees_type : c.Agrees v.element type :=
  .withLabel _ ((agrees_typeName v).map fun _ _ => rfl)

private theorem agrees_wildcarded : c.Agrees v.element wildcarded :=
  .withLabel _ ((agrees_kind v _).map fun _ _ => rfl)

end

section
variable (o : Options) {c : Correspondence o.multiline}

theorem agrees_bracketedString : c.Agrees Element.mapLeaves o.bracketedString :=
  .withLabel _ (agrees_bracketedRun.map fun _ _ => rfl)

variable (v : c.View)

private theorem agrees_declaration : c.Agrees v.element o.declaration :=
  .withLabel _ ((agrees_nameIn v _).map fun _ _ => rfl)

private theorem agrees_reference (symbols : SymbolSet) : c.Agrees v.element (o.reference symbols) :=
  .withLabel _ (.withHint _ ((agrees_nameIn v _).map fun _ _ => rfl))

private theorem agrees_qualifiedName : c.Agrees v.element o.qualifiedName :=
  .withLabel _ (agrees_path v _ .declaration (agrees_declaration o v) (agrees_declaration o v))

private theorem agrees_referencePath (head rest : SymbolSet) (label : String) :
    c.Agrees v.element (o.referencePath head rest label) :=
  .withLabel _ (agrees_path v _ (.reference rest) (agrees_reference o v _) (agrees_reference o v _))

private theorem agrees_wildcardedPath : c.Agrees v.element o.wildcardedPath := by
  have hname : c.Agrees v.element o.wildcardedOrName :=
    .either (agrees_wildcarded v) (agrees_declaration o v)
  have hqualified : c.Agrees v.element o.qualifiedWildcarded :=
    ((agrees_declaration o v).seq ((agrees_text v _).seq hname)).map fun _ _ => rfl
  exact .withLabel _ (.either (hqualified.guarded hqualified) hname)

variable {w w' : Window}

/-- Raw text that is blank has nothing but its place. -/
private theorem raw_agree {α : Type} {M : (Leaf → Leaf) → α → α} {g : Grammar α}
    (hg : c.Agrees M g) (label : String) (hw : c.Parallel w w')
    (hblank : c.left (.capture .inputText w.offset []) = c.right (.capture .inputText w'.offset [])) :
    ((((Fragment.captured .inputText g).map Element.token).withLabel label).run w).map
        (v.element c.left) =
      ((((Fragment.captured .inputText g).map Element.token).withLabel label).run w').map
        (v.element c.right) := by
  have hrun (x : Window) :
      (((Fragment.captured .inputText g).map Element.token).withLabel label).run x =
        (((Fragment.captured .inputText g).run x).map Element.token).report (some label) x.start :=
    rfl
  rw [hrun, hrun, hw.start, Outcome.report_agree_iff]
  have hleaf := Agrees.captured_agree hg hw fun _ _ => hblank
  obtain ⟨hlog, ⟨hr, hr'⟩ | ⟨l, l', n, hr, hr', hl⟩⟩ := Outcome.map_eq_map_iff.mp hleaf
  · simp only [Outcome.map, hr, hr', hlog, Option.map_none]
  · simp only [Outcome.map, hr, hr', hlog, Option.map_some, View.element, Element.mapParts, hl]

/-- On parallel windows a rule matches as many tokens and makes the same log, and the trees look the
same, also where captured leaves are told from others. Only the rule that returns a run as a literal
gives no sign of it in the tree. Where the windows stand matters for blank raw text only. -/
theorem rule_agree_parts (r : Rule) (hr : r ≠ .bracketedStringLiteral) (hw : c.Parallel w w')
    (hblank : c.left (.capture .inputText w.offset []) = c.right (.capture .inputText w'.offset [])) :
    ((o.rules.grammar r).run w).map (v.element c.left) =
      ((o.rules.grammar r).run w').map (v.element c.right) := by
  cases r with
  | rawGuidLiteral => exact agrees_rawGuid v hw
  | guidLiteral => exact agrees_guid v hw
  | stringLiteral => exact agrees_string v hw
  | guidOrString => exact agrees_guidOrString v hw
  | bracketedStringLiteral => exact absurd rfl hr
  | value => exact agrees_value v hw
  | type => exact agrees_type v hw
  | nameDeclaration => exact agrees_declaration o v hw
  | qualifiedName => exact agrees_qualifiedName o v hw
  | databaseTablePath => exact agrees_referencePath o v _ _ _ hw
  | databaseTableColumnPath => exact agrees_referencePath o v _ _ _ hw
  | tableColumnPath => exact agrees_referencePath o v _ _ _ hw
  | wildcardedName => exact agrees_wildcarded v hw
  | qualifiedWildcardedName => exact agrees_wildcardedPath o v hw
  | functionDeclaration => exact agrees_function v hw
  | functionBody => exact agrees_bodyElement v hw
  | queryInput => exact agrees_expression v hw
  | scriptInput => exact agrees_script v hw
  | inputText =>
    have hany : c.Agrees v.copy Grammar.anyToken := .satisfy v fun _ _ _ => rfl
    exact raw_agree o v hany.many "<input_text>" hw hblank
  | bracketedInputText =>
    have hother : c.Agrees v.copy (Grammar.notText [[']']]) :=
      .satisfy v fun _ _ h => by rw [c.text h]
    exact raw_agree o v hother.many "<input_text>" hw hblank
  | _ => exact agrees_reference o v _ hw

/-- On parallel windows a rule matches as many tokens and makes the same log, and the trees look the
same. -/
theorem rule_agree (c : Correspondence o.multiline) (r : Rule) (hw : c.Parallel w w')
    (hblank : c.left (.capture .inputText w.offset []) = c.right (.capture .inputText w'.offset [])) :
    ((o.rules.grammar r).run w).map (Element.mapLeaves c.left) =
      ((o.rules.grammar r).run w').map (Element.mapLeaves c.right) := by
  by_cases hr : r = .bracketedStringLiteral
  · subst hr
    exact agrees_bracketedString o hw
  · rw [← element_same, ← element_same]
    exact rule_agree_parts o c.same r hr hw hblank

end

end CommandGrammar.Correspondence
