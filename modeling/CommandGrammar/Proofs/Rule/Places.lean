import CommandGrammar.Proofs.Rule.Coverage
import CommandGrammar.Tree.Child

/-! What holds of the places of a parsed tree. A property that the leaves and the placeholders have, and
that goes up from the places below a place to the place itself, is one of every tree that a rule returns. -/
namespace CommandGrammar

namespace Child

/-- The place is no leaf, path, function or part of a function. -/
def isUsual : Child → Bool
  | .token _ | .element (.path ..) | .element (.parameters _) | .element (.body _)
  | .element (.function ..) => false
  | _ => true

/-- The places of a parameter. -/
def ofSingle (x : Parameter) : List Child := [.declaration x.name, .token x.colon, .type x.type]

/-- A separator is the same place behind one parameter as before the next. -/
private theorem ofParameter_attachSeparators (head : Parameter) (rest : List (Leaf × Parameter)) :
    (Fragment.attachSeparators head rest).flatMap ofParameter =
      ofSingle head ++ rest.flatMap fun x => [.token x.1] ++ ofSingle x.2 := by
  induction rest generalizing head with
  | nil => rfl
  | cons x rest ih =>
    rw [Fragment.attachSeparators, List.flatMap_cons, ih, List.flatMap_cons, List.append_assoc]
    rfl

private theorem ofStatements_ofList (ss : List (Separated Statement)) :
    ofStatements (.ofList ss) =
      ss.flatMap fun x => .statement x.element :: x.separator.toList.map .token := by
  induction ss with
  | nil => rfl
  | cons x ss ih => rw [Statements.ofList, ofStatements, ih, List.flatMap_cons]

end Child

namespace Source
open Fragment Child
variable {s : Source} {W : Child → Prop}

/-- In every match of `g` the places of the value have the property. -/
def Places {α : Type} (s : Source) (W : Child → Prop) (places : α → List Child) (g : Grammar α) :
    Prop :=
  s.Ensures g fun _ _ a => ∀ c ∈ places a, W c

/-- In every match of `g` the property goes up to the place of the value from the places below it. -/
def Lifts {α : Type} (s : Source) (W : Child → Prop) (place : α → Child) (g : Grammar α) : Prop :=
  s.Ensures g fun _ _ a => (∀ d ∈ (place a).children, W d) → W (place a)

namespace Places
variable {α β : Type} {g : Grammar α} {places : α → List Child}

private theorem map {f : α → β} {places' : β → List Child} (hg : s.Places W places g)
    (hf : ∀ a, places' (f a) = places a) : s.Places W places' (g.map f) := by
  refine Ensures.map (hg.mono fun p q a ha => ?_)
  rw [hf]
  exact ha

private theorem seq {k : Grammar β} {places' : β → List Child} (hg : s.Places W places g)
    (hk : s.Places W places' k) : s.Places W (fun x => places x.1 ++ places' x.2) (g.seq k) :=
  Ensures.seq hg hk fun _ _ _ _ _ ha hb => List.forall_mem_append.mpr ⟨ha, hb⟩

private theorem many (hg : s.Places W places g) : s.Places W (List.flatMap places) g.many := by
  refine Ensures.many hg (fun _ => List.forall_mem_nil _) fun p m q a as ha has => ?_
  rw [List.flatMap_cons]
  exact List.forall_mem_append.mpr ⟨ha, has⟩

private theorem optional (hg : s.Places W places g) :
    s.Places W (fun o => o.elim [] places) g.optional :=
  Ensures.optional hg fun _ => List.forall_mem_nil _

private theorem required {placeholder : α} (hg : s.Places W places g)
    (hp : ∀ c ∈ places placeholder, W c) : s.Places W places (g.required placeholder) :=
  Ensures.required hg fun _ => hp

/-- The place of a value has the property if those below it do and the property goes up. -/
private theorem node {place : α → Child} (hg : s.Places W (fun a => (place a).children) g)
    (hlift : s.Lifts W place g) : s.Places W (fun a => [place a]) g :=
  fun _ _ _ h => List.forall_mem_singleton.mpr (hlift h (hg h))

end Places

/-- A property of places that every way of building a tree keeps, that of names with wildcards behind a
separator apart. -/
structure Inherited (s : Source) (o : Options) (W : Child → Prop) : Prop where
  token : ∀ t : Token, W (.token (.ofToken t))
  run : s.Ensures (bracketedRun o.multiline) fun _ _ l => W (.token l)
  mark : ∀ k ∈ [Kind.colon, .closeParen, .closeBrace], W (.token (.placeholder k))
  missingType : W (.type (.placeholder .identifier))
  missingReference : ∀ symbols, W (.element (Placeholder.reference symbols).element)
  missingDeclaration : W (.element Placeholder.declaration.element)
  literal : ∀ sort kind, s.Lifts W .element (literalOf sort kind)
  bracketedString : s.Lifts W .element o.bracketedString
  typeName : s.Lifts W .type typeName
  type : s.Lifts W .element type
  boundName : s.Lifts W .declaration identifierName
  anyReference : s.Lifts W .element anyReference
  /-- The qualifier of a path begins with something that was found. -/
  path : ∀ (q : Element) (t : Token) (e : Element),
    (∃ l ls, q.flatten = l :: ls ∧ l.missing = false) → W (.element q) → W (.element e) →
      W (.element (.path q (Leaf.ofToken t).hide e))
  statement : s.Lifts W .statement statement
  function : s.Lifts W .element function
  body : s.Lifts W .element bodyElement
  script : s.Lifts W .element script
  pattern : s.Lifts W (fun l => .declaration (.wildcarded l)) (.kind .wildcardedIdentifier)
  wildcarded : s.Lifts W .element wildcarded
  name : s.Lifts W .declaration (name o.multiline)
  declaration : s.Lifts W .element o.declaration
  reference : ∀ symbols, s.Lifts W .element (o.reference symbols)
  rawText : ∀ p q, W (.element (.token (s.reconstruct .inputText p q)))

/-- A property of places that every way of building a tree keeps. -/
structure Hereditary (s : Source) (o : Options) (W : Child → Prop) : Prop
    extends Inherited s o W where
  qualifiedWildcarded : s.Lifts W .element o.qualifiedWildcarded

theorem ensures_hidden (accepts : Token → Bool) :
    s.Ensures (Grammar.hide (.satisfy accepts)) fun _ _ l => ∃ t, l = (Leaf.ofToken t).hide := by
  refine Ensures.map ((Ensures.satisfy accepts).mono ?_)
  rintro p q l ⟨-, -, -, rfl⟩
  exact ⟨_, rfl⟩

section
variable {o : Options} (h : s.Inherited o W)
include h

private theorem places_satisfy (accepts : Token → Bool) :
    s.Places W (fun l => [.token l]) (.satisfy accepts) := by
  refine (Ensures.satisfy accepts).mono ?_
  rintro p q l ⟨-, -, -, rfl⟩
  exact List.forall_mem_singleton.mpr (h.token _)

private theorem places_requiredKind {k : Kind} (hk : k ∈ [Kind.colon, .closeParen, .closeBrace]) :
    s.Places W (fun l => [.token l]) (requiredKind k) :=
  (places_satisfy h _).required (List.forall_mem_singleton.mpr (h.mark k hk))

private theorem places_identifierName : s.Places W (fun n => n.leaves.map .token) identifierName :=
  (places_satisfy h _).map fun _ => rfl

private theorem places_bracketedName : s.Places W (fun n => n.leaves.map .token) bracketedName :=
  ((places_satisfy h _).seq ((places_satisfy h _).seq (places_satisfy h _))).map fun _ => rfl

private theorem places_run : s.Places W (fun l => [.token l]) (bracketedRun o.multiline) :=
  h.run.mono fun _ _ _ hl => List.forall_mem_singleton.mpr hl

private theorem places_nameIn (forms : List NameForm) :
    s.Places W (fun n => n.leaves.map .token) (nameIn forms o.multiline) := by
  apply Ensures.withLabel
  apply Ensures.first
  intro g hg
  obtain ⟨form, _, rfl⟩ := List.mem_map.mp hg
  cases form with
  | identifier => exact places_identifierName h
  | bracketed => exact places_bracketedName h
  | braced =>
    exact ((places_satisfy h _).seq ((places_satisfy h _).seq (places_satisfy h _))).map
      fun _ => rfl
  | quoted => exact (places_satisfy h _).map fun _ => rfl
  | bracketedString => exact (places_run h).map fun _ => rfl

private theorem places_literalOf (sort : LiteralSort) (kind : Kind) :
    s.Places W (fun e => [.element e]) (literalOf sort kind) :=
  ((places_satisfy h _).map fun _ => rfl).node (h.literal sort kind)

/-- A chain has the property if its first element and all its selectors have it. -/
private theorem chain_of_links {e : Element} (he : W (.element e))
    (hhead : ∃ l ls, e.flatten = l :: ls ∧ l.missing = false) {links : List Link}
    (hlinks : ∀ x ∈ links, (∃ t, x.dot = (Leaf.ofToken t).hide) ∧ W (.element x.selector)) :
    W (.element (e.chain links)) := by
  induction links generalizing e with
  | nil => exact he
  | cons x links ih =>
    obtain ⟨⟨⟨t, hdot⟩, hselector⟩, hrest⟩ := List.forall_mem_cons.mp hlinks
    obtain ⟨l, ls, hl, hpresent⟩ := hhead
    -- the path begins with the same leaf as its qualifier
    have hflatten : (Element.path e x.dot x.selector).flatten =
        l :: (ls ++ x.dot :: x.selector.flatten) := by
      rw [Element.flatten, hl, List.cons_append]
    have hnext : W (.element (.path e x.dot x.selector)) := by
      rw [hdot]
      exact h.path e t x.selector ⟨l, ls, hl, hpresent⟩ he hselector
    exact ih hnext ⟨l, _, hflatten, hpresent⟩ hrest

private theorem places_path {head continuation : Grammar Element} (separator : Text)
    {x : Placeholder} (hx : W (.element x.element)) (ha : s.Anchored Element.flatten head)
    (hhead : s.Places W (fun e => [.element e]) head)
    (hcontinuation : s.Places W (fun e => [.element e]) continuation) :
    s.Places W (fun e => [.element e]) (path head continuation separator x.element) := by
  have hlink : s.Ensures (link continuation separator x.element) fun _ _ l =>
      (∃ t, l.dot = (Leaf.ofToken t).hide) ∧ W (.element l.selector) := by
    refine Ensures.map (Ensures.seq (ensures_hidden _)
      (hcontinuation.required (List.forall_mem_singleton.mpr hx)) ?_)
    intro p m q d e hd he
    exact ⟨hd, List.forall_mem_singleton.mp he⟩
  have hlinks : s.Ensures (link continuation separator x.element).many fun _ _ ls => ∀ l ∈ ls,
      (∃ t, l.dot = (Leaf.ofToken t).hide) ∧ W (.element l.selector) :=
    .many hlink (fun _ => List.forall_mem_nil _) fun _ _ _ _ _ hl hls =>
      List.forall_mem_cons.mpr ⟨hl, hls⟩
  have hfirst : s.Ensures head fun _ _ e =>
      W (.element e) ∧ ∃ l ls, e.flatten = l :: ls ∧ l.missing = false :=
    fun _ _ _ he => ⟨List.forall_mem_singleton.mp (hhead he), (ha he).2⟩
  refine Ensures.map (Ensures.seq hfirst hlinks ?_)
  intro p m q e links he hls
  exact List.forall_mem_singleton.mpr (chain_of_links h he.1 he.2 hls)

private theorem places_literal : s.Places W (fun e => [.element e]) literal := by
  apply Ensures.withLabel
  apply Ensures.first
  intro g hg
  obtain ⟨sort, _, rfl⟩ := List.mem_map.mp hg
  exact places_literalOf h sort _

private theorem places_expression : s.Places W (fun e => [.element e]) expression := by
  have hname : s.Places W (fun n => n.leaves.map .token) (.first [identifierName, bracketedName]) :=
    .either (places_identifierName h) (places_bracketedName h)
  have hreference : s.Places W (fun e => [.element e]) anyReference :=
    Places.node (hname.map fun _ => rfl) h.anyReference
  exact .withLabel _ (.either (places_literal h) (places_path h ['.'] (h.missingReference .any)
    anchored_anyReference hreference hreference))

private theorem places_boundName : s.Places W (fun n => [.declaration n]) identifierName :=
  (places_identifierName h).node h.boundName

private theorem places_statement : s.Places W (fun x => [.statement x]) statement := by
  have hvalue : s.Places W (fun e => [.element e])
      (expression.required Placeholder.expression.element) :=
    (places_expression h).required (List.forall_mem_singleton.mpr (h.missingReference .any))
  have hbinding : s.Places W (fun x => (Child.statement x).children) binding :=
    (((places_satisfy h _).seq (places_boundName h)).seq ((places_satisfy h _).seq hvalue)).map
      fun _ => rfl
  have hexpression : s.Places W (fun x => (Child.statement x).children)
      (expression.map .expression) :=
    (places_expression h).map fun _ => rfl
  exact Places.node (.either hbinding hexpression) h.statement

private theorem places_typeName : s.Places W (fun l => [.type l]) typeName :=
  Places.node (places_satisfy h _) h.typeName

private theorem places_type : s.Places W (fun e => [.element e]) type :=
  Places.node (.withLabel _ ((places_typeName h).map fun _ => rfl)) h.type

private theorem places_parameters : s.Places W ofParameters parameters := by
  have htype : s.Places W (fun l => [.type l]) (typeName.required (.placeholder .identifier)) :=
    (places_typeName h).required (List.forall_mem_singleton.mpr h.missingType)
  have hone : s.Places W ofSingle parameter :=
    ((places_boundName h).seq ((places_requiredKind h (by decide)).seq htype)).map fun _ => rfl
  have hlist : s.Places W (List.flatMap ofParameter) parameterList := by
    refine (hone.seq ((places_satisfy h _).seq hone).many).optional.map fun x => ?_
    cases x with
    | none => rfl
    | some x => exact ofParameter_attachSeparators x.1 x.2
  exact .withLabel _ (((places_satisfy h _).seq
    (hlist.seq (places_requiredKind h (by decide)))).map fun _ => rfl)

private theorem places_body : s.Places W ofBody body := by
  have hclosed : s.Places W ofStatements closedStatements := by
    refine ((places_statement h).seq (places_satisfy h _)).many.map fun ss => ?_
    rw [ofStatements_ofList, List.flatMap_map]
    rfl
  refine .withLabel _ (((places_satisfy h _).seq ((hclosed.seq ((places_expression h).optional.seq
    (places_satisfy h _).optional)).seq (places_requiredKind h (by decide)))).map fun x => ?_)
  obtain ⟨o, ⟨ss, v, semi⟩, c⟩ := x
  cases v <;> cases semi <;>
    simp [ofBody, Body.opening, Body.statements, Body.value, Body.semicolon, Body.closing,
      Yield.ofOption, Yield.toOption]

private theorem places_function : s.Places W (fun e => [.element e]) function :=
  Places.node (.withLabel _ (((places_parameters h).seq (places_body h)).map fun _ => rfl))
    h.function

private theorem places_bodyElement : s.Places W (fun e => [.element e]) bodyElement :=
  Places.node (.withLabel _ ((places_body h).map fun _ => rfl)) h.body

private theorem places_script : s.Places W (fun e => [.element e]) script := by
  refine Places.node (((places_statement h).seq (places_satisfy h _).optional).many.map
    fun ss => ?_) h.script
  rw [children, ofStatements_ofList, List.flatMap_map]
  congr 1
  funext x
  obtain ⟨x, sep⟩ := x
  cases sep with
  | none => rfl
  | some l => rfl

theorem places_wildcarded : s.Places W (fun e => [.element e]) wildcarded := by
  have hpattern : s.Places W (fun l => [.declaration (.wildcarded l)])
      (.kind .wildcardedIdentifier) :=
    Places.node (places_satisfy h _) h.pattern
  exact Places.node (.withLabel _ (hpattern.map fun _ => rfl)) h.wildcarded

private theorem places_bracketedString : s.Places W (fun e => [.element e]) o.bracketedString :=
  Places.node (.withLabel _ ((places_run h).map fun _ => rfl)) h.bracketedString

theorem places_declaration : s.Places W (fun e => [.element e]) o.declaration := by
  have hname : s.Places W (fun n => [.declaration n]) (Fragment.name o.multiline) :=
    Places.node (places_nameIn h _) h.name
  exact Places.node (.withLabel _ (hname.map fun _ => rfl)) h.declaration

private theorem places_reference (symbols : SymbolSet) :
    s.Places W (fun e => [.element e]) (o.reference symbols) :=
  Places.node (.withLabel _ (.withHint _ ((places_nameIn h _).map fun _ => rfl)))
    (h.reference symbols)

private theorem places_qualifiedName : s.Places W (fun e => [.element e]) o.qualifiedName :=
  .withLabel _ (places_path h _ h.missingDeclaration (anchored_declaration o)
    (places_declaration h) (places_declaration h))

private theorem places_referencePath (head rest : SymbolSet) (label : String) :
    s.Places W (fun e => [.element e]) (o.referencePath head rest label) :=
  .withLabel _ (places_path h _ (h.missingReference rest) (anchored_reference o head)
    (places_reference h head) (places_reference h rest))

private theorem places_wildcardedOrName : s.Places W (fun e => [.element e]) o.wildcardedOrName :=
  .either (places_wildcarded h) (places_declaration h)

omit h in
private theorem places_raw (hraw : ∀ p q, W (.element (.token (s.reconstruct .inputText p q))))
    {α : Type} (g : Grammar α) (label : String) :
    s.Places W (fun e => [.element e])
      (((captured .inputText g).map Element.token).withLabel label) := by
  refine (ensures_raw g label).mono ?_
  rintro p q e rfl
  exact List.forall_mem_singleton.mpr (hraw p q)

/-- The tree that a rule returns has the property, unless it may be a name with wildcards behind a
separator. -/
theorem Inherited.ensures {r : Rule} (hr : r ≠ .qualifiedWildcardedName) :
    s.Ensures (o.rules.grammar r) fun _ _ e => W (.element e) := by
  suffices hplaces : s.Places W (fun e => [.element e]) (o.rules.grammar r) from
    hplaces.mono fun _ _ _ he => List.forall_mem_singleton.mp he
  have hguid : s.Places W (fun e => [.element e]) guid := .withLabel _ (places_literalOf h _ _)
  have hrawGuid : s.Places W (fun e => [.element e]) rawGuid := .withLabel _ (places_literalOf h _ _)
  have hstring : s.Places W (fun e => [.element e]) string := .withLabel _ (places_literalOf h _ _)
  cases r with
  | rawGuidLiteral => exact hrawGuid
  | guidLiteral => exact hguid
  | stringLiteral => exact hstring
  | guidOrString => exact .orElse hguid (.either hstring hrawGuid)
  | bracketedStringLiteral => exact places_bracketedString h
  | value => exact .withLabel _ (.orElse hguid (.either hrawGuid (places_literal h)))
  | type => exact places_type h
  | nameDeclaration => exact places_declaration h
  | qualifiedName => exact places_qualifiedName h
  | databaseTablePath => exact places_referencePath h _ _ _
  | databaseTableColumnPath => exact places_referencePath h _ _ _
  | tableColumnPath => exact places_referencePath h _ _ _
  | wildcardedName => exact places_wildcarded h
  | qualifiedWildcardedName => exact absurd rfl hr
  | functionDeclaration => exact places_function h
  | functionBody => exact places_bodyElement h
  | queryInput => exact places_expression h
  | scriptInput => exact places_script h
  | inputText => exact places_raw h.rawText Grammar.anyToken.many "<input_text>"
  | bracketedInputText =>
    exact places_raw h.rawText (Grammar.notText [[']']]).many "<input_text>"
  | _ => exact places_reference h _

end

namespace Hereditary
variable {o : Options}

private theorem places_wildcardedPath (h : s.Hereditary o W) :
    s.Places W (fun e => [.element e]) o.wildcardedPath := by
  have hname := places_wildcardedOrName h.toInherited
  have hqualified : s.Places W (fun e => [.element e]) o.qualifiedWildcarded :=
    (((places_declaration h.toInherited).seq ((places_satisfy h.toInherited _).seq hname)).map
      fun _ => rfl).node h.qualifiedWildcarded
  exact .withLabel _ (.either (.guarded hqualified) hname)

/-- The tree that a rule returns has the property. -/
theorem ensures (h : s.Hereditary o W) (r : Rule) :
    s.Ensures (o.rules.grammar r) fun _ _ e => W (.element e) := by
  by_cases hr : r = .qualifiedWildcardedName
  · subst hr
    exact h.places_wildcardedPath.mono fun _ _ _ he => List.forall_mem_singleton.mp he
  · exact h.toInherited.ensures hr

end Hereditary

private theorem hidden_reconstruct (s : Source) (k : Kind) (p q : Nat) :
    (s.reconstruct k p q).hidden = false := by
  rw [reconstruct]
  cases s.slice p q with
  | nil => rfl
  | cons t ts => rfl

/-- A property of the usual places and of leaves is kept if paths, functions and bodies keep it too. -/
theorem inherited_of_usual {o : Options} (leaf : ∀ l : Leaf, l.hidden = false → W (.token l))
    (usual : ∀ c : Child, c.isUsual = true → (∀ d ∈ c.children, W d) → W c)
    (path : ∀ q d e, d.hidden = true → W (.element q) → W (.element e) → W (.element (.path q d e)))
    (hfunction : s.Lifts W .element function) (hbody : s.Lifts W .element bodyElement) :
    s.Inherited o W := by
  have hlifts {α : Type} {g : Grammar α} {place : α → Child}
      (hg : s.Ensures g fun _ _ a => (place a).isUsual = true) : s.Lifts W place g :=
    fun _ _ _ h => usual _ (hg h)
  have hone {l : Leaf} (hl : l.hidden = false) : ∀ d ∈ [Child.token l], W d :=
    List.forall_mem_singleton.mpr (leaf l hl)
  have hrun : s.Ensures (bracketedRun o.multiline) fun _ _ l => W (.token l) := by
    refine .withLabel _ ((ensures_captured (P := fun _ _ => True) (.any _)).mono ?_)
    rintro p q l ⟨-, rfl⟩
    exact leaf _ (hidden_reconstruct s _ p q)
  exact {
    token := fun t => leaf _ rfl
    run := hrun
    mark := fun k _ => leaf _ rfl
    missingType := usual _ rfl (hone rfl)
    missingReference := fun symbols => usual _ rfl (hone rfl)
    missingDeclaration := usual _ rfl (List.forall_mem_singleton.mpr (usual _ rfl (hone rfl)))
    literal := fun sort kind => hlifts (.map fun _ _ _ _ => rfl)
    bracketedString := hlifts (.withLabel _ (.map fun _ _ _ _ => rfl))
    typeName := hlifts fun _ _ _ _ => rfl
    type := hlifts (.withLabel _ (.map fun _ _ _ _ => rfl))
    boundName := hlifts fun _ _ _ _ => rfl
    anyReference := hlifts (.map fun _ _ _ _ => rfl)
    path := fun q t e _ hq he => path q _ e rfl hq he
    statement := hlifts fun _ _ _ _ => rfl
    function := hfunction
    body := hbody
    script := hlifts (.map fun _ _ _ _ => rfl)
    pattern := hlifts fun _ _ _ _ => rfl
    wildcarded := hlifts (.withLabel _ (.map fun _ _ _ _ => rfl))
    name := hlifts fun _ _ _ _ => rfl
    declaration := hlifts (.withLabel _ (.map fun _ _ _ _ => rfl))
    reference := fun symbols => hlifts (.withLabel _ (.withHint _ (.map fun _ _ _ _ => rfl)))
    rawText := fun p q => usual _ rfl (hone (hidden_reconstruct s _ p q)) }

end Source
end CommandGrammar
