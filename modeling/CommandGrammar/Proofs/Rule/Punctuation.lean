import CommandGrammar.Proofs.Phrase.Start
import CommandGrammar.Proofs.Rule.Places
import CommandGrammar.Proofs.Rule.Tolerance
import CommandGrammar.Proofs.Tree.Everywhere
import CommandGrammar.Proofs.Tree.Walk

/-! Separators of parameters and statements. A body takes every statement that a semicolon closes, so that
what it yields has none behind it, and a semicolon of its own closes nothing. -/
namespace CommandGrammar

/-- A leaf is a token of the given kind. -/
def Leaf.IsMark (s : Source) (k : Kind) (l : Leaf) : Prop :=
  ∃ i, (s.peek i).kind = k ∧ l = .ofToken (s.peek i)

/-- An entry has a token of the given kind behind it. -/
def Separated.ClosedBy {α : Type} (s : Source) (k : Kind) (x : Separated α) : Prop :=
  ∃ l : Leaf, l.IsMark s k ∧ x.separator = some l

/-- Every entry but the last has a token of the given kind behind it. -/
structure SeparatedBy {α : Type} (s : Source) (k : Kind) (xs : List (Separated α)) : Prop where
  init : ∀ x ∈ xs.dropLast, x.ClosedBy s k
  last : ∀ x ∈ xs.getLast?, x.separator = none

namespace Source
open Fragment

/-- Statements one behind the other from one position to another, each with the semicolon behind it if there
is one. -/
inductive Scripted (s : Source) : Nat → List (Separated Statement) → Nat → Prop
  | done (p : Nat) : Scripted s p [] p
  | closed {p m q : Nat} {x : Statement} {xs : List (Separated Statement)}
      (head : s.parse statement p = some (x, m)) (mark : (s.peek m).kind = .semicolon)
      (tail : Scripted s (m + 1) xs q) : Scripted s p (⟨x, some (.ofToken (s.peek m))⟩ :: xs) q
  | unclosed {p m q : Nat} {x : Statement} {xs : List (Separated Statement)}
      (head : s.parse statement p = some (x, m)) (mark : (s.peek m).kind ≠ .semicolon)
      (tail : Scripted s m xs q) : Scripted s p (⟨x, none⟩ :: xs) q

/-- No statement that begins at a position has a semicolon behind it. -/
def Unclosed (s : Source) (p : Nat) : Prop :=
  ∀ ⦃x n⦄, s.parse statement p = some (x, n) → (s.peek n).kind ≠ .semicolon

/-- A body has a value or a semicolon, or neither, where its statements end. -/
structure Ending (s : Source) (p : Nat) (v : Yield) (semicolon : Option Leaf) : Prop where
  exclusive : v = .nothing ∨ semicolon = none
  /-- A semicolon behind the value would have made a statement of it. -/
  value : ∀ e, v = .value e →
    ∃ q, s.parse expression p = some (e, q) ∧ (s.peek q).kind ≠ .semicolon
  /-- No statement begins at a semicolon that stands alone. -/
  stray : ∀ l ∈ semicolon, l = .ofToken (s.peek p) ∧ (s.peek p).kind = .semicolon ∧
    s.parse statement p = none

end Source

/-- A body begins at the token `p`, and its statements, each with a semicolon behind it, end at `m`. -/
structure Body.Punctuated (s : Source) (p m : Nat) (b : Body) : Prop where
  opening : b.opening = .ofToken (s.peek p)
  run : s.Scripted (p + 1) b.statements.toList m
  statements : ∀ x ∈ b.statements.toList, x.ClosedBy s .semicolon
  ending : s.Ending m b.value b.semicolon

namespace Child

def parameters? : Child → Option Parameters
  | .element (.parameters p) => some p
  | .element (.function p _) => some p
  | _ => none

def body? : Child → Option Body
  | .element (.body b) => some b
  | .element (.function _ b) => some b
  | _ => none

/-- The parameters and the body that stand at a place have their separators. -/
structure Punctuated (s : Source) (c : Child) : Prop where
  parameters : ∀ p ∈ c.parameters?, SeparatedBy s .comma p.list
  body : ∀ b ∈ c.body?, ∃ p m, b.Punctuated s p m

private theorem punctuated_of_none (s : Source) {c : Child} (hp : c.parameters? = none)
    (hb : c.body? = none) : c.Punctuated s where
  parameters p h := by
    rw [hp] at h
    cases h
  body b h := by
    rw [hb] at h
    cases h

private theorem punctuated_of_isUsual (s : Source) {c : Child} (h : c.isUsual = true) :
    c.Punctuated s := by
  cases c with
  | element e =>
    cases e with
    | parameters => cases h
    | body => cases h
    | function => cases h
    | _ => exact punctuated_of_none s rfl rfl
  | _ => exact punctuated_of_none s rfl rfl

end Child

/-- Attached separators stand between the entries. -/
private theorem Fragment.separatedBy_attachSeparators {α : Type} {s : Source} {k : Kind} (head : α)
    {rest : List (Leaf × α)} (h : ∀ x ∈ rest, x.1.IsMark s k) :
    SeparatedBy s k (attachSeparators head rest) := by
  induction rest generalizing head with
  | nil =>
    refine ⟨List.forall_mem_nil _, fun x hx => ?_⟩
    cases hx
    rfl
  | cons y rest ih =>
    obtain ⟨sep, next⟩ := y
    obtain ⟨hsep, hrest⟩ := List.forall_mem_cons.mp h
    obtain ⟨hinit, hlast⟩ := ih next hrest
    have hne : attachSeparators next rest ≠ [] := by
      cases rest with
      | nil => exact nofun
      | cons => exact nofun
    constructor
    · rw [attachSeparators, List.dropLast_cons_of_ne_nil hne]
      exact List.forall_mem_cons.mpr ⟨⟨sep, hsep, rfl⟩, hinit⟩
    · rw [attachSeparators, List.getLast?_cons_of_ne_nil hne]
      exact hlast

namespace Source
open Fragment
variable {text : Text} {s : Source} {p q : Nat}

/-- An optional mark is taken where it stands. -/
private theorem ensures_optional_kind {k : Kind} (hk : k ≠ .endOfText) :
    s.Ensures (Grammar.kind k).optional fun p q o =>
      ((s.peek p).kind = k ∧ o = some (.ofToken (s.peek p)) ∧ q = p + 1) ∨
        ((s.peek p).kind ≠ k ∧ o = none ∧ q = p) := by
  intro p q o h
  rw [parse_optional, parse_kind hk] at h
  split at h
  · next hp =>
    cases h
    exact .inl ⟨hp, rfl, rfl⟩
  · next hp =>
    cases h
    exact .inr ⟨hp, rfl, rfl⟩

/-- A repetition of entries that are closed by a mark ends before an entry that has no such mark. -/
private theorem not_closed_of_stops {α : Type} {g : Grammar α} {k : Kind} (hk : k ≠ .endOfText)
    {as : List (α × Leaf)} (h : s.parse (g.seq (.kind k)).many p = some (as, q)) {a : α} {n : Nat}
    (ha : s.parse g q = some (a, n)) : (s.peek n).kind ≠ k := by
  intro hn
  have hclosed : s.parse (g.seq (.kind k)) q = some ((a, .ofToken (s.peek n)), n + 1) := by
    simp only [parse_seq, ha, Option.bind_some, parse_kind hk, if_pos hn, Option.map_some]
  have hle := parse_le ha
  have hrests := parse_many_rests h hclosed
  omega

private theorem ensures_mark (k : Kind) : s.Ensures (.kind k) fun _ _ l => l.IsMark s k := by
  refine (Ensures.satisfy _).mono ?_
  rintro p q l ⟨-, hkind, -, rfl⟩
  exact ⟨p, eq_of_beq hkind, rfl⟩

/-- The statements that are each closed by a semicolon go on as long as there is one more. -/
private theorem ensures_closedStatements :
    s.Ensures closedStatements fun p q ss => s.Scripted p ss.toList q ∧
      (∀ x ∈ ss.toList, x.ClosedBy s .semicolon) ∧ s.Unclosed q := by
  have hone : s.Ensures (statement.seq (.kind .semicolon)) fun p q x => ∃ m,
      s.parse statement p = some (x.1, m) ∧ (s.peek m).kind = .semicolon ∧
        x.2 = .ofToken (s.peek m) ∧ q = m + 1 := by
    refine .seq (fun _ _ _ h => h) (Ensures.satisfy _) ?_
    rintro p m q x l hx ⟨-, hkind, rfl, rfl⟩
    exact ⟨m, hx, eq_of_beq hkind, rfl, rfl⟩
  have hmany : s.Ensures (statement.seq (.kind .semicolon)).many fun p q xs =>
      s.Scripted p (xs.map fun x => ⟨x.1, some x.2⟩) q ∧ ∀ x ∈ xs, x.2.IsMark s .semicolon := by
    refine .many hone (fun p => ⟨.done p, List.forall_mem_nil _⟩) ?_
    rintro p m q ⟨x, sep⟩ xs ⟨n, hx, hkind, rfl, rfl⟩ ⟨hxs, hmarks⟩
    exact ⟨.closed hx hkind hxs, List.forall_mem_cons.mpr ⟨⟨n, hkind, rfl⟩, hmarks⟩⟩
  refine .map fun p q xs h => ?_
  obtain ⟨hscript, hmarks⟩ := hmany h
  rw [Statements.toList_ofList]
  refine ⟨hscript, fun y hy => ?_, fun x n hx => not_closed_of_stops (k := .semicolon) nofun h hx⟩
  obtain ⟨x, hx, rfl⟩ := List.mem_map.mp hy
  exact ⟨x.2, hmarks x hx, rfl⟩

private theorem ensures_parameters_separatedBy :
    s.Ensures parameters fun _ _ ps => SeparatedBy s .comma ps.list := by
  have hone : s.Ensures ((Grammar.kind .comma).seq parameter) fun _ _ x => x.1.IsMark s .comma :=
    .seq (ensures_mark _) (.any _) fun _ _ _ _ _ h _ => h
  have hmany : s.Ensures ((Grammar.kind .comma).seq parameter).many fun _ _ xs =>
      ∀ x ∈ xs, x.1.IsMark s .comma :=
    .many hone (fun _ => List.forall_mem_nil _) fun _ _ _ _ _ hx hxs =>
      List.forall_mem_cons.mpr ⟨hx, hxs⟩
  have hseparated : s.Ensures (Grammar.separated parameter (.kind .comma)) fun _ _ o =>
      ∀ x ∈ o, ∀ y ∈ x.2, y.1.IsMark s .comma := by
    refine .optional (.seq (.any _) hmany ?_) fun _ x hx => (Option.not_mem_none x hx).elim
    rintro p m q head rest - hrest x hx
    cases hx
    exact hrest
  have hlist : s.Ensures parameterList fun _ _ xs => SeparatedBy s .comma xs := by
    refine .map (hseparated.mono fun p q o h => ?_)
    cases o with
    | none => exact ⟨List.forall_mem_nil _, fun x hx => (Option.not_mem_none x hx).elim⟩
    | some x => exact separatedBy_attachSeparators x.1 (h x rfl)
  have hinside : s.Ensures (parameterList.seq (requiredKind .closeParen)) fun _ _ x =>
      SeparatedBy s .comma x.1 := .seq hlist (.any _) fun _ _ _ _ _ h _ => h
  exact .withLabel _ (.map (.seq (.any _) hinside fun _ _ _ _ _ _ h => h))

namespace Lexed

/-- Behind a name that an expression begins with there is a dot, unless the expression ends there. -/
private theorem ensures_expression_second (hs : Lexed text s) :
    s.Ensures expression fun p q _ => (s.peek p).kind.isIdentifierLike = true →
      q = p + 1 ∨ (s.peek (p + 1)).kind = .dot := by
  have hliteral : s.Ensures literal fun p q _ => (s.peek p).kind.isIdentifierLike = true →
      q = p + 1 ∨ (s.peek (p + 1)).kind = .dot :=
    ensures_literal.mono fun p q e h _ => .inl h.1
  have hname : s.Ensures identifierName fun p q _ =>
      (s.peek p).kind.isIdentifierLike = true → q = p + 1 :=
    ensures_identifierName.mono fun p q n h _ => h.1
  have hbracketed : s.Ensures bracketedName fun p q _ =>
      (s.peek p).kind.isIdentifierLike = true → q = p + 1 := by
    have hopening : s.Ensures bracketedName fun p _ _ => (s.peek p).kind = .openBracket :=
      .map (.seq_start ((hs.ensures_text rfl).mono fun _ _ _ h => h.2))
    refine hopening.mono fun p q n h hlike => ?_
    rw [h] at hlike
    cases hlike
  have hreference : s.Ensures anyReference fun p q _ =>
      (s.peek p).kind.isIdentifierLike = true → q = p + 1 :=
    .map (.either hname hbracketed)
  have hlinks : s.Ensures (link anyReference ['.'] (Placeholder.reference .any).element).many
      fun p q _ => q = p ∨ (s.peek p).kind = .dot := by
    have hlink : s.Ensures (link anyReference ['.'] (Placeholder.reference .any).element)
        fun p _ _ => (s.peek p).kind = .dot :=
      .map (.seq_start (.map ((hs.ensures_text rfl).mono fun _ _ _ h => h.2)))
    exact .many hlink (fun _ => .inl rfl) fun _ _ _ _ _ h _ => .inr h
  refine .withLabel _ (.either hliteral (.map (.seq hreference hlinks ?_)))
  intro p m q e links hm hq hlike
  obtain rfl := hm hlike
  exact hq

/-- An expression with a semicolon behind it is a statement: a binding would go on with a name. -/
private theorem parse_statement_of_expression (hs : Lexed text s) {e : Element}
    (h : s.parse expression p = some (e, q)) (hq : (s.peek q).kind = .semicolon) :
    s.parse statement p = some (.expression e, q) := by
  have hbinding : s.parse binding p = none := by
    refine hs.ensures_binding_kind.parse_eq_none ?_
    rintro n x ⟨hlet, hname, -⟩
    have hlike : (s.peek p).kind.isIdentifierLike = true := by
      rw [hlet]
      rfl
    -- behind `let` the expression has its semicolon or a dot, and no name
    rcases hs.ensures_expression_second h hlike with rfl | hdot
    · rw [hq] at hname
      cases hname
    · rw [hdot] at hname
      cases hname
  rw [statement, Grammar.first, parse_orElse, hbinding, Option.none_or, Grammar.first, parse_orElse,
    parse_map, h, Option.map_some, Option.some_or]

/-- Behind all statements that a semicolon closes there is a value without one, a semicolon that no statement
begins with, or neither. -/
private theorem ensures_ending (hs : Lexed text s) :
    s.Ensures (expression.optional.seq (Grammar.kind .semicolon).optional) fun m _ x =>
      s.Unclosed m → s.Ending m (.ofOption x.1) x.2 := by
  have hvalue : s.Ensures expression.optional fun m n v =>
      (v = none ∧ n = m) ∨ ∃ e, v = some e ∧ s.parse expression m = some (e, n) :=
    .optional (fun _ _ e h => .inr ⟨e, rfl, h⟩) fun _ => .inl ⟨rfl, rfl⟩
  refine .seq hvalue (ensures_optional_kind nofun) ?_
  rintro m n q v semi (⟨rfl, rfl⟩ | ⟨e, rfl, he⟩) (⟨hsemi, rfl, -⟩ | ⟨hsemi, rfl, -⟩) hunclosed
  · have hnone : s.parse statement n = none := by
      refine hs.ensures_statement_kind.parse_eq_none fun _ _ hmem => ?_
      exact Phrase.ne_of_mem_starters hmem (by decide) hsemi
    refine ⟨.inl rfl, nofun, fun l hl => ?_⟩
    cases hl
    exact ⟨rfl, hsemi, hnone⟩
  · exact ⟨.inl rfl, nofun, nofun⟩
  · -- the loop over the statements would have taken the value
    exact absurd hsemi (hunclosed (hs.parse_statement_of_expression he hsemi))
  · refine ⟨.inr rfl, fun e' he' => ?_, nofun⟩
    cases he'
    exact ⟨n, he, hsemi⟩

private theorem ensures_body_punctuated (hs : Lexed text s) :
    s.Ensures body fun p _ b => ∃ m, b.Punctuated s p m := by
  have hcontent : s.Ensures
      (.seq3 closedStatements expression.optional (Grammar.kind .semicolon).optional) fun p _ x =>
      ∃ m, s.Scripted p x.1.toList m ∧ (∀ y ∈ x.1.toList, y.ClosedBy s .semicolon) ∧
        s.Ending m (.ofOption x.2.1) x.2.2 := by
    refine .seq ensures_closedStatements hs.ensures_ending ?_
    rintro p m q ss x ⟨hscript, hclosed, hunclosed⟩ hending
    exact ⟨m, hscript, hclosed, hending hunclosed⟩
  have hrest : s.Ensures
      (.seq (.seq3 closedStatements expression.optional (Grammar.kind .semicolon).optional)
        (requiredKind .closeBrace)) fun p _ x =>
      ∃ m, s.Scripted p x.1.1.toList m ∧ (∀ y ∈ x.1.1.toList, y.ClosedBy s .semicolon) ∧
        s.Ending m (.ofOption x.1.2.1) x.1.2.2 :=
    .seq hcontent (.any _) fun _ _ _ _ _ h _ => h
  refine .withLabel _ (.map (.seq (Ensures.satisfy _) hrest ?_))
  rintro p _ q opening x ⟨-, -, rfl, rfl⟩ ⟨m, hscript, hclosed, hending⟩
  exact ⟨m, rfl, hscript, hclosed, hending⟩

private theorem ensures_function_punctuated (hs : Lexed text s) :
    s.Ensures function fun _ _ e => (Child.element e).Punctuated s := by
  refine .withLabel _ (.map (.seq ensures_parameters_separatedBy hs.ensures_body_punctuated ?_))
  intro p m q ps b hps hb
  constructor
  · intro ps' h
    cases h
    exact hps
  · intro b' h
    cases h
    exact ⟨m, hb⟩

private theorem ensures_bodyElement_punctuated (hs : Lexed text s) :
    s.Ensures bodyElement fun _ _ e => (Child.element e).Punctuated s := by
  refine .withLabel _ (.map (hs.ensures_body_punctuated.mono fun p q b hb => ?_))
  constructor
  · intro ps h
    cases h
  · intro b' h
    cases h
    exact ⟨p, hb⟩

/-- The functions and bodies of a tree have their separators. -/
theorem hereditary_punctuated (hs : Lexed text s) (o : Options) :
    s.Hereditary o (Child.Everywhere (Child.Punctuated s)) := by
  have hpath (q : Element) (d : Leaf) (e : Element) :
      (Child.element (.path q d e)).Punctuated s := Child.punctuated_of_none s rfl rfl
  have hleaf (l : Leaf) : Child.Everywhere (Child.Punctuated s) (.token l) :=
    .node (Child.punctuated_of_none s rfl rfl) (List.forall_mem_nil _)
  have hinherited : s.Inherited o (Child.Everywhere (Child.Punctuated s)) := by
    refine inherited_of_usual (fun l _ => hleaf l) (fun c hc => ?_) (fun q d e _ hq he => ?_)
      (fun _ _ _ h => .node (hs.ensures_function_punctuated h))
      (fun _ _ _ h => .node (hs.ensures_bodyElement_punctuated h))
    · exact .node (Child.punctuated_of_isUsual s hc)
    · refine .node (hpath q d e) ?_
      simp only [Child.children, List.forall_mem_cons]
      exact ⟨hq, hleaf d, he, List.forall_mem_nil _⟩
  have hqualified : s.Ensures o.qualifiedWildcarded fun _ _ e => (Child.element e).Punctuated s :=
    .map fun _ _ x _ => hpath x.1 x.2.1 x.2.2
  exact ⟨hinherited, fun _ _ _ h => .node (hqualified h)⟩

end Lexed

private theorem ensures_script :
    s.Ensures script fun p q e =>
      ∃ xs, e = .script (.ofList xs) ∧ s.Scripted p xs q ∧ s.parse statement q = none := by
  have hone : s.Ensures (statement.seq (Grammar.kind .semicolon).optional) fun p q x =>
      ∃ m, s.parse statement p = some (x.1, m) ∧
        (((s.peek m).kind = .semicolon ∧ x.2 = some (.ofToken (s.peek m)) ∧ q = m + 1) ∨
          ((s.peek m).kind ≠ .semicolon ∧ x.2 = none ∧ q = m)) :=
    .seq (fun _ _ _ h => h) (ensures_optional_kind nofun) fun _ m _ _ _ hx hsep => ⟨m, hx, hsep⟩
  have hmany : s.Ensures (statement.seq (Grammar.kind .semicolon).optional).many fun p q xs =>
      s.Scripted p (xs.map fun x => ⟨x.1, x.2⟩) q := by
    refine .many hone (fun p => .done p) ?_
    rintro p m q ⟨x, sep⟩ xs ⟨n, hx, ⟨hmark, rfl, rfl⟩ | ⟨hmark, rfl, rfl⟩⟩ hxs
    · exact .closed hx hmark hxs
    · exact .unclosed hx hmark hxs
  refine .map fun p q xs h => ⟨_, rfl, hmany h, ?_⟩
  rw [Option.eq_none_iff_forall_ne_some]
  rintro ⟨x, n⟩ hx
  have hlt : q < n := anchored_statement.lt hx
  -- the semicolon is optional, so that the repetition would have gone on
  obtain ⟨⟨sep, r⟩, hsep⟩ := Option.isSome_iff_exists.mp
    (Grammar.Unfailing.optional (Grammar.kind .semicolon) s n)
  have hnext : s.parse (statement.seq (Grammar.kind .semicolon).optional) q =
      some ((x, sep), r) := by
    simp only [parse_seq, hx, hsep, Option.bind_some, Option.map_some]
  have hle := parse_le hsep
  have hrests := parse_many_rests h hnext
  omega

/-- Commas separate the parameters of every function that a rule returns, and semicolons close the statements
of every body, which has a value or a semicolon of its own but not both. A script goes on as long as
statements do, and a statement in it has no separator only where there is no semicolon behind it. -/
theorem separators_placed (text : Text) (o : Options) :
    (∀ r p q e, (ofText text).parse (o.rules.grammar r) p = some (e, q) → ∀ x ∈ e.outline,
      (∀ ps ∈ x.2.parameters?, SeparatedBy (ofText text) .comma ps.list) ∧
        ∀ b ∈ x.2.body?, ∃ m n, b.Punctuated (ofText text) m n) ∧
    ∀ p, ∃ q xs,
      (ofText text).parse (o.rules.grammar .scriptInput) p = some (.script (.ofList xs), q) ∧
        (ofText text).Scripted p xs q ∧ (ofText text).parse statement q = none := by
  refine ⟨fun r p q e h x hx => ?_, fun p => ?_⟩
  · have hplace := Child.forall_mem_outline
      (((lexed_ofText text).hereditary_punctuated o).ensures r h) x hx
    exact ⟨hplace.parameters, hplace.body⟩
  · obtain ⟨⟨e, q⟩, h⟩ := Option.isSome_iff_exists.mp (Grammar.unfailing_script (ofText text) p)
    obtain ⟨xs, rfl, hscript, hstop⟩ := ensures_script h
    exact ⟨q, xs, h, hscript, hstop⟩

/-- A function with two statements, of which the second is a binding that no semicolon closes. -/
def openBinding : Text := "(a:int,b:long)\x7by;let x=1".toList

def openBindingParameters : Parameters where
  opening := ⟨.openParen, [], ['('], 0, false, false⟩
  list :=
    [⟨⟨.plain ⟨.identifier, [], ['a'], 1, false, false⟩, ⟨.colon, [], [':'], 2, false, false⟩,
        ⟨.identifier, [], ['i', 'n', 't'], 3, false, false⟩⟩,
      some ⟨.comma, [], [','], 6, false, false⟩⟩,
     ⟨⟨.plain ⟨.identifier, [], ['b'], 7, false, false⟩, ⟨.colon, [], [':'], 8, false, false⟩,
        ⟨.identifier, [], ['l', 'o', 'n', 'g'], 9, false, false⟩⟩, none⟩]
  closing := ⟨.closeParen, [], [')'], 13, false, false⟩

/-- The keyword of the binding is read again as the name that the body yields. -/
def openBindingBody : Body :=
  .mk ⟨.openBrace, [], ['{'], 14, false, false⟩
    (.cons (.expression (.reference (.plain ⟨.identifier, [], ['y'], 15, false, false⟩) .any))
      (some ⟨.semicolon, [], [';'], 16, false, false⟩) .nil)
    (.value (.reference (.plain ⟨.letKeyword, [], ['l', 'e', 't'], 17, false, false⟩) .any)) none
    (.placeholder .closeBrace)

theorem separators_openBinding :
    (ofText openBinding).parse (RuleSet.standard.grammar .functionDeclaration) 0 =
        some (.function openBindingParameters openBindingBody, 13) ∧
      SeparatedBy (ofText openBinding) .comma openBindingParameters.list ∧
      (∃ m n, openBindingBody.Punctuated (ofText openBinding) m n) ∧
      ∃ q xs, (ofText openBinding).parse (RuleSet.standard.grammar .scriptInput) 10 =
        some (.script (.ofList xs), q) ∧ (ofText openBinding).Scripted 10 xs q := by
  obtain ⟨hfunction, hscript⟩ := separators_placed openBinding {}
  have h : (ofText openBinding).parse (RuleSet.standard.grammar .functionDeclaration) 0 =
      some (.function openBindingParameters openBindingBody, 13) := by decide +kernel
  obtain ⟨hparameters, hbody⟩ := hfunction .functionDeclaration 0 13 _ h
    (0, .element (.function openBindingParameters openBindingBody)) (by decide +kernel)
  obtain ⟨q, xs, hparse, hxs, -⟩ := hscript 10
  exact ⟨h, hparameters _ rfl, hbody _ rfl, q, xs, hparse, hxs⟩

end Source
end CommandGrammar
