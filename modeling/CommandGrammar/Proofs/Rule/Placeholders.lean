import CommandGrammar.Proofs.Rule.Places
import CommandGrammar.Proofs.Tree.Sparse

/-! What a rule makes up are single leaves, each of them behind something that was found: the trees of
all rules are sparse. -/
namespace CommandGrammar.Source
open Fragment Child
variable {s : Source}

private theorem sparse_reference (symbols : SymbolSet) :
    Sparse (.element (Placeholder.reference symbols).element) := by
  have hcode : Diagnostic.Code.missingReference ∈ Diagnostic.Code.recovered := by decide
  exact .lone rfl rfl hcode

private theorem sparse_declaration : Sparse (.element Placeholder.declaration.element) :=
  .lone rfl rfl (by decide)

/-- What is made up for a mark is reported as a delimiter. -/
private theorem sparse_mark {k : Kind} (hk : k ∈ [Kind.colon, .closeParen, .closeBrace]) :
    Sparse (.token (.placeholder k)) := by
  refine .lone rfl rfl ?_
  revert k
  decide

/-- Raw text is a leaf that is there, and so is everything below it. -/
private theorem sparse_raw (s : Source) (p q : Nat) :
    Sparse (.element (.token (s.reconstruct .inputText p q))) := by
  have hpresent := missing_reconstruct s .inputText p q
  exact .here (Leaf.head_present hpresent []) (List.forall_mem_singleton.mpr (sparse_token hpresent))

/-- A place is sparse if the places below it are and it begins with something that was found. -/
private theorem lifts_sparse {α : Type} {g : Grammar α} {place : α → Child}
    (ha : s.Anchored (fun a => (place a).flatten) g) : s.Lifts Sparse place g := by
  intro p q a h hbelow
  obtain ⟨-, l, ls, (hflatten : (place a).flatten = l :: ls), hl⟩ := ha h
  refine .here ?_ hbelow
  rw [hflatten]
  exact Leaf.head_present hl ls

theorem hereditary_sparse (s : Source) (o : Options) : s.Hereditary o Sparse where
  token t := sparse_token rfl
  run p q l h := by
    obtain ⟨-, _, _, he, hl⟩ := anchored_bracketedRun o.multiline h
    cases he
    exact sparse_token hl
  mark k hk := sparse_mark hk
  missingType := .lone rfl rfl (by decide)
  missingReference := sparse_reference
  missingDeclaration := sparse_declaration
  literal sort kind := lifts_sparse (anchored_literalOf sort kind)
  bracketedString := lifts_sparse (anchored_bracketedString o)
  typeName := lifts_sparse (.satisfy s _)
  type := lifts_sparse anchored_type
  boundName := lifts_sparse anchored_identifierName
  anyReference := lifts_sparse anchored_anyReference
  path q t e hhead hq he := sparse_path hq hhead (sparse_token rfl) he
  statement := lifts_sparse anchored_statement
  function := lifts_sparse anchored_function
  body := lifts_sparse anchored_bodyElement
  -- there may be no statement, and then no leaf
  script p q e h := .here (ensures_keeps o .scriptInput h).head
  pattern := lifts_sparse (anchored_kind _)
  wildcarded := lifts_sparse anchored_wildcarded
  name := lifts_sparse (anchored_nameIn _ _)
  declaration := lifts_sparse (anchored_declaration o)
  reference symbols := lifts_sparse (anchored_reference o symbols)
  qualifiedWildcarded := lifts_sparse (anchored_qualifiedWildcarded o)
  rawText := sparse_raw s

/-- The tree that a rule returns is sparse. -/
theorem ensures_sparse (o : Options) (r : Rule) :
    s.Ensures (o.rules.grammar r) fun _ _ e => Sparse (.element e) :=
  (hereditary_sparse s o).ensures r

end CommandGrammar.Source
