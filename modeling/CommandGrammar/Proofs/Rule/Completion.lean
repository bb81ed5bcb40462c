import CommandGrammar.Proofs.Rule.Recovery
import CommandGrammar.Proofs.Symbols.Vocabulary

/-! What is offered where some rules could start. A rule for a single reference has its categories in four
places: in the references it returns, in its placeholder, in its hint and in its label. They are the
same, and the other rules have no hint, so what is offered is what the references may bind to. -/
namespace CommandGrammar

/-- The rules that read a single reference. -/
def Rule.references : List Rule :=
  [.columnReference, .tableReference, .externalTableReference, .materializedViewReference,
   .entityGroupReference, .databaseReference, .clusterReference, .functionReference,
   .databaseOrTableReference, .databaseOrTableOrColumnReference, .tableOrColumnReference]

namespace RuleSet
variable {rs : RuleSet} {r : Rule} {symbols : SymbolSet} {c : Category}

/-- The categories of a rule for a single reference, the same in each place. -/
structure RefersTo (rs : RuleSet) (r : Rule) (symbols : SymbolSet) : Prop where
  nonempty : symbols ≠ .none
  found : ∀ (s : Source) (p q : Nat) (e : Element), s.parse (rs.grammar r) p = some (e, q) →
    ∃ n, e = .reference n symbols
  absent : ∀ (s : Source) (p : Nat), s.parse (rs.grammar r) p = none →
    ∃ n, s.parse (rs.required r) p = some (.reference n symbols, p)
  hint : (rs.grammar r).hint.symbols = symbols
  label : (rs.grammar r).label? = some symbols.label

/-- The rule returns references that may bind to something of the category. -/
def Admits (rs : RuleSet) (r : Rule) (c : Category) : Prop :=
  ∃ (s : Source) (p q : Nat) (n : Name) (symbols : SymbolSet),
    s.parse (rs.grammar r) p = some (.reference n symbols, q) ∧ c ∈ symbols

/-- A query or a script of one's own has the category in its hint. -/
def Brings (rs : RuleSet) (r : Rule) (c : Category) : Prop :=
  r = .queryInput ∧ c ∈ rs.query.hint.symbols ∨ r = .scriptInput ∧ c ∈ rs.script.hint.symbols

/-- The rule is built from the categories, and so is its placeholder. -/
structure BuiltFrom (rs : RuleSet) (r : Rule) (symbols : SymbolSet) : Prop where
  grammar : rs.grammar r = rs.reference symbols
  placeholder : r.placeholder = .reference symbols

private theorem exists_builtFrom (rs : RuleSet) (hr : r ∈ Rule.references) :
    ∃ symbols ≠ SymbolSet.none, rs.BuiltFrom r symbols := by
  cases r with
  | columnReference => exact ⟨.single .column, by decide, rfl, rfl⟩
  | tableReference => exact ⟨.single .table, by decide, rfl, rfl⟩
  | externalTableReference => exact ⟨.single .externalTable, by decide, rfl, rfl⟩
  | materializedViewReference => exact ⟨.single .materializedView, by decide, rfl, rfl⟩
  | entityGroupReference => exact ⟨.single .entityGroup, by decide, rfl, rfl⟩
  | databaseReference => exact ⟨.single .database, by decide, rfl, rfl⟩
  | clusterReference => exact ⟨.single .cluster, by decide, rfl, rfl⟩
  | functionReference => exact ⟨.single .databaseFunction, by decide, rfl, rfl⟩
  | databaseOrTableReference => exact ⟨.databaseOrTable, by decide, rfl, rfl⟩
  | databaseOrTableOrColumnReference => exact ⟨.databaseOrTableOrColumn, by decide, rfl, rfl⟩
  | tableOrColumnReference => exact ⟨.tableOrColumn, by decide, rfl, rfl⟩
  | _ => exact absurd hr (by decide)

/-- Of the other rules only a query and a script may have a hint, since these can be any grammar. -/
private theorem mem_hint_iff_brings (hr : r ∉ Rule.references) :
    c ∈ (rs.grammar r).hint.symbols ↔ rs.Brings r c := by
  have hnone : c ∉ Hint.none.symbols := SymbolSet.not_mem_none c
  cases r with
  | queryInput => simp [Brings, grammar]
  | scriptInput => simp [Brings, grammar]
  | _ => first
    | exact absurd (by decide) hr
    | exact iff_of_false hnone (by rintro (⟨⟨⟩, -⟩ | ⟨⟨⟩, -⟩))

private theorem not_brings (hr : r ∈ Rule.references) : ¬ rs.Brings r c := by
  rintro (⟨rfl, -⟩ | ⟨rfl, -⟩)
  · exact absurd hr (by decide)
  · exact absurd hr (by decide)

/-- The query language's own expressions and scripts have no hint. -/
private theorem not_brings_standard (o : Options) : ¬ o.rules.Brings r c := by
  have hquery : o.rules.query.hint = .none := rfl
  have hscript : o.rules.script.hint = .none := rfl
  rintro (⟨-, hc⟩ | ⟨-, hc⟩)
  · rw [hquery] at hc
    exact SymbolSet.not_mem_none c hc
  · rw [hscript] at hc
    exact SymbolSet.not_mem_none c hc

namespace BuiltFrom

private theorem found (h : rs.BuiltFrom r symbols) {s : Source} {p q : Nat} {e : Element}
    (hparse : s.parse (rs.grammar r) p = some (e, q)) : ∃ n, e = .reference n symbols := by
  rw [h.grammar, PathRule.parse_reference] at hparse
  obtain ⟨⟨n, m⟩, -, he⟩ := Option.map_eq_some_iff.mp hparse
  exact ⟨n, (Prod.mk.inj he).1.symm⟩

private theorem absent (h : rs.BuiltFrom r symbols) {s : Source} {p : Nat}
    (hparse : s.parse (rs.grammar r) p = none) :
    s.parse (rs.required r) p = some (.reference .placeholder symbols, p) := by
  rw [required, Source.parse_required, hparse, h.placeholder]
  rfl

private theorem hint (h : rs.BuiltFrom r symbols) : (rs.grammar r).hint.symbols = symbols := by
  rw [h.grammar]
  exact Hint.symbols_ofSymbols symbols

private theorem refersTo (h : rs.BuiltFrom r symbols) (hnonempty : symbols ≠ .none) :
    rs.RefersTo r symbols where
  nonempty := hnonempty
  found _ _ _ _ hparse := h.found hparse
  absent _ _ hparse := ⟨_, h.absent hparse⟩
  hint := h.hint
  label := by
    rw [h.grammar]
    rfl

/-- A single letter is a reference by every rule, so none of the categories is there in vain. -/
private theorem admits_iff (h : rs.BuiltFrom r symbols) : rs.Admits r c ↔ c ∈ symbols := by
  constructor
  · rintro ⟨s, p, q, n, symbols', hparse, hc⟩
    obtain ⟨n', he⟩ := h.found hparse
    cases he
    exact hc
  · intro hc
    have hparse := PathRule.parse_reference (Source.ofText ['a']) rs.toOptions symbols 0
    rw [← h.grammar, Grammar.parse_letter] at hparse
    exact ⟨_, _, _, _, _, hparse, hc⟩

end BuiltFrom

private theorem mem_hint_iff (rs : RuleSet) (r : Rule) (c : Category) :
    c ∈ (rs.grammar r).hint.symbols ↔ r ∈ Rule.references ∧ rs.Admits r c ∨ rs.Brings r c := by
  by_cases hr : r ∈ Rule.references
  · obtain ⟨symbols, -, h⟩ := rs.exists_builtFrom hr
    rw [h.hint, h.admits_iff, and_iff_right hr, or_iff_left (not_brings hr)]
  · rw [mem_hint_iff_brings hr, or_iff_right fun h => hr h.1]

private theorem mem_completion_iff (rs : RuleSet) (candidates : List Rule) (c : Category) :
    c ∈ rs.completion candidates ↔ ∃ r ∈ candidates, c ∈ (rs.grammar r).hint.symbols := by
  rw [completion, Hint.symbols_foldl_union, SymbolSet.mem_foldl_union_iff, List.map_map]
  simp only [Hint.symbols_none, SymbolSet.not_mem_none, false_or, List.mem_map,
    Function.comp_apply, exists_exists_and_eq_and]

/-- A rule for a single reference has the same categories wherever it has any. What is offered for some
rules is what the references that they return may bind to, and nothing else unless a query or a script of
one's own brings a hint along. It depends on which rules there are, not on their order or number. -/
theorem completion_agrees_with_references (rs : RuleSet) :
    (∀ r ∈ Rule.references, ∃ symbols, rs.RefersTo r symbols) ∧
    (∀ (o : Options) (candidates : List Rule) (c : Category), c ∈ o.rules.completion candidates ↔
      ∃ r ∈ candidates, r ∈ Rule.references ∧ o.rules.Admits r c) ∧
    (∀ candidates c, c ∈ rs.completion candidates ↔
      ∃ r ∈ candidates, r ∈ Rule.references ∧ rs.Admits r c ∨ rs.Brings r c) ∧
    (∀ xs ys, (∀ r, r ∈ xs ↔ r ∈ ys) → rs.completion xs = rs.completion ys) ∧
    ∀ xs ys, rs.completion (xs ++ ys) = rs.completion xs ∪ rs.completion ys := by
  refine ⟨fun r hr => ?_, fun o candidates c => ?_, fun candidates c => ?_, fun xs ys hsame => ?_,
    fun xs ys => ?_⟩
  · obtain ⟨symbols, hnonempty, h⟩ := rs.exists_builtFrom hr
    exact ⟨symbols, h.refersTo hnonempty⟩
  · simp only [mem_completion_iff, mem_hint_iff, not_brings_standard, or_false]
  · simp only [mem_completion_iff, mem_hint_iff]
  · apply SymbolSet.eq_of_mem_iff
    intro c
    simp only [mem_completion_iff, hsame]
  · apply SymbolSet.eq_of_mem_iff
    intro c
    simp only [SymbolSet.mem_union_iff, mem_completion_iff, List.mem_append, or_and_right,
      exists_or]

/-- A table is offered for a database or a table next to a value, and one of the two may bind to it. -/
theorem completion_databaseOrTable :
    standard.RefersTo .databaseOrTableReference .databaseOrTable ∧
    Category.table ∈ standard.completion [.value, .databaseOrTableReference] ∧
    (∃ r ∈ [Rule.value, .databaseOrTableReference],
      r ∈ Rule.references ∧ standard.Admits r .table) ∧
    standard.completion [.value, .databaseOrTableReference] =
      standard.completion [.databaseOrTableReference, .value, .databaseOrTableReference] := by
  obtain ⟨hrefers, hadmits, -, hsame, -⟩ := completion_agrees_with_references standard
  have hoffered : Category.table ∈ standard.completion [.value, .databaseOrTableReference] := by decide
  refine ⟨?_, hoffered, (hadmits {} _ .table).mp hoffered, hsame _ _ fun r => ?_⟩
  · obtain ⟨symbols, h⟩ := hrefers .databaseOrTableReference (by decide)
    have hsymbols : SymbolSet.databaseOrTable = symbols := h.hint
    rwa [hsymbols]
  · simp only [List.mem_cons, List.not_mem_nil, or_false]
    exact ⟨fun h => h.elim (.inr ∘ .inl) .inl, fun h => h.elim .inr id⟩

end RuleSet
end CommandGrammar
