import CommandGrammar.Proofs.Rule.Places
import CommandGrammar.Proofs.Tree.Everywhere

/-! Where the names of a parsed tree come from. -/
namespace CommandGrammar

/-- The name that stands at a place, declared or referred to. -/
def Child.name? : Child → Option Name
  | .declaration n => some n
  | .element (.reference n _) => some n
  | _ => none

namespace Source
open Fragment Child
variable {s : Source} {o : Options} {Q : Name → Prop}

/-- The property holds of every name in the tree. -/
def Named (Q : Name → Prop) : Child → Prop := Everywhere fun c => ∀ n ∈ c.name?, Q n

private theorem named_node {c : Child} (hc : c.name? = none)
    (hbelow : ∀ d ∈ c.children, Named Q d) : Named Q c := by
  refine .node (fun n hn => ?_) hbelow
  rw [hc] at hn
  cases hn

private theorem named_name {c : Child} {n : Name} (hc : c.name? = some n) (hn : Q n)
    (hbelow : ∀ d ∈ c.children, Named Q d) : Named Q c := by
  refine .node (fun m hm => ?_) hbelow
  rw [hc] at hm
  cases hm
  exact hn

private theorem named_token (l : Leaf) : Named Q (.token l) :=
  named_node rfl (List.forall_mem_nil _)

private theorem lifts_nameless {α : Type} {g : Grammar α} {place : α → Child}
    (hg : s.Ensures g fun _ _ a => (place a).name? = none) : s.Lifts (Named Q) place g :=
  fun _ _ _ h => named_node (hg h)

private theorem lifts_named {α : Type} {g : Grammar α} {place : α → Child}
    (hg : s.Ensures g fun _ _ a => ∃ n, (place a).name? = some n ∧ Q n) :
    s.Lifts (Named Q) place g := by
  intro p q a h
  obtain ⟨n, hplace, hn⟩ := hg h
  exact named_name hplace hn

/-- Names are read by the grammar for names. Queries and functions know names of two spellings only, and
patterns are names of their own. -/
theorem hereditary_named (hname : s.Ensures (name o.multiline) fun _ _ n => Q n)
    (hplain : ∀ l, Q (.plain l)) (hbracketed : ∀ a l b, Q (.bracketed a l b))
    (hpattern : ∀ l, Q (.wildcarded l)) : s.Hereditary o (Named Q) := by
  have hidentifier : s.Ensures identifierName fun _ _ n => Q n := .map fun _ _ l _ => hplain l
  have hshort : s.Ensures (.first [identifierName, bracketedName]) fun _ _ n => Q n := by
    refine .either hidentifier (.map ?_)
    rintro p q ⟨a, l, b⟩ -
    exact hbracketed a l b
  have hone {l : Leaf} : ∀ d ∈ [Child.token l], Named Q d :=
    List.forall_mem_singleton.mpr (named_token l)
  exact {
    token := fun t => named_token _
    run := fun _ _ l _ => named_token l
    mark := fun k _ => named_token _
    missingType := named_node rfl hone
    missingReference := fun symbols => named_name rfl (hplain _) hone
    missingDeclaration := named_node rfl
      (List.forall_mem_singleton.mpr (named_name rfl (hplain _) hone))
    literal := fun sort kind => lifts_nameless (.map fun _ _ _ _ => rfl)
    bracketedString := lifts_nameless (.withLabel _ (.map fun _ _ _ _ => rfl))
    typeName := lifts_nameless fun _ _ _ _ => rfl
    type := lifts_nameless (.withLabel _ (.map fun _ _ _ _ => rfl))
    boundName := lifts_named (hidentifier.mono fun _ _ n h => ⟨n, rfl, h⟩)
    anyReference := lifts_named (.map (hshort.mono fun _ _ n h => ⟨n, rfl, h⟩))
    path := fun q t e _ hq he => named_node rfl (List.forall_mem_cons.mpr
      ⟨hq, List.forall_mem_cons.mpr ⟨named_token _, List.forall_mem_singleton.mpr he⟩⟩)
    statement := lifts_nameless fun _ _ _ _ => rfl
    function := lifts_nameless (.withLabel _ (.map fun _ _ _ _ => rfl))
    body := lifts_nameless (.withLabel _ (.map fun _ _ _ _ => rfl))
    script := lifts_nameless (.map fun _ _ _ _ => rfl)
    pattern := lifts_named fun _ _ l _ => ⟨.wildcarded l, rfl, hpattern l⟩
    wildcarded := lifts_nameless (.withLabel _ (.map fun _ _ _ _ => rfl))
    name := lifts_named (hname.mono fun _ _ n h => ⟨n, rfl, h⟩)
    declaration := lifts_nameless (.withLabel _ (.map fun _ _ _ _ => rfl))
    reference := fun symbols =>
      lifts_named (.withLabel _ (.withHint _ (.map (hname.mono fun _ _ n h => ⟨n, rfl, h⟩))))
    qualifiedWildcarded := lifts_nameless (.map fun _ _ _ _ => rfl)
    rawText := fun p q => named_node rfl hone }

/-- What holds of every bracketed run holds of the names that are bracketed strings. -/
private theorem ensures_nameIn_bracketedString {multiline : Bool} {R : Leaf → Prop}
    (hrun : s.Ensures (bracketedRun multiline) fun _ _ l => R l) (forms : List NameForm) :
    s.Ensures (nameIn forms multiline) fun _ _ n => ∀ l, n = .bracketedString l → R l := by
  apply Ensures.withLabel
  apply Ensures.first
  intro g hg
  obtain ⟨form, -, rfl⟩ := List.mem_map.mp hg
  cases form with
  | identifier => exact .map fun _ _ _ _ => nofun
  | bracketed => exact .map fun _ _ _ _ => nofun
  | braced => exact .map fun _ _ _ _ => nofun
  | quoted => exact .map fun _ _ _ _ => nofun
  | bracketedString =>
    refine .map (hrun.mono fun p q l hl l' hl' => ?_)
    cases hl'
    exact hl

/-- So it does of those anywhere in a tree. -/
theorem forall_bracketedString {R : Leaf → Prop}
    (hrun : s.Ensures (bracketedRun o.multiline) fun _ _ l => R l) (r : Rule) {p q : Nat} {e : Element}
    (h : s.parse (o.rules.grammar r) p = some (e, q)) :
    ∀ x ∈ e.outline, ∀ l, x.2.name? = some (.bracketedString l) → R l := by
  intro x hx l hl
  have hname : s.Ensures (name o.multiline) fun _ _ n => ∀ l, n = .bracketedString l → R l :=
    ensures_nameIn_bracketedString hrun _
  have hnamed := (hereditary_named hname (fun _ _ => nofun) (fun _ _ _ _ => nofun)
    fun _ _ => nofun).ensures r h
  exact forall_mem_outline hnamed x hx _ hl l rfl

end Source
end CommandGrammar
