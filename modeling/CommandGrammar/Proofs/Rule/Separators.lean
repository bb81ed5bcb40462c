import CommandGrammar.Proofs.Rule.Places
import CommandGrammar.Proofs.Tree.Everywhere

/-! Which leaves are hidden. The separators of chains are, and nothing else is; but the separator between a
name and one with wildcards is not. -/
namespace CommandGrammar

namespace Child

/-- The separator of the path that stands at a place. -/
def dot? : Child → Option Leaf
  | .element (.path _ d _) => some d
  | _ => none

private theorem mem_children_of_dot {c : Child} {l : Leaf} (h : c.dot? = some l) :
    .token l ∈ c.children := by
  cases c with
  | element e =>
    cases e with
    | path q d x =>
      cases h
      exact List.mem_cons_of_mem _ List.mem_cons_self
    | _ => cases h
  | _ => cases h

/-- Of the leaves directly below a place the separator of a path is hidden and no other is. -/
def Parted (c : Child) : Prop := ∀ l, .token l ∈ c.children → (l.hidden = true ↔ c.dot? = some l)

/-- The place is no hidden leaf. -/
def isShown : Child → Bool
  | .token l => !l.hidden
  | _ => true

private theorem dot_of_isUsual {c : Child} (h : c.isUsual = true) :
    c.dot? = none ∧ c.isShown = true := by
  cases c with
  | token => cases h
  | element e =>
    cases e with
    | path => cases h
    | _ => exact ⟨rfl, rfl⟩
  | _ => exact ⟨rfl, rfl⟩

private theorem parted_token (l : Leaf) : Everywhere Parted (.token l) :=
  .node (fun _ hl => (List.not_mem_nil hl).elim) (List.forall_mem_nil _)

/-- Separators are hidden everywhere in a tree, and the tree is no separator itself. -/
structure Veiled (c : Child) : Prop where
  parted : Everywhere Parted c
  shown : c.isShown = true

namespace Veiled

private theorem hidden_eq_false {l : Leaf} (h : Veiled (.token l)) : l.hidden = false := by
  have hshown := h.shown
  rwa [isShown, Bool.not_eq_true'] at hshown

private theorem token {l : Leaf} (h : l.hidden = false) : Veiled (.token l) where
  parted := parted_token l
  shown := by rw [isShown, h, Bool.not_false]

private theorem node {c : Child} (hdot : c.dot? = none) (hshown : c.isShown = true)
    (hbelow : ∀ d ∈ c.children, Veiled d) : Veiled c where
  parted := by
    refine .node (fun l hl => ?_) fun d hd => (hbelow d hd).parted
    rw [(hbelow _ hl).hidden_eq_false, hdot]
    exact iff_of_false Bool.false_ne_true nofun
  shown := hshown

/-- A separator is hidden below its path. -/
private theorem path {q e : Element} {d : Leaf} (hq : Veiled (.element q)) (hd : d.hidden = true)
    (he : Veiled (.element e)) : Veiled (.element (.path q d e)) where
  parted := by
    refine .node (fun l hl => ?_) ?_
    · have hl : l = d := by simpa [children] using hl
      subst hl
      exact iff_of_true hd rfl
    · simp only [children, List.forall_mem_cons]
      exact ⟨hq.parted, parted_token d, he.parted, List.forall_mem_nil _⟩
  shown := rfl

private theorem leaves_declaration {n : Name} (h : Veiled (.element (.declaration n))) :
    ∀ l ∈ n.leaves, l.hidden = false := by
  intro l hl
  cases h.parted with
  | node _ below =>
    cases below (.declaration n) List.mem_cons_self with
    | node self _ =>
      rw [← Bool.not_eq_true, self l (List.mem_map_of_mem hl)]
      exact nofun

end Veiled
end Child

namespace Source
open Fragment Child

theorem inherited_veiled (s : Source) (o : Options) : s.Inherited o Veiled := by
  have hlifts {g : Grammar Element}
      (hg : s.Ensures g fun _ _ e => (Child.element e).dot? = none) : s.Lifts Veiled .element g :=
    fun _ _ _ h => .node (hg h) rfl
  refine inherited_of_usual (fun l hl => .token hl) (fun c hc => ?_)
    (fun q d e hd hq he => hq.path hd he) ?_ ?_
  · obtain ⟨hdot, hshown⟩ := dot_of_isUsual hc
    exact .node hdot hshown
  · exact hlifts (.withLabel _ (.map fun _ _ _ _ => rfl))
  · exact hlifts (.withLabel _ (.map fun _ _ _ _ => rfl))

/-- The rule for names with wildcards hides nothing, not even the separator of the path it returns. -/
private theorem ensures_wildcardedPath_shown (s : Source) (o : Options) :
    s.Ensures o.wildcardedPath fun _ _ e => ∀ l ∈ e.flatten, l.hidden = false := by
  have hveiled := s.inherited_veiled o
  have hdeclaration : s.Ensures o.declaration fun _ _ e => ∃ n, e = .declaration n :=
    .withLabel _ (.map fun _ _ n _ => ⟨n, rfl⟩)
  have hwildcarded : s.Ensures wildcarded fun _ _ e => ∃ n, e = .declaration n :=
    .withLabel _ (.map fun _ _ l _ => ⟨.wildcarded l, rfl⟩)
  have hqualifier : s.Ensures o.declaration fun _ _ e => ∀ l ∈ e.flatten, l.hidden = false := by
    intro p q e h
    obtain ⟨n, rfl⟩ := hdeclaration h
    exact (List.forall_mem_singleton.mp (places_declaration hveiled h)).leaves_declaration
  have hname : s.Ensures o.wildcardedOrName fun _ _ e => ∀ l ∈ e.flatten, l.hidden = false := by
    refine .either (fun p q e h => ?_) hqualifier
    obtain ⟨n, rfl⟩ := hwildcarded h
    exact (List.forall_mem_singleton.mp (places_wildcarded hveiled h)).leaves_declaration
  have hrest : s.Ensures ((Grammar.text o.separator).seq o.wildcardedOrName) fun _ _ x =>
      ∀ l ∈ x.1 :: x.2.flatten, l.hidden = false := by
    refine .seq (Ensures.satisfy _) hname ?_
    rintro p m q d e ⟨-, -, -, rfl⟩ he
    exact List.forall_mem_cons.mpr ⟨rfl, he⟩
  have hqualified : s.Ensures o.qualifiedWildcarded fun _ _ e => ∀ l ∈ e.flatten, l.hidden = false := by
    refine .map (.seq hqualifier hrest ?_)
    intro p m q e x he hx
    exact List.forall_mem_append.mpr ⟨he, hx⟩
  exact .withLabel _ (.either (.guarded hqualified) hname)

/-- In a tree that a rule returns the leaves that are hidden are the separators of its paths, each directly
below its path. The rule for names with wildcards behind a separator is the exception: it hides nothing, so
that the separator of the path that it may return is not hidden. -/
theorem hidden_iff_dot (s : Source) (o : Options) (r : Rule) {p q : Nat} {e : Element}
    (h : s.parse (o.rules.grammar r) p = some (e, q)) :
    (r ≠ .qualifiedWildcardedName →
      (∀ x ∈ e.outline, ∀ l, .token l ∈ x.2.children → (l.hidden = true ↔ x.2.dot? = some l)) ∧
        ∀ l ∈ e.leaves, (l.hidden = true ↔ ∃ x ∈ e.outline, x.2.dot? = some l)) ∧
    (r = .qualifiedWildcardedName → ∀ l ∈ e.leaves, l.hidden = false) := by
  constructor
  · intro hr
    have hparted := forall_mem_outline ((s.inherited_veiled o).ensures hr h).parted
    refine ⟨hparted, fun l hl => ⟨fun hhidden => ?_, fun ⟨x, hx, hdot⟩ => ?_⟩⟩
    · obtain ⟨x, hx, hchild⟩ := Element.exists_of_mem_leaves hl
      exact ⟨x, hx, (hparted x hx l hchild).mp hhidden⟩
    · exact (hparted x hx l (mem_children_of_dot hdot)).mpr hdot
  · rintro rfl l hl
    rw [Element.leaves_eq] at hl
    exact ensures_wildcardedPath_shown s o h l hl

/-- A qualified table name that breaks off at its second dot. -/
def danglingName : Element :=
  .path (.path (.declaration (.plain ⟨.identifier, [], ['a'], 0, false, false⟩))
      ⟨.dot, [], ['.'], 1, false, true⟩
      (.declaration (.plain ⟨.identifier, [' '], ['b'], 3, false, false⟩)))
    ⟨.dot, [], ['.'], 4, false, true⟩ (.declaration .placeholder)

theorem hidden_danglingName :
    (ofText "a. b.".toList).parse (RuleSet.standard.grammar .qualifiedName) 0 = some (danglingName, 4) ∧
      ∀ l ∈ danglingName.leaves,
        (l.hidden = true ↔ ∃ x ∈ danglingName.outline, x.2.dot? = some l) := by
  have h : (ofText "a. b.".toList).parse (RuleSet.standard.grammar .qualifiedName) 0 =
      some (danglingName, 4) := by decide +kernel
  exact ⟨h, ((hidden_iff_dot _ {} .qualifiedName h).1 nofun).2⟩

/-- The same separator before a name with a wildcard is not hidden. -/
theorem wildcarded_dot_shown :
    ∃ e, (ofText "Db.Tab*".toList).parse (RuleSet.standard.grammar .qualifiedWildcardedName) 0 =
        some (e, 3) ∧
      ¬ ∀ l ∈ e.leaves, (l.hidden = true ↔ ∃ x ∈ e.outline, x.2.dot? = some l) := by
  have h : (ofText "Db.Tab*".toList).parse (RuleSet.standard.grammar .qualifiedWildcardedName) 0 =
      some (.path (.declaration (.plain ⟨.identifier, [], ['D', 'b'], 0, false, false⟩))
        ⟨.dot, [], ['.'], 2, false, false⟩
        (.declaration (.wildcarded
          ⟨.wildcardedIdentifier, [], ['T', 'a', 'b', '*'], 3, false, false⟩)), 3) := by
    decide +kernel
  exact ⟨_, h, by decide +kernel⟩

end Source
end CommandGrammar
