import CommandGrammar.Tree.Spine

/-! The loops along chains against recursion over their shape. Two chains agree just if they are
equal, and a copy is equal to what it copies. -/
namespace CommandGrammar

namespace Element

/-- A chain is its leftmost element with its links hung on again. -/
theorem chain_links (e : Element) : e.leftmost.chain e.links.reverse = e := by
  fun_induction links e with
  | case1 q d s ih =>
    rw [leftmost, List.reverse_cons, chain, List.foldl_append]
    exact congrArg (path · d s) ih
  | case2 e h =>
    rw [leftmost.eq_2 e h]
    rfl

private theorem leftmost_ne_path (e q : Element) (d : Leaf) (s : Element) :
    e.leftmost ≠ .path q d s := by
  fun_induction leftmost e with
  | case1 q d s ih => exact ih
  | case2 e h => exact h q d s

/-- Number of paths from an element down to its leftmost element. -/
def leftDepth : Element → Nat
  | .path q _ _ => q.leftDepth + 1
  | _ => 0

private theorem length_links (e : Element) : e.links.length = e.leftDepth := by
  fun_induction links e with
  | case1 q d s ih => rw [List.length_cons, ih, leftDepth]
  | case2 e h => rw [leftDepth.eq_2 e h, List.length_nil]

/-- The loop that compares two chains is the recursion over both. -/
private theorem agrees_path (q q' : Element) (d d' : Leaf) (s s' : Element) :
    (path q d s).agrees (.path q' d' s') = (d == d' && s.agrees s' && q.agrees q') := by
  have hlink : (d == d' && s.agrees s') = !(d != d' || !s.agrees s') := by
    rw [Bool.not_or, Bool.not_not, bne, Bool.not_not]
  rw [agrees, Path.agrees.eq_def, hlink]
  dsimp only
  split
  · next h => rw [h, Bool.not_true, Bool.false_and]
  · next h =>
    rw [eq_false_of_ne_true h, Bool.not_false, Bool.true_and]
    split
    · rw [agrees]
    · rfl

private theorem rebuilt_links (q : Element) (d : Leaf) (s : Element) :
    (path q d s).rebuilt = .path (q.links.reverse.foldl
      (fun e l => .path e l.dot l.selector.rebuilt) q.leftmost.rebuilt) d s.rebuilt := by
  rw [rebuilt, Path.rebuilt, Path.spine_eq, Path.element,
    List.foldl_attach (f := fun e (l : Link) => path e l.dot l.selector.rebuilt)]
  rfl

/-- The inner links of a chain are copied as the chain in front of its last separator is. -/
private theorem foldl_rebuilt (e : Element) :
    e.links.reverse.foldl (fun e l => .path e l.dot l.selector.rebuilt) e.leftmost.rebuilt =
      e.rebuilt := by
  cases e with
  | path q d s =>
    rw [rebuilt_links, links, leftmost, List.reverse_cons, List.foldl_append]
    rfl
  | _ => rfl

private theorem rebuilt_path (q : Element) (d : Leaf) (s : Element) :
    (path q d s).rebuilt = .path q.rebuilt d s.rebuilt := by
  rw [rebuilt_links, foldl_rebuilt]

end Element

mutual

theorem Element.agrees_iff : (e e' : Element) → (e.agrees e' = true ↔ e = e')
  | .token l, e' => by cases e' <;> simp [Element.agrees]
  | .declaration n, e' => by cases e' <;> simp [Element.agrees]
  | .reference n x, e' => by cases e' <;> simp [Element.agrees]
  | .path q d s, e' => by
    cases e' with
    | path q' d' s' =>
      rw [Element.agrees_path, Bool.and_eq_true, Bool.and_eq_true, beq_iff_eq, Element.agrees_iff s,
        Element.agrees_iff q, Element.path.injEq]
      exact and_comm
    | _ => simp [Element.agrees]
  | .literal x l, e' => by cases e' <;> simp [Element.agrees]
  | .type l, e' => by cases e' <;> simp [Element.agrees]
  | .parameters p, e' => by cases e' <;> simp [Element.agrees]
  | .body b, e' => by cases e' <;> simp [Element.agrees, Body.agrees_iff b]
  | .function p b, e' => by cases e' <;> simp [Element.agrees, Body.agrees_iff b]
  | .statement s, e' => by cases e' <;> simp [Element.agrees, Statement.agrees_iff s]
  | .script ss, e' => by cases e' <;> simp [Element.agrees, Statements.agrees_iff ss]

theorem Body.agrees_iff : (b b' : Body) → (b.agrees b' = true ↔ b = b')
  | .mk o ss v semi c, .mk o' ss' v' semi' c' => by
    simp [Body.agrees, Statements.agrees_iff ss, Yield.agrees_iff v, and_assoc]

theorem Yield.agrees_iff : (v v' : Yield) → (v.agrees v' = true ↔ v = v')
  | .nothing, v' => by cases v' <;> simp [Yield.agrees]
  | .value e, v' => by cases v' <;> simp [Yield.agrees, Element.agrees_iff e]

theorem Statement.agrees_iff : (s s' : Statement) → (s.agrees s' = true ↔ s = s')
  | .expression e, s' => by cases s' <;> simp [Statement.agrees, Element.agrees_iff e]
  | .binding k n eq e, s' => by
    cases s' <;> simp [Statement.agrees, Element.agrees_iff e, and_assoc]

theorem Statements.agrees_iff : (ss ss' : Statements) → (ss.agrees ss' = true ↔ ss = ss')
  | .nil, ss' => by cases ss' <;> simp [Statements.agrees]
  | .cons s sep rest, ss' => by
    cases ss' <;> simp [Statements.agrees, Statement.agrees_iff s, Statements.agrees_iff rest,
      and_assoc]

end

mutual

theorem Element.rebuilt_eq : (e : Element) → e.rebuilt = e
  | .path q d s => by rw [Element.rebuilt_path, Element.rebuilt_eq q, Element.rebuilt_eq s]
  | .body b => by rw [Element.rebuilt, Body.rebuilt_eq b]
  | .function p b => by rw [Element.rebuilt, Body.rebuilt_eq b]
  | .statement s => by rw [Element.rebuilt, Statement.rebuilt_eq s]
  | .script ss => by rw [Element.rebuilt, Statements.rebuilt_eq ss]
  | .token _ | .declaration _ | .reference .. | .literal .. | .type _ | .parameters _ => by
    simp [Element.rebuilt]

theorem Body.rebuilt_eq : (b : Body) → b.rebuilt = b
  | .mk o ss v semi c => by rw [Body.rebuilt, Statements.rebuilt_eq ss, Yield.rebuilt_eq v]

theorem Yield.rebuilt_eq : (v : Yield) → v.rebuilt = v
  | .nothing => by rw [Yield.rebuilt]
  | .value e => by rw [Yield.rebuilt, Element.rebuilt_eq e]

theorem Statement.rebuilt_eq : (s : Statement) → s.rebuilt = s
  | .expression e => by rw [Statement.rebuilt, Element.rebuilt_eq e]
  | .binding k n eq e => by rw [Statement.rebuilt, Element.rebuilt_eq e]

theorem Statements.rebuilt_eq : (ss : Statements) → ss.rebuilt = ss
  | .nil => by rw [Statements.rebuilt]
  | .cons s sep rest => by
    rw [Statements.rebuilt, Statement.rebuilt_eq s, Statements.rebuilt_eq rest]

end

namespace Path

private theorem element_inj {p q : Path} : p.element = q.element ↔ p = q := by
  cases p
  cases q
  rw [element, element, Element.path.injEq, Path.mk.injEq]

theorem agrees_iff (p q : Path) : p.agrees q = true ↔ p = q := by
  rw [← element_inj, ← Element.agrees_iff, element, element, Element.agrees]

theorem rebuilt_eq (p : Path) : p.rebuilt = p := by
  have hcopy : p.element.rebuilt = p.rebuilt.element := by rw [element, Element.rebuilt]
  rw [← element_inj, ← hcopy, Element.rebuilt_eq]

/-- Comparing two chains decides whether they are equal, a copy of a chain is equal to it, and listing
a chain yields what the chain was hung together from. -/
theorem loops_structural (p q : Path) :
    (p.agrees q = true ↔ p = q) ∧ p.rebuilt = p ∧
      ∃ first links, p.element = first.chain links ∧ (∀ x d y, first ≠ .path x d y) ∧
        p.spine = (links.reverse, first) ∧
        p.segments = first :: links.map (·.selector) ∧
        p.segments.length = p.element.leftDepth + 1 := by
  refine ⟨p.agrees_iff q, p.rebuilt_eq, p.element.leftmost, p.element.links.reverse,
    ?_, ?_, ?_, ?_, ?_⟩
  · exact p.element.chain_links.symm
  · exact p.element.leftmost_ne_path
  · rw [List.reverse_reverse, spine_eq]
    rfl
  · rw [segments_eq, Element.segments]
  · rw [segments_eq, Element.segments, List.length_cons, List.length_map, List.length_reverse,
      Element.length_links]

end Path
end CommandGrammar
