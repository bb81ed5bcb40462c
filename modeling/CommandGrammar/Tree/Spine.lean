import CommandGrammar.Tree.Chain

/-! Chains are listed, copied and compared by loops along their links, since they can be long. All
other shapes are copied and compared field by field. -/
namespace CommandGrammar

/-- A chain taken apart at its last separator. -/
structure Path where
  qualifier : Element
  dot : Leaf
  selector : Element
  deriving DecidableEq

namespace Element

/-- Walks down a chain and adds its links to those found further out. -/
def unchain (found : List Link) : Element → List Link × Element
  | .path q d s => q.unchain (found ++ [⟨d, s⟩])
  | e => (found, e)

/-- Walks down a chain and adds its selectors to those found further out, and at last the leftmost
element. -/
def unhang (found : List Element) : Element → List Element
  | .path q _ s => q.unhang (found ++ [s])
  | e => found ++ [e]

private theorem unchain_eq (found : List Link) (e : Element) :
    e.unchain found = (found ++ e.links, e.leftmost) := by
  fun_induction unchain found e with
  | case1 found q d s ih => rw [ih, links, leftmost, List.append_assoc, List.singleton_append]
  | case2 found e h => rw [links.eq_2 e h, leftmost.eq_2 e h, List.append_nil]

private theorem unhang_eq (found : List Element) (e : Element) :
    e.unhang found = found ++ e.segments.reverse := by
  fun_induction unhang found e with
  | case1 found q d s ih =>
    rw [ih, segments_path, List.reverse_append, List.reverse_singleton, List.append_assoc]
  | case2 found e h =>
    rw [segments, links.eq_2 e h, leftmost.eq_2 e h]
    rfl

private theorem sizeOf_leftmost_le (e : Element) : sizeOf e.leftmost ≤ sizeOf e := by
  fun_induction leftmost e with
  | case1 q d s ih =>
    rw [Element.path.sizeOf_spec]
    omega
  | case2 e h => exact Nat.le_refl _

private theorem sizeOf_selector_lt (e : Element) : ∀ l ∈ e.links, sizeOf l.selector < sizeOf e := by
  fun_induction links e with
  | case1 q d s ih =>
    rw [List.forall_mem_cons, Element.path.sizeOf_spec]
    constructor
    · show sizeOf s < _
      omega
    · intro l hl
      have hlt := ih l hl
      omega
  | case2 e h => exact fun l hl => absurd hl List.not_mem_nil

end Element

namespace Path

/-- The chain as an element. -/
def element (p : Path) : Element := .path p.qualifier p.dot p.selector

/-- The links of a chain, the outermost first, and its leftmost element. -/
def spine (p : Path) : List Link × Element := p.qualifier.unchain [⟨p.dot, p.selector⟩]

/-- The elements of a chain from left to right. -/
def segments (p : Path) : List Element := (p.qualifier.unhang [p.selector]).reverse

theorem spine_eq (p : Path) :
    p.spine = (⟨p.dot, p.selector⟩ :: p.qualifier.links, p.qualifier.leftmost) :=
  Element.unchain_eq _ _

theorem segments_eq (p : Path) : p.segments = p.element.segments := by
  rw [segments, Element.unhang_eq, List.reverse_append, List.reverse_reverse, element,
    Element.segments_path]
  rfl

private theorem sizeOf_spine_lt (p : Path) : sizeOf p.spine.2 < sizeOf p := by
  have hle := p.qualifier.sizeOf_leftmost_le
  rw [spine_eq, Path.mk.sizeOf_spec]
  show sizeOf p.qualifier.leftmost < _
  omega

private theorem sizeOf_inner_lt (p : Path) :
    ∀ l ∈ (p.spine.1.drop 1).reverse, sizeOf l.selector < sizeOf p := by
  intro l hl
  rw [spine_eq, List.mem_reverse] at hl
  have hlt := p.qualifier.sizeOf_selector_lt l hl
  rw [Path.mk.sizeOf_spec]
  omega

end Path

-- A chain taken apart is as large as the chain, so taking it apart counts as a step of its own.
mutual

/-- A copy of an element. -/
def Element.rebuilt : Element → Element
  | .path q d s => (Path.rebuilt ⟨q, d, s⟩).element
  | .body b => .body b.rebuilt
  | .function p b => .function p b.rebuilt
  | .statement s => .statement s.rebuilt
  | .script ss => .script ss.rebuilt
  | e => e
termination_by e => (sizeOf e, 1)

/-- Hangs copies of the inner links on a copy of the leftmost element, the innermost first. The
outermost link is the path's own. -/
def Path.rebuilt (p : Path) : Path :=
  ⟨(p.spine.1.drop 1).reverse.attach.foldl (fun e l => .path e l.1.dot l.1.selector.rebuilt)
    p.spine.2.rebuilt, p.dot, p.selector.rebuilt⟩
termination_by (sizeOf p, 0)
decreasing_by
  · exact .left _ _ (p.sizeOf_inner_lt l.1 l.2)
  · exact .left _ _ p.sizeOf_spine_lt
  · apply Prod.Lex.left
    rw [Path.mk.sizeOf_spec]
    omega

def Body.rebuilt : Body → Body
  | .mk o ss v semi c => .mk o ss.rebuilt v.rebuilt semi c
termination_by b => (sizeOf b, 0)

def Yield.rebuilt : Yield → Yield
  | .nothing => .nothing
  | .value e => .value e.rebuilt
termination_by v => (sizeOf v, 0)

def Statement.rebuilt : Statement → Statement
  | .expression e => .expression e.rebuilt
  | .binding k n eq e => .binding k n eq e.rebuilt
termination_by s => (sizeOf s, 0)

def Statements.rebuilt : Statements → Statements
  | .nil => .nil
  | .cons s sep rest => .cons s.rebuilt sep rest.rebuilt
termination_by ss => (sizeOf ss, 0)

end

mutual

/-- Compares two elements of any shape. -/
def Element.agrees : Element → Element → Bool
  | .token l, .token l' => l == l'
  | .declaration n, .declaration n' => n == n'
  | .reference n x, .reference n' x' => n == n' && x == x'
  | .path q d s, .path q' d' s' => Path.agrees ⟨q, d, s⟩ ⟨q', d', s'⟩
  | .literal x l, .literal x' l' => x == x' && l == l'
  | .type l, .type l' => l == l'
  | .parameters p, .parameters p' => p == p'
  | .body b, .body b' => b.agrees b'
  | .function p b, .function p' b' => p == p' && b.agrees b'
  | .statement s, .statement s' => s.agrees s'
  | .script ss, .script ss' => ss.agrees ss'
  | _, _ => false
termination_by e => (sizeOf e, 1)

/-- Compares two chains link by link from the outside in, until one of them ends. -/
def Path.agrees : Path → Path → Bool
  | ⟨q, d, s⟩, ⟨q', d', s'⟩ =>
    if d != d' || !s.agrees s' then false
    else
      match q, q' with
      | .path q d s, .path q' d' s' => Path.agrees ⟨q, d, s⟩ ⟨q', d', s'⟩
      | e, e' => e.agrees e'
termination_by p => (sizeOf p, 0)

def Body.agrees : Body → Body → Bool
  | .mk o ss v semi c, .mk o' ss' v' semi' c' =>
    o == o' && ss.agrees ss' && v.agrees v' && semi == semi' && c == c'
termination_by b => (sizeOf b, 0)

def Yield.agrees : Yield → Yield → Bool
  | .nothing, .nothing => true
  | .value e, .value e' => e.agrees e'
  | _, _ => false
termination_by v => (sizeOf v, 0)

def Statement.agrees : Statement → Statement → Bool
  | .expression e, .expression e' => e.agrees e'
  | .binding k n eq e, .binding k' n' eq' e' =>
    k == k' && n == n' && eq == eq' && e.agrees e'
  | _, _ => false
termination_by s => (sizeOf s, 0)

def Statements.agrees : Statements → Statements → Bool
  | .nil, .nil => true
  | .cons s sep rest, .cons s' sep' rest' => s.agrees s' && sep == sep' && rest.agrees rest'
  | _, _ => false
termination_by ss => (sizeOf ss, 0)

end
end CommandGrammar
