import CommandGrammar.Tree.Child

/-! The leaves of a tree by recursion on its shape, and their agreement with those that the stack of
places yields. -/
namespace CommandGrammar

def Parameters.flatten (p : Parameters) : List Leaf :=
  p.opening :: p.list.flatMap (fun q =>
    q.element.name.leaves ++ [q.element.colon, q.element.type] ++ q.separator.toList) ++ [p.closing]

mutual

def Element.flatten : Element → List Leaf
  | .token l => [l]
  | .declaration n => n.leaves
  | .reference n _ => n.leaves
  | .path q d s => q.flatten ++ d :: s.flatten
  | .literal _ l => [l]
  | .type l => [l]
  | .parameters p => p.flatten
  | .body b => b.flatten
  | .function p b => p.flatten ++ b.flatten
  | .statement s => s.flatten
  | .script ss => ss.flatten

def Body.flatten : Body → List Leaf
  | .mk o ss v semi c => o :: ss.flatten ++ v.flatten ++ semi.toList ++ [c]

def Yield.flatten : Yield → List Leaf
  | .nothing => []
  | .value e => e.flatten

def Statement.flatten : Statement → List Leaf
  | .expression e => e.flatten
  | .binding k n eq e => k :: n.leaves ++ eq :: e.flatten

def Statements.flatten : Statements → List Leaf
  | .nil => []
  | .cons s sep rest => s.flatten ++ sep.toList ++ rest.flatten

end

namespace Child

def flatten : Child → List Leaf
  | .token l => [l]
  | .element e => e.flatten
  | .declaration n => n.leaves
  | .type l => [l]
  | .statement s => s.flatten

private theorem flatten_tokens (ls : List Leaf) : (ls.map Child.token).flatMap flatten = ls := by
  induction ls with
  | nil => rfl
  | cons l ls ih => rw [List.map_cons, List.flatMap_cons, ih, flatten, List.singleton_append]

private theorem flatten_ofParameters (p : Parameters) :
    (ofParameters p).flatMap flatten = p.flatten := by
  have h (ps : List (Separated Parameter)) : (ps.flatMap ofParameter).flatMap flatten =
      ps.flatMap fun q =>
        q.element.name.leaves ++ [q.element.colon, q.element.type] ++ q.separator.toList := by
    induction ps with
    | nil => rfl
    | cons q ps ih =>
      rw [List.flatMap_cons, List.flatMap_append, ih, List.flatMap_cons]
      simp only [ofParameter, flatten_tokens, List.flatMap_cons, flatten, List.append_assoc,
        List.cons_append, List.nil_append]
  simp only [ofParameters, Parameters.flatten, List.cons_append, List.flatMap_cons,
    List.flatMap_append, h, flatten, List.flatMap_nil, List.append_nil, List.nil_append]

private theorem flatten_ofStatements (ss : Statements) :
    (ofStatements ss).flatMap flatten = ss.flatten := by
  match ss with
  | .nil => rfl
  | .cons s sep rest =>
    simp only [ofStatements, Statements.flatten, List.cons_append, List.flatMap_cons,
      List.flatMap_append, flatten_ofStatements rest, flatten_tokens, flatten, List.append_assoc]

private theorem flatten_ofBody (b : Body) : (ofBody b).flatMap flatten = b.flatten := by
  obtain ⟨o, ss, v, semi, c⟩ := b
  have hv : (v.toOption.toList.map Child.element).flatMap flatten = v.flatten := by
    cases v with
    | nothing => rfl
    | value e => exact List.append_nil _
  simp only [ofBody, Body.flatten, Body.opening, Body.statements, Body.value, Body.semicolon,
    Body.closing, List.cons_append, List.flatMap_cons, List.flatMap_append, flatten_ofStatements,
    hv, flatten_tokens, flatten, List.flatMap_nil, List.append_nil, List.nil_append]

/-- A place that is no leaf has the leaves of the places below it. -/
theorem flatten_eq (c : Child) (h : ∀ l, c ≠ .token l) :
    c.flatten = c.children.flatMap flatten := by
  match c with
  | .token l => exact absurd rfl (h l)
  | .declaration n => exact (flatten_tokens n.leaves).symm
  | .type _ => rfl
  | .statement (.expression e) => exact (List.append_nil _).symm
  | .statement (.binding k n eq e) =>
    simp only [children, flatten, Statement.flatten, List.flatMap_cons, List.flatMap_nil,
      List.append_nil, List.cons_append, List.nil_append]
  | .element (.token l) => rfl
  | .element (.declaration n) => exact (List.append_nil _).symm
  | .element (.reference n _) => exact (flatten_tokens n.leaves).symm
  | .element (.path q d s) =>
    simp only [children, flatten, Element.flatten, List.flatMap_cons, List.flatMap_nil,
      List.append_nil, List.cons_append, List.nil_append]
  | .element (.literal _ l) => rfl
  | .element (.type l) => rfl
  | .element (.parameters p) => exact (flatten_ofParameters p).symm
  | .element (.body b) => exact (flatten_ofBody b).symm
  | .element (.function p b) =>
    rw [children, List.flatMap_append, flatten_ofParameters, flatten_ofBody, flatten,
      Element.flatten]
  | .element (.statement s) => exact (List.append_nil _).symm
  | .element (.script ss) => exact (flatten_ofStatements ss).symm

/-- The stack of places yields the leaves from left to right. -/
theorem leavesOf_eq (stack : List Child) : leavesOf stack = stack.flatMap flatten := by
  fun_induction leavesOf stack with
  | case1 => rfl
  | case2 l rest ih => rw [ih, List.flatMap_cons, flatten, List.singleton_append]
  | case3 c rest h ih => rw [ih, List.flatMap_append, List.flatMap_cons, flatten_eq c h]

theorem leaves_eq (c : Child) : c.leaves = c.flatten := by
  rw [leaves, leavesOf_eq, List.flatMap_cons, List.flatMap_nil, List.append_nil]

end Child

theorem Element.leaves_eq (e : Element) : e.leaves = e.flatten := Child.leaves_eq (.element e)

end CommandGrammar
