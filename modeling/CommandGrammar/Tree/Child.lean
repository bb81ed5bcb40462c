import CommandGrammar.Tree.Element

/-! Places in a tree and the places directly below them. The leaves of a tree are found with an
explicit stack of places still to visit. -/
namespace CommandGrammar

/-- An element, or a part that occurs only inside one. -/
inductive Child where
  | token (leaf : Leaf)
  | element (element : Element)
  | declaration (name : Name)
  | type (leaf : Leaf)
  | statement (statement : Statement)
  deriving DecidableEq

def Parameter.weight (p : Separated Parameter) : Nat :=
  p.element.name.leaves.length + p.separator.toList.length + 4

def Parameter.weightOf : List (Separated Parameter) → Nat
  | [] => 0
  | p :: rest => weight p + weightOf rest

def Parameters.weight (p : Parameters) : Nat := Parameter.weightOf p.list + 2

mutual

/-- Number of places in an element, itself included. -/
def Element.weight : Element → Nat
  | .token _ => 2
  | .declaration n => n.leaves.length + 2
  | .reference n _ => n.leaves.length + 1
  | .path q _ s => q.weight + s.weight + 2
  | .literal _ _ => 2
  | .type _ => 3
  | .parameters p => p.weight + 1
  | .body b => b.weight + 1
  | .function p b => p.weight + b.weight + 1
  | .statement s => s.weight + 1
  | .script ss => ss.weight + 1

def Body.weight : Body → Nat
  | .mk _ ss v semi _ => ss.weight + v.weight + semi.toList.length + 2

def Yield.weight : Yield → Nat
  | .nothing => 0
  | .value e => e.weight

def Statement.weight : Statement → Nat
  | .expression e => e.weight + 1
  | .binding _ n _ e => n.leaves.length + e.weight + 4

def Statements.weight : Statements → Nat
  | .nil => 0
  | .cons s sep rest => s.weight + sep.toList.length + rest.weight

end

namespace Child

def ofParameter (p : Separated Parameter) : List Child :=
  [.declaration p.element.name, .token p.element.colon, .type p.element.type] ++
    p.separator.toList.map .token

def ofParameters (p : Parameters) : List Child :=
  .token p.opening :: p.list.flatMap ofParameter ++ [.token p.closing]

def ofStatements : Statements → List Child
  | .nil => []
  | .cons s sep rest => .statement s :: sep.toList.map .token ++ ofStatements rest

def ofBody (b : Body) : List Child :=
  .token b.opening :: ofStatements b.statements ++ b.value.toOption.toList.map .element ++
    b.semicolon.toList.map .token ++ [.token b.closing]

/-- The places directly below, in source order. -/
def children : Child → List Child
  | .token _ => []
  | .declaration n => n.leaves.map .token
  | .type l => [.token l]
  | .statement (.expression e) => [.element e]
  | .statement (.binding k n eq e) => [.token k, .declaration n, .token eq, .element e]
  | .element (.token l) => [.token l]
  | .element (.declaration n) => [.declaration n]
  | .element (.reference n _) => n.leaves.map .token
  | .element (.path q d s) => [.element q, .token d, .element s]
  | .element (.literal _ l) => [.token l]
  | .element (.type l) => [.type l]
  | .element (.parameters p) => ofParameters p
  | .element (.body b) => ofBody b
  | .element (.function p b) => ofParameters p ++ ofBody b
  | .element (.statement s) => [.statement s]
  | .element (.script ss) => ofStatements ss

def weight : Child → Nat
  | .token _ => 1
  | .element e => e.weight
  | .declaration n => n.leaves.length + 1
  | .type _ => 2
  | .statement s => s.weight

/-- Number of places in a stack of places. -/
def weightOf : List Child → Nat
  | [] => 0
  | c :: rest => c.weight + weightOf rest

@[simp] theorem weightOf_cons (c : Child) (cs : List Child) :
    weightOf (c :: cs) = c.weight + weightOf cs := rfl

@[simp] theorem weightOf_append (cs ds : List Child) :
    weightOf (cs ++ ds) = weightOf cs + weightOf ds := by
  induction cs with
  | nil => simp [weightOf]
  | cons c cs ih => rw [List.cons_append, weightOf_cons, ih, weightOf_cons, Nat.add_assoc]

private theorem weightOf_tokens (ls : List Leaf) : weightOf (ls.map .token) = ls.length := by
  induction ls with
  | nil => rfl
  | cons l ls ih => rw [List.map_cons, weightOf_cons, ih, List.length_cons, weight, Nat.add_comm]

private theorem weightOf_ofParameter (p : Separated Parameter) :
    weightOf (ofParameter p) = Parameter.weight p := by
  simp only [ofParameter, weightOf_append, weightOf_tokens, weight, weightOf,
    Parameter.weight]
  omega

private theorem weightOf_ofParameters (p : Parameters) : weightOf (ofParameters p) = p.weight := by
  have h (ps : List (Separated Parameter)) :
      weightOf (ps.flatMap ofParameter) = Parameter.weightOf ps := by
    induction ps with
    | nil => rfl
    | cons q ps ih =>
      rw [List.flatMap_cons, weightOf_append, weightOf_ofParameter, ih, Parameter.weightOf]
  simp only [ofParameters, List.cons_append, weightOf_cons, weightOf_append, h, weightOf, weight,
    Parameters.weight]
  omega

private theorem weightOf_ofStatements (ss : Statements) :
    weightOf (ofStatements ss) = ss.weight := by
  match ss with
  | .nil => rfl
  | .cons s sep rest =>
    simp only [ofStatements, List.cons_append, weightOf_cons, weightOf_append, weightOf_tokens,
      weightOf_ofStatements rest, weight, Statements.weight]
    omega

private theorem weightOf_ofBody (b : Body) : weightOf (ofBody b) = b.weight := by
  obtain ⟨o, ss, v, semi, c⟩ := b
  have hv : weightOf (v.toOption.toList.map .element) = v.weight := by
    cases v with
    | nothing => rfl
    | value e => rfl
  simp only [ofBody, Body.opening, Body.statements, Body.value, Body.semicolon, Body.closing,
    List.cons_append, weightOf_cons, weightOf_append, hv, weightOf_ofStatements, weightOf_tokens,
    Body.weight, weight, weightOf]
  omega

/-- A place weighs one more than the places directly below it together. -/
theorem weight_eq (c : Child) : c.weight = weightOf c.children + 1 := by
  match c with
  | .token _ => rfl
  | .declaration n => rw [children, weightOf_tokens, weight]
  | .type _ => rfl
  | .statement (.expression e) => rfl
  | .statement (.binding k n eq e) =>
    simp only [children, weightOf_cons, weight, Statement.weight, weightOf]
    omega
  | .element (.token l) => rfl
  | .element (.declaration n) => rfl
  | .element (.reference n _) => rw [children, weightOf_tokens, weight, Element.weight]
  | .element (.path q d s) =>
    simp only [children, weightOf_cons, weight, Element.weight, weightOf]
    omega
  | .element (.literal _ l) => rfl
  | .element (.type l) => rfl
  | .element (.parameters p) => rw [children, weightOf_ofParameters, weight, Element.weight]
  | .element (.body b) => rw [children, weightOf_ofBody, weight, Element.weight]
  | .element (.function p b) =>
    rw [children, weightOf_append, weightOf_ofParameters, weightOf_ofBody, weight, Element.weight]
  | .element (.statement s) => rfl
  | .element (.script ss) => rw [children, weightOf_ofStatements, weight, Element.weight]

/-- Going down from a place makes the stack lighter. -/
theorem weightOf_children_lt (c : Child) (rest : List Child) :
    weightOf (c.children ++ rest) < weightOf (c :: rest) := by
  rw [weightOf_append, weightOf_cons, weight_eq]
  omega

/-- Taking a place off makes the stack lighter. -/
theorem weightOf_rest_lt (c : Child) (rest : List Child) :
    weightOf rest < weightOf (c :: rest) := by
  rw [weightOf_cons, weight_eq]
  omega

/-- The leaves below a stack of places, the top of the stack first. -/
def leavesOf : List Child → List Leaf
  | [] => []
  | .token l :: rest => l :: leavesOf rest
  | c :: rest => leavesOf (c.children ++ rest)
termination_by stack => weightOf stack
decreasing_by
  · exact weightOf_rest_lt _ rest
  · exact weightOf_children_lt c rest

/-- The leaves of a place in source order, missing and hidden ones included. -/
def leaves (c : Child) : List Leaf := leavesOf [c]

/-- There is a leaf, and all leaves are missing. -/
def isMissing (c : Child) : Bool := !c.leaves.isEmpty && c.leaves.all (·.missing)

/-- The places of a stack and all places below them, each with its depth and before the places
below it. -/
def outlineOf : List (Nat × Child) → List (Nat × Child)
  | [] => []
  | (depth, c) :: rest => (depth, c) :: outlineOf (c.children.map (depth + 1, ·) ++ rest)
termination_by stack => weightOf (stack.map Prod.snd)
decreasing_by
  rw [List.map_append, List.map_map, show Prod.snd ∘ (depth + 1, ·) = (id : Child → Child) from rfl,
    List.map_id]
  exact weightOf_children_lt c _

end Child

namespace Element

def leaves (e : Element) : List Leaf := (Child.element e).leaves

def isMissing (e : Element) : Bool := (Child.element e).isMissing

/-- Source text with the trivia of the first leaf. -/
def fullText (e : Element) : Text := e.leaves.flatMap Leaf.fullText

/-- Source text without the trivia of the first leaf. -/
def text (e : Element) : Text :=
  match e.leaves with
  | [] => []
  | l :: rest => l.text ++ rest.flatMap Leaf.fullText

/-- From the first to the last leaf that is not missing. -/
def range? (e : Element) : Option Range :=
  let present := e.leaves.filter (!·.missing)
  match present.head?, present.getLast? with
  | some first, some last => some ⟨first.offset, max last.range.stop first.offset⟩
  | _, _ => none

/-- Every place in an element with its depth, from the outside in and from left to right. -/
def outline (e : Element) : List (Nat × Child) := Child.outlineOf [(0, .element e)]

end Element
end CommandGrammar
