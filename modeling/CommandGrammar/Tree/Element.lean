import CommandGrammar.Symbols
import CommandGrammar.Tree.Name

/-! The tree that rules return. Paths nest to the left: the qualifier of `a.b.c` is `a.b`. -/
namespace CommandGrammar

/-- An entry of a list with the separator behind it. -/
structure Separated (α : Type) where
  element : α
  separator : Option Leaf
  deriving DecidableEq, Repr

/-- As in `name: type`. -/
structure Parameter where
  name : Name
  colon : Leaf
  type : Leaf
  deriving DecidableEq, Repr

structure Parameters where
  opening : Leaf
  list : List (Separated Parameter)
  closing : Leaf
  deriving DecidableEq, Repr

mutual

inductive Element where
  | token (leaf : Leaf)
  | declaration (name : Name)
  | reference (name : Name) (symbols : SymbolSet)
  | path (qualifier : Element) (dot : Leaf) (selector : Element)
  | literal (sort : LiteralSort) (leaf : Leaf)
  | type (leaf : Leaf)
  | parameters (parameters : Parameters)
  | body (body : Body)
  | function (parameters : Parameters) (body : Body)
  | statement (statement : Statement)
  | script (statements : Statements)
  deriving DecidableEq

/-- As in `{ statement; value }`, possibly with a stray semicolon before the closing brace. -/
inductive Body where
  | mk (opening : Leaf) (statements : Statements) (value : Yield) (semicolon : Option Leaf)
      (closing : Leaf)
  deriving DecidableEq

/-- What a body yields behind its statements. -/
inductive Yield where
  | nothing
  | value (element : Element)
  deriving DecidableEq

inductive Statement where
  | expression (element : Element)
  /-- As in `let name = value`. -/
  | binding (keyword : Leaf) (name : Name) (equal : Leaf) (value : Element)
  deriving DecidableEq

/-- Statements, each with the separator behind it. -/
inductive Statements where
  | nil
  | cons (head : Statement) (separator : Option Leaf) (rest : Statements)
  deriving DecidableEq

end

namespace Parameters

def placeholder : Parameters := ⟨.placeholder .openParen, [], .placeholder .closeParen⟩

end Parameters

namespace Statements

def toList : Statements → List (Separated Statement)
  | .nil => []
  | .cons s sep rest => ⟨s, sep⟩ :: rest.toList

def ofList : List (Separated Statement) → Statements
  | [] => .nil
  | s :: rest => .cons s.element s.separator (ofList rest)

@[simp] theorem toList_ofList (l : List (Separated Statement)) : (ofList l).toList = l := by
  induction l with
  | nil => rfl
  | cons s l ih => simp [ofList, toList, ih]

end Statements

namespace Yield

def toOption : Yield → Option Element
  | .nothing => none
  | .value e => some e

def ofOption : Option Element → Yield
  | none => .nothing
  | some e => .value e

end Yield

namespace Body

def opening : Body → Leaf
  | .mk o _ _ _ _ => o

def statements : Body → Statements
  | .mk _ s _ _ _ => s

def value : Body → Yield
  | .mk _ _ v _ _ => v

def semicolon : Body → Option Leaf
  | .mk _ _ _ s _ => s

def closing : Body → Leaf
  | .mk _ _ _ _ c => c

def placeholder : Body :=
  .mk (.placeholder .openBrace) .nil .nothing none (.placeholder .closeBrace)

end Body

namespace Statement

def kind : Statement → Kind
  | .expression _ => .expressionStatement
  | .binding .. => .letStatement

end Statement

namespace Element

def kind : Element → Kind
  | .token l => l.kind
  | .declaration _ => .nameDeclaration
  | .reference .. => .nameReference
  | .path .. => .pathExpression
  | .literal s _ => s.nodeKind
  | .type _ => .primitiveTypeExpression
  | .parameters _ => .functionParameters
  | .body _ => .functionBody
  | .function .. => .functionDeclaration
  | .statement s => s.kind
  | .script _ => .statementList

end Element
end CommandGrammar
