import CommandGrammar.Fragment.Expression

/-! Statements, scripts, and functions with their parameters and bodies. -/
namespace CommandGrammar.Fragment

/-- A token of the given kind, or a placeholder for it. -/
def requiredKind (k : Kind) : Grammar Leaf := (Grammar.kind k).required (.placeholder k)

def binding : Grammar Statement :=
  (((Grammar.kind .letKeyword).seq identifierName).seq
    ((Grammar.text ['=']).seq (expression.required Placeholder.expression.element))).map
      fun ((k, n), (eq, e)) => .binding k n eq e

def statement : Grammar Statement := .first [binding, expression.map .expression]

def script : Grammar Element :=
  (statement.seq (Grammar.kind .semicolon).optional).many.map fun ss =>
    .script (.ofList (ss.map fun (s, sep) => ⟨s, sep⟩))

def parameter : Grammar Parameter :=
  (Grammar.seq3 identifierName (requiredKind .colon)
    (typeName.required (.placeholder .identifier))).map fun (n, c, t) => ⟨n, c, t⟩

/-- Puts each separator behind the element before it. -/
def attachSeparators {α : Type} (head : α) : List (Leaf × α) → List (Separated α)
  | [] => [⟨head, none⟩]
  | (sep, next) :: rest => ⟨head, some sep⟩ :: attachSeparators next rest

def parameterList : Grammar (List (Separated Parameter)) :=
  (Grammar.separated parameter (.kind .comma)).map fun
    | none => []
    | some (head, rest) => attachSeparators head rest

def parameters : Grammar Parameters :=
  ((Grammar.seq3 (.kind .openParen) parameterList (requiredKind .closeParen)).map
    fun (o, ps, c) => ⟨o, ps, c⟩).withLabel "<function_parameters>"

/-- Statements that are each closed by a semicolon. -/
def closedStatements : Grammar Statements :=
  (statement.seq (.kind .semicolon)).many.map fun ss =>
    .ofList (ss.map fun (s, sep) => ⟨s, some sep⟩)

def body : Grammar Body :=
  ((Grammar.seq3 (.kind .openBrace)
    (.seq3 closedStatements expression.optional (Grammar.kind .semicolon).optional)
    (requiredKind .closeBrace)).map
      fun (o, (ss, v, semi), c) => .mk o ss (.ofOption v) semi c).withLabel "<function_body>"

def bodyElement : Grammar Element := (body.map .body).withLabel "<function_body>"

def function : Grammar Element :=
  ((parameters.seq body).map fun (p, b) => .function p b).withLabel "<function_declaration>"

end CommandGrammar.Fragment
