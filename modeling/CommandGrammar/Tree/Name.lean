import CommandGrammar.Text.Bracketed
import CommandGrammar.Text.Quoted
import CommandGrammar.Tree.Leaf

/-! Names in their six spellings, and literals. -/
namespace CommandGrammar

inductive Name where
  /-- As in `Foo`. -/
  | plain (identifier : Leaf)
  /-- As in `['Foo Bar']`. -/
  | bracketed (opening name closing : Leaf)
  /-- As in `{Foo}`. -/
  | braced (opening name closing : Leaf)
  /-- As in `Foo*`. -/
  | wildcarded (pattern : Leaf)
  /-- As in `'Foo'`. -/
  | quoted (literal : Leaf)
  /-- As in `[Foo.Bar]`, a run of tokens taken as one. -/
  | bracketedString (literal : Leaf)
  deriving DecidableEq, Repr

namespace Name

def placeholder : Name := .plain (.placeholder .identifier)

def kind : Name → Kind
  | .plain _ => .tokenName
  | .bracketed .. => .bracketedName
  | .braced .. => .bracedName
  | .wildcarded _ => .wildcardedName
  | .quoted _ => .quotedName
  | .bracketedString _ => .bracketedStringName

def leaves : Name → List Leaf
  | .plain l | .wildcarded l | .quoted l | .bracketedString l => [l]
  | .bracketed o n c | .braced o n c => [o, n, c]

/-- The name itself, however it is spelt. -/
def simple : Name → Text
  | .plain l | .wildcarded l => l.text
  | .braced _ l _ => l.text
  | .bracketed _ l _ => l.text.quotedValue
  | .quoted l => l.text.quotedValue
  | .bracketedString l => l.text.bracketedContent

def isMissing (n : Name) : Bool := n.leaves.all (·.missing)

end Name

inductive LiteralSort where
  | guid | string | long | real | boolean
  deriving DecidableEq, Repr

namespace LiteralSort

def all : List LiteralSort := [.guid, .string, .long, .real, .boolean]

def name : LiteralSort → String
  | .guid => "Guid"
  | .string => "String"
  | .long => "Long"
  | .real => "Real"
  | .boolean => "Boolean"

def nodeKind : LiteralSort → Kind
  | .guid => .guidLiteralExpression
  | .string => .stringLiteralExpression
  | .long => .longLiteralExpression
  | .real => .realLiteralExpression
  | .boolean => .booleanLiteralExpression

def tokenKind : LiteralSort → Kind
  | .guid => .guidLiteral
  | .string => .stringLiteral
  | .long => .longLiteral
  | .real => .realLiteral
  | .boolean => .booleanLiteral

/-- The value that a spelling stands for. -/
def value (sort : LiteralSort) (t : Text) : Text :=
  match sort with
  | .string => if t.head? = some '[' then t.bracketedContent else t.quotedValue
  | .guid => t.guidDigits
  | .long | .real | .boolean => t

end LiteralSort
end CommandGrammar
