import CommandGrammar.Source
import CommandGrammar.Tree.Child

/-! Coded messages with a place in the source. Rules report nothing themselves: what is missing is
read off the tree, and what could not be read off the tokens. -/
namespace CommandGrammar

namespace Diagnostic

inductive Code where
  | invalidCharacter | missingDelimiter | missingName | missingReference | missingExpression
  | missingValue | missingString | missingType | missingInputText | missingFunction | missingBody
  | missingStatement | unexpectedInput | expectedToken
  deriving DecidableEq, Repr

namespace Code

def all : List Code :=
  [.invalidCharacter, .missingDelimiter, .missingName, .missingReference, .missingExpression,
   .missingValue, .missingString, .missingType, .missingInputText, .missingFunction, .missingBody,
   .missingStatement, .unexpectedInput, .expectedToken]

def name : Code → String
  | .invalidCharacter => "E0101"
  | .missingDelimiter => "E0201"
  | .missingName => "E0301"
  | .missingReference => "E0302"
  | .missingExpression => "E0401"
  | .missingValue => "E0402"
  | .missingString => "E0403"
  | .missingType => "E0404"
  | .missingInputText => "E0405"
  | .missingFunction => "E0701"
  | .missingBody => "E0702"
  | .missingStatement => "E0703"
  | .unexpectedInput => "E0901"
  | .expectedToken => "E0902"

def ofName? (s : String) : Option Code := all.find? fun c => c.name == s

def category : Code → String
  | .invalidCharacter => "lexical error"
  | .missingDelimiter => "structural error"
  | .missingName | .missingReference => "name error"
  | .missingExpression | .missingValue | .missingString | .missingType | .missingInputText =>
    "expression error"
  | .missingFunction | .missingBody | .missingStatement => "function error"
  | .unexpectedInput | .expectedToken => "syntax error"

def message : Code → String
  | .invalidCharacter => "invalid character"
  | .missingDelimiter => "missing delimiter"
  | .missingName => "expected <name>"
  | .missingReference => "expected name reference"
  | .missingExpression => "expected <expression>"
  | .missingValue => "expected <value>"
  | .missingString => "expected <string>"
  | .missingType => "expected <type>"
  | .missingInputText => "expected <input_text>"
  | .missingFunction => "expected <function_declaration>"
  | .missingBody => "expected <function_body>"
  | .missingStatement => "expected <statement>"
  | .unexpectedInput => "unexpected input"
  | .expectedToken => "expected token"

/-- The code tells of a placeholder. -/
def isMissing (c : Code) : Bool := c != .invalidCharacter && c != .unexpectedInput

end Code
end Diagnostic

structure Diagnostic where
  code : Diagnostic.Code
  message : String
  range : Range
  deriving DecidableEq, Repr

namespace Diagnostic

private def plain (c : Code) : Code × String := (c, c.message)

private def describeLeaf (k : Kind) : Code × String :=
  if k = .inputText then plain .missingInputText
  else if k = .identifier then plain .missingName
  else match k.fixedText? with
    | some t =>
      (if k.isPunctuation then .missingDelimiter else .expectedToken,
        "expected '" ++ String.ofList t ++ "'")
    | none => (.expectedToken, "expected " ++ k.name)

/-- Code and message for a missing place. -/
def describe : Child → Code × String
  | .token l => describeLeaf l.kind
  | .declaration _ => plain .missingName
  | .type _ => plain .missingType
  | .statement _ => plain .missingStatement
  | .element (.token l) => describeLeaf l.kind
  | .element (.declaration _) => plain .missingName
  | .element (.reference _ symbols) => (.missingReference, "expected " ++ symbols.label)
  | .element (.literal .string _) => plain .missingString
  | .element (.literal _ _) => plain .missingValue
  | .element (.type _) => plain .missingType
  | .element (.function _ _) => plain .missingFunction
  | .element (.body _) => plain .missingBody
  | .element (.statement _) => plain .missingStatement
  | .element (.script _) => plain .missingStatement
  | .element (.path _ _ _) => plain .missingExpression
  | .element (.parameters _) => plain .missingExpression

/-- Reports each outermost missing place of a stack, right behind the last leaf before it. -/
def missingOf (lastEnd : Nat) : List Child → List Diagnostic
  | [] => []
  | c :: rest =>
    if c.isMissing then
      let (code, message) := describe c
      ⟨code, message, .point lastEnd⟩ :: missingOf lastEnd rest
    else match c with
      | .token l => missingOf l.range.stop rest
      | c => missingOf lastEnd (c.children ++ rest)
termination_by stack => Child.weightOf stack
decreasing_by
  · exact Child.weightOf_rest_lt c rest
  · exact Child.weightOf_rest_lt _ rest
  · exact Child.weightOf_children_lt c rest

/-- The place of a message in front of all leaves. -/
def start (e : Element) : Nat := (e.leaves.head?.filter (!·.missing)).elim 0 Leaf.offset

/-- One message for each outermost missing place of an element, in source order. -/
def missing (e : Element) : List Diagnostic := missingOf (start e) [.element e]

/-- One message for each token that could not be read. -/
def lexical (ts : List Token) : List Diagnostic :=
  (ts.filter (·.kind == .badToken)).map fun t =>
    ⟨.invalidCharacter, "unexpected character '" ++ String.ofList t.text ++ "'", t.range⟩

end Diagnostic
end CommandGrammar
