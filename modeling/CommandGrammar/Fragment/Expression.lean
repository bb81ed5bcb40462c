import CommandGrammar.Fragment.Name
import CommandGrammar.Fragment.Path
import CommandGrammar.Tree.Placeholder

/-! Literals, types and expressions. -/
namespace CommandGrammar.Fragment

def literalOf (sort : LiteralSort) (kind : Kind) : Grammar Element :=
  (Grammar.kind kind).map (.literal sort)

def string : Grammar Element := (literalOf .string .stringLiteral).withLabel "<string>"

def guid : Grammar Element := (literalOf .guid .guidLiteral).withLabel "<guid>"

def rawGuid : Grammar Element := (literalOf .guid .rawGuidLiteral).withLabel "<guid>"

def guidOrString : Grammar Element := .first [guid, string, rawGuid]

def literal : Grammar Element :=
  (Grammar.first ([.long, .real, .boolean, .string, .guid].map fun s =>
    literalOf s s.tokenKind)).withLabel "<literal>"

def value : Grammar Element := (Grammar.first [guid, rawGuid, literal]).withLabel "<value>"

/-- The names of scalar types. -/
def scalarTypes : List Text :=
  ["bool", "boolean", "date", "datetime", "decimal", "double", "dynamic", "guid", "int", "long",
   "real", "string", "time", "timespan"].map String.toList

def isTypeName (t : Token) : Bool := t.kind == .identifier && scalarTypes.contains t.text

def typeName : Grammar Leaf := .satisfy isTypeName

def type : Grammar Element := (typeName.map .type).withLabel "<type>"

/-- A name that may refer to anything. -/
def anyReference : Grammar Element :=
  (Grammar.first [identifierName, bracketedName]).map fun n => .reference n .any

/-- References joined by dots. -/
def dottedReference : Grammar Element :=
  path anyReference anyReference ['.'] (Placeholder.reference .any).element

def expression : Grammar Element :=
  (Grammar.first [literal, dottedReference]).withLabel "<expression>"

end CommandGrammar.Fragment
