import CommandGrammar.Dump.Record
import CommandGrammar.Tree.Element

/-! Trees on one line. -/
namespace CommandGrammar
open Dump

def Leaf.dump (l : Leaf) : String :=
  record "SyntaxToken"
    [("kind", l.kind.name), ("trivia", quoted l.trivia), ("text", quoted l.text),
     ("offset", toString l.offset), ("missing", bool l.missing), ("hidden", bool l.hidden)]

def Name.dump : Name → String
  | .plain l => tagged "Token" (record "TokenName" [("identifier", l.dump)])
  | .bracketed o n c =>
    tagged "Bracketed" (record "BracketedName"
      [("open_bracket", o.dump), ("name", n.dump), ("close_bracket", c.dump)])
  | .braced o n c =>
    tagged "Braced" (record "BracedName"
      [("open_brace", o.dump), ("name", n.dump), ("close_brace", c.dump)])
  | .wildcarded l => tagged "Wildcarded" (record "WildcardedName" [("pattern", l.dump)])
  | .quoted l => tagged "Quoted" (record "QuotedName" [("literal", l.dump)])
  | .bracketedString l =>
    tagged "BracketedString" (record "BracketedStringName" [("literal", l.dump)])

namespace Dump

def declaration (n : Name) : String := record "NameDeclaration" [("name", n.dump)]

def type (l : Leaf) : String := record "TypeExpression" [("token", l.dump)]

def separated (element : String) (separator : Option Leaf) : String :=
  record "Separated" [("element", element), ("separator", option (separator.map Leaf.dump))]

def parameter (p : Parameter) : String :=
  record "FunctionParameter"
    [("name", declaration p.name), ("colon", p.colon.dump), ("ty", type p.type)]

def parameters (p : Parameters) : String :=
  record "FunctionParameters"
    [("open_paren", p.opening.dump),
     ("parameters", list (p.list.map fun q => separated (parameter q.element) q.separator)),
     ("close_paren", p.closing.dump)]

/-- A chain from its segments and separators. Without separators it is its one segment. -/
def chain (parts : List String × List String) : String :=
  match parts with
  | ([s], []) => s
  | (segments, dots) =>
    tagged "Path" (record "PathExpression" [("segments", list segments), ("dots", list dots)])

end Dump

mutual

/-- The segments of an element and the separators between them. -/
def Element.dumpParts : Element → List String × List String
  | .token l => ([tagged "Token" l.dump], [])
  | .declaration n => ([tagged "NameDeclaration" (declaration n)], [])
  | .reference n s =>
    ([tagged "NameReference"
      (record "NameReference" [("name", n.dump), ("symbols", symbols s)])], [])
  | .path q d s => (q.dumpParts.1 ++ [chain s.dumpParts], q.dumpParts.2 ++ [d.dump])
  | .literal sort l =>
    ([tagged "Literal" (record "LiteralExpression" [("kind", sort.name), ("token", l.dump)])], [])
  | .type l => ([tagged "Type" (type l)], [])
  | .parameters p => ([tagged "FunctionParameters" (parameters p)], [])
  | .body b => ([tagged "FunctionBody" b.dump], [])
  | .function p b =>
    ([tagged "FunctionDeclaration"
      (record "FunctionDeclaration" [("parameters", parameters p), ("body", b.dump)])], [])
  | .statement s => ([tagged "Statement" s.dump], [])
  | .script ss =>
    ([tagged "Statements" (record "StatementList" [("statements", list ss.dumpList)])], [])

def Body.dump : Body → String
  | .mk o ss v semi c =>
    record "FunctionBody"
      [("open_brace", o.dump), ("statements", list ss.dumpList), ("expression", v.dump),
       ("semicolon", option (semi.map Leaf.dump)), ("close_brace", c.dump)]

def Yield.dump : Yield → String
  | .nothing => option none
  | .value e => option (some (chain e.dumpParts))

def Statement.dump : Statement → String
  | .expression e =>
    tagged "Expression" (record "ExpressionStatement" [("expression", chain e.dumpParts)])
  | .binding k n eq e =>
    tagged "Let" (record "LetStatement"
      [("let_keyword", k.dump), ("name", declaration n), ("equal", eq.dump),
       ("expression", chain e.dumpParts)])

def Statements.dumpList : Statements → List String
  | .nil => []
  | .cons s sep rest => separated s.dump sep :: rest.dumpList

end

def Element.dump (e : Element) : String := chain e.dumpParts

end CommandGrammar
