import CommandGrammar.Fragment.Expression
import Mathlib.Computability.Language

/-! The phrases of the query language as sets of token sequences. A bracketed part that may be left
out is `1 + part`; a part that may be repeated is `part∗`. -/
namespace CommandGrammar.Phrase
open Computability

/-- One token that has a property. -/
def single (accepts : Token → Prop) : Language Token := {w | ∃ t, w = [t] ∧ accepts t}

def ofKind (k : Kind) : Language Token := single fun t => t.kind = k

/-- A token of a kind with one spelling, spelt so. -/
def mark (k : Kind) : Language Token := single fun t => t.kind = k ∧ k.fixedText? = some t.text

/-- The keyword may be used as a name. -/
def identifier : Language Token := ofKind .identifier + ofKind .letKeyword

def type : Language Token := single fun t => t.kind = .identifier ∧ t.text ∈ Fragment.scalarTypes

/-- As in `name: type`. -/
def parameter : Language Token := identifier * mark .colon * type

def parameters : Language Token :=
  mark .openParen * (1 + parameter * (mark .comma * parameter)∗) * mark .closeParen

/-- As in `name` or `['name']`. -/
def reference : Language Token :=
  identifier + mark .openBracket * ofKind .stringLiteral * mark .closeBracket

def literal : Language Token :=
  ofKind .longLiteral + ofKind .realLiteral + ofKind .booleanLiteral + ofKind .stringLiteral +
    ofKind .guidLiteral

def expression : Language Token := literal + reference * (mark .dot * reference)∗

def binding : Language Token := ofKind .letKeyword * identifier * mark .equal * expression

def statement : Language Token := binding + expression

def script : Language Token := (statement * (1 + mark .semicolon))∗

def body : Language Token :=
  mark .openBrace * (statement * mark .semicolon)∗ * (1 + expression) * (1 + mark .semicolon) *
    mark .closeBrace

def function : Language Token := parameters * body

end CommandGrammar.Phrase
