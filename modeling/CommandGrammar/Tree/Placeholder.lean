import CommandGrammar.Tree.Element

/-! What stands in for an element that was required and absent. -/
namespace CommandGrammar

inductive Placeholder where
  | string | value | type | reference (symbols : SymbolSet) | declaration | function | body
  | expression | statement | inputText
  deriving DecidableEq, Repr

/-- The element, all of whose leaves are missing. -/
def Placeholder.element : Placeholder → Element
  | .string => .literal .string (.placeholder .stringLiteral)
  | .value => .literal .long (.placeholder .longLiteral)
  | .type => .type (.placeholder .identifier)
  | .reference symbols => .reference .placeholder symbols
  | .declaration => .declaration .placeholder
  | .function => .function .placeholder .placeholder
  | .body => .body .placeholder
  | .expression => .reference .placeholder .any
  | .statement => .statement (.expression (.reference .placeholder .any))
  | .inputText => .token (.placeholder .inputText)

end CommandGrammar
