import CommandGrammar.Grammar.Basic
import CommandGrammar.Tree.Element

/-! Source text taken over as it stands, as one leaf. -/
namespace CommandGrammar

/-- The tokens at the positions from `first` up to but not including `stop` as one leaf. -/
def Source.reconstruct (s : Source) (kind : Kind) (first stop : Nat) : Leaf :=
  .capture kind (s.offsetAt first) (s.slice first stop)

namespace Fragment

/-- The captured tokens as one leaf of the given kind. -/
def captured {α : Type} (kind : Kind) (g : Grammar α) : Grammar Leaf :=
  .capture (fun s => Leaf.capture kind s.offset s.tokens) g

/-- Everything up to the end. -/
def inputText : Grammar Element :=
  ((captured .inputText Grammar.anyToken.many).map Element.token).withLabel "<input_text>"

/-- Everything up to a closing bracket or the end. -/
def bracketedInputText : Grammar Element :=
  ((captured .inputText (Grammar.notText [[']']]).many).map Element.token).withLabel "<input_text>"

/-- A token inside a bracketed run. Unless the run may go over several lines, a line break in or
before a token ends it. -/
def isRunToken (multiline : Bool) (t : Token) : Bool :=
  t.text != [']'] && t.text != ['['] &&
    (multiline || !(t.trivia.hasLineBreak || t.text.hasLineBreak))

/-- An opening bracket and a run of tokens up to the next bracket, included if it is a closing
one. -/
def bracketedRun (multiline : Bool) : Grammar Leaf :=
  (captured .stringLiteral
    (.seq3 (.text ['[']) (Grammar.many (.satisfy (isRunToken multiline))) (.optional (.text [']'])))
  ).withLabel "<bracketed-string>"

end Fragment
end CommandGrammar
