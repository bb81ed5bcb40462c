import CommandGrammar.Grammar.Run
import CommandGrammar.Rule.Set

/-! Reading a source step by step. A step that matches moves on behind what it matched. -/
namespace CommandGrammar.Session

inductive Step where
  | rule (rule : Rule)
  | required (rule : Rule)
  | text (text : Text)
  /-- One token of any kind. -/
  | skip
  | seek (position : Nat)
  | peek
  deriving DecidableEq, Repr

inductive Answer where
  | nothing
  | element (element : Element)
  | leaf (leaf : Leaf)
  | token (token : Token)

/-- Answer and next position of a grammar. -/
def take {α : Type} (wrap : α → Answer) (source : Source) (position : Nat) (g : Grammar α) :
    Answer × Nat :=
  match source.parse g position with
  | some (a, stop) => (wrap a, stop)
  | none => (.nothing, position)

def step (rs : RuleSet) (source : Source) (position : Nat) : Step → Answer × Nat
  | .rule r => take .element source position (rs.grammar r)
  | .required r => take .element source position (rs.required r)
  | .text t => take .leaf source position (.text t)
  | .skip => take .leaf source position .anyToken
  | .seek p => (.nothing, p)
  | .peek => (.token (source.peek position), position)

/-- The answer to each step and the position after it. -/
def run (rs : RuleSet) (source : Source) (position : Nat) : List Step → List (Answer × Nat)
  | [] => []
  | s :: rest =>
    let (answer, next) := step rs source position s
    (answer, next) :: run rs source next rest

end CommandGrammar.Session
