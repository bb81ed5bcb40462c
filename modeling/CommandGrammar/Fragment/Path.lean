import CommandGrammar.Grammar.Basic
import CommandGrammar.Tree.Spine

/-! Chains `a.b.c`. Behind a separator something has to follow: where it does not, a placeholder
ends the link and the chain may go on. -/
namespace CommandGrammar.Fragment

def link (continuation : Grammar Element) (separator : Text) (placeholder : Element) :
    Grammar Link :=
  ((Grammar.text separator).hide.seq (continuation.required placeholder)).map fun (d, e) => ⟨d, e⟩

/-- Reads `head` and the links behind it, nested to the left. -/
def path (head continuation : Grammar Element) (separator : Text) (placeholder : Element) :
    Grammar Element :=
  .foldLeft (fun e l => .path e l.dot l.selector) head (link continuation separator placeholder)

end CommandGrammar.Fragment
