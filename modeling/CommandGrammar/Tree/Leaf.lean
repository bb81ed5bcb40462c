import CommandGrammar.Token.Basic

/-! Leaves of the tree. A missing leaf stands for a token that was expected and absent; a hidden
leaf carries no meaning of its own. -/
namespace CommandGrammar

structure Leaf where
  kind : Kind
  trivia : Text
  text : Text
  offset : Nat
  missing : Bool
  hidden : Bool
  deriving DecidableEq, Repr

namespace Leaf

def ofToken (t : Token) : Leaf := ⟨t.kind, t.trivia, t.text, t.offset, false, false⟩

def placeholder (kind : Kind) : Leaf := ⟨kind, [], [], 0, true, false⟩

def hide (l : Leaf) : Leaf := { l with hidden := true }

def range (l : Leaf) : Range := ⟨l.offset, l.offset + l.text.byteSize⟩

def fullText (l : Leaf) : Text := l.trivia ++ l.text

/-- Length of trivia and text. -/
def fullSize (l : Leaf) : Nat := l.trivia.byteSize + l.text.byteSize

/-- The source of some tokens as one leaf. The first token's trivia is kept apart; of the others all
is text. No tokens give an empty leaf at `offset`. -/
def capture (kind : Kind) (offset : Nat) : List Token → Leaf
  | [] => ⟨kind, [], [], offset, false, false⟩
  | t :: rest => ⟨kind, t.trivia, t.text ++ rest.flatMap Token.fullText, t.offset, false, false⟩

end Leaf
end CommandGrammar
