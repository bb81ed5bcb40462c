import CommandGrammar.Token.Basic
import CommandGrammar.Token.Lexicon

/-! Cutting a text into pieces and joining trivia to the token behind it. -/
namespace CommandGrammar

/-- A stretch of text with the kind it was read as. -/
structure Piece where
  kind : Kind
  text : Text
  deriving DecidableEq, Repr

namespace Piece
open Token.Lexicon

/-- Reads a committed literal: kind and length of the piece, if the literal begins here. -/
def readDelimited (d : Delimited) (s : Text) : Option (Kind × Nat) :=
  (d.body.longest s).map fun n =>
    if (s.drop n).head? = some d.closing ∧ d.complete.accepts (s.take n) = true then
      (d.kind, n + 1)
    else (.badToken, n)

/-- The longest match among the given lexemes, and of equally long ones the first. -/
def longestOf (s : Text) : List Lexeme → Option (Kind × Nat)
  | [] => none
  | l :: rest =>
    match l.pattern.longest s, longestOf s rest with
    | none, best => best
    | some n, none => some (l.kind, n)
    | some n, some (k, m) => if n < m then some (k, m) else some (l.kind, n)

/-- Kind and length of the piece at the start of a text. A character that starts nothing is bad. -/
def scan (s : Text) : Kind × Nat :=
  ((delimited.findSome? (readDelimited · s)).or (longestOf s lexemes)).getD (.badToken, 1)

/-- The pieces of a text. Each has at least one character. -/
def cut : Text → List Piece
  | [] => []
  | c :: rest =>
    let (kind, n) := scan (c :: rest)
    ⟨kind, c :: rest.take (n - 1)⟩ :: cut (rest.drop (n - 1))
termination_by s => s.length
decreasing_by simp only [List.length_drop, List.length_cons]; omega

end Piece

namespace Token

/-- Joins trivia to the token behind it. Trivia behind the last token goes to the end marker. -/
def ofPieces (offset : Nat) (trivia : Text) : List Piece → List Token
  | [] => [.atEnd trivia offset]
  | p :: rest =>
    if p.kind.isTrivia then ofPieces (offset + p.text.byteSize) (trivia ++ p.text) rest
    else ⟨p.kind, trivia, p.text, offset⟩ :: ofPieces (offset + p.text.byteSize) [] rest

/-- The tokens of a text, with the end marker last. -/
def ofText (s : Text) : List Token := ofPieces 0 [] (Piece.cut s)

end Token
end CommandGrammar
