import CommandGrammar.Token.Piece

/-! A source is a run of tokens that ends with an end marker. Rules read it through a window: the
tokens from a position to the next end marker. -/
namespace CommandGrammar

structure Source where
  /-- All tokens but the final one. -/
  front : List Token
  final : Token
  final_isEnd : final.isEnd = true

namespace Source

/-- Adds an end marker behind the last token unless there is one. -/
def ofTokens (ts : List Token) : Source :=
  match ts.getLast? with
  | none => ⟨[], .atEnd [] 0, rfl⟩
  | some t =>
    if ht : t.isEnd = true then ⟨ts.dropLast, t, ht⟩
    else ⟨ts, .atEnd [] t.range.stop, rfl⟩

def ofText (s : Text) : Source := ofTokens (Token.ofText s)

def tokens (s : Source) : List Token := s.front ++ [s.final]

/-- Number of tokens before the final end marker. -/
def size (s : Source) : Nat := s.front.length

/-- The token at a position. Every position past the end has the final end marker. -/
def peek (s : Source) (position : Nat) : Token := s.front.getD position s.final

def isEnd (s : Source) (position : Nat) : Bool := (s.peek position).isEnd

def offsetAt (s : Source) (position : Nat) : Nat := (s.peek position).offset

/-- The tokens at the positions from `first` up to but not including `stop`. -/
def slice (s : Source) (first stop : Nat) : List Token :=
  (List.range' first (stop - first)).map s.peek

end Source

/-- What a rule can see from where it stands. -/
structure Window where
  /-- Position of the first token. -/
  start : Nat
  /-- The tokens before the next end marker. -/
  tokens : List Token
  /-- Offset of that end marker. -/
  stop : Nat
  deriving DecidableEq, Repr

namespace Window

def advance (w : Window) (n : Nat) : Window := ⟨w.start + n, w.tokens.drop n, w.stop⟩

/-- Offset of the first token or, if there is none, of the end marker. -/
def offset (w : Window) : Nat := (w.tokens.head?.map (·.offset)).getD w.stop

@[simp] theorem advance_start (w : Window) (n : Nat) : (w.advance n).start = w.start + n := rfl

@[simp] theorem advance_tokens (w : Window) (n : Nat) :
    (w.advance n).tokens = w.tokens.drop n := rfl

@[simp] theorem advance_stop (w : Window) (n : Nat) : (w.advance n).stop = w.stop := rfl

end Window

/-- The window at a position. -/
def Source.window (s : Source) (position : Nat) : Window :=
  let ahead := s.front.drop position
  ⟨position, ahead.takeWhile (!·.isEnd), ((ahead.dropWhile (!·.isEnd)).headD s.final).offset⟩

end CommandGrammar
