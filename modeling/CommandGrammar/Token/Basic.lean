import CommandGrammar.Kind

/-! A token keeps the trivia in front of it, so that trivia and text of all tokens give back what
was read. -/
namespace CommandGrammar

structure Token where
  kind : Kind
  trivia : Text
  text : Text
  /-- Where `text` starts; the trivia ends there. -/
  offset : Nat
  deriving DecidableEq, Repr

namespace Token

/-- The marker behind the last token. -/
def atEnd (trivia : Text) (offset : Nat) : Token := ⟨.endOfText, trivia, [], offset⟩

def isEnd (t : Token) : Bool := t.kind == .endOfText

def range (t : Token) : Range := ⟨t.offset, t.offset + t.text.byteSize⟩

/-- The range with the trivia. -/
def fullRange (t : Token) : Range := ⟨t.offset - t.trivia.byteSize, t.range.stop⟩

def fullText (t : Token) : Text := t.trivia ++ t.text

end Token
end CommandGrammar
