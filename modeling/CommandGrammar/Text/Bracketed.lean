import CommandGrammar.Text.Blank

/-! The content of a spelling in square brackets and of a wrapped guid. -/
namespace CommandGrammar.Text

def dropOpening (c : Char) : Text → Text
  | [] => []
  | d :: rest => if d = c then rest else d :: rest

def dropClosing (c : Char) (t : Text) : Text := (dropOpening c t.reverse).reverse

/-- What stands between the brackets, without blanks at either end. Each bracket may be absent. -/
def bracketedContent (t : Text) : Text := trim (dropClosing ']' (dropOpening '[' t))

/-- What stands between `opening` and `closing`, both of which have to be there. -/
def between? (opening : Text) (closing : Char) (t : Text) : Option Text :=
  if opening.isPrefixOf t then
    let inner := t.drop opening.length
    if inner.getLast? = some closing then some inner.dropLast else none
  else none

/-- The digits of a guid, with or without the wrapper `guid( )`. -/
def guidDigits (t : Text) : Text := ((between? "guid(".toList ')' t).map trim).getD t

end CommandGrammar.Text
