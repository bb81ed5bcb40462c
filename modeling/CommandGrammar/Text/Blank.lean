import CommandGrammar.Text.Basic

/-! Blank characters are those with the Unicode property `White_Space`. -/
namespace CommandGrammar.Text

def isBlank (c : Char) : Bool :=
  let n := c.toNat
  (0x09 ≤ n && n ≤ 0x0D) || n == 0x20 || n == 0x85 || n == 0xA0 || n == 0x1680 ||
    (0x2000 ≤ n && n ≤ 0x200A) || n == 0x2028 || n == 0x2029 || n == 0x202F || n == 0x205F ||
    n == 0x3000

def trimLeft (t : Text) : Text := t.dropWhile isBlank

def trimRight (t : Text) : Text := (trimLeft t.reverse).reverse

/-- The text without the blanks at either end. -/
def trim (t : Text) : Text := trimRight (trimLeft t)

end CommandGrammar.Text
