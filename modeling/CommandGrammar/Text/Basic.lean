/-! Text is a list of characters. Positions in it count the bytes of its UTF-8 form. -/
namespace CommandGrammar

abbrev Text := List Char

namespace Text

/-- Length of the UTF-8 form. -/
def byteSize : Text → Nat
  | [] => 0
  | c :: rest => c.utf8Size + byteSize rest

/-- A line feed or a carriage return occurs. -/
def hasLineBreak (t : Text) : Bool := t.any fun c => c == '\n' || c == '\r'

@[simp] theorem byteSize_nil : byteSize [] = 0 := rfl

@[simp] theorem byteSize_cons (c : Char) (t : Text) :
    byteSize (c :: t) = c.utf8Size + byteSize t := rfl

@[simp] theorem byteSize_append (s t : Text) : byteSize (s ++ t) = byteSize s + byteSize t := by
  induction s with
  | nil => simp
  | cons c s ih => rw [List.cons_append, byteSize_cons, ih, byteSize_cons, Nat.add_assoc]

@[simp] theorem hasLineBreak_append (s t : Text) :
    hasLineBreak (s ++ t) = (hasLineBreak s || hasLineBreak t) := by
  simp [hasLineBreak]

end Text

/-- A half-open interval of byte positions. -/
structure Range where
  start : Nat
  stop : Nat
  deriving DecidableEq, Repr

namespace Range

/-- The empty interval at a position. -/
def point (position : Nat) : Range := ⟨position, position⟩

end Range
end CommandGrammar
