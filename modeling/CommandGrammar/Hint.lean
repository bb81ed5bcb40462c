import CommandGrammar.Symbols

/-! Completion hints. A hint says which categories of symbols to offer where a rule could start. Its bits
are a vocabulary of their own, next to that of the sets that references carry. -/
namespace CommandGrammar

/-- The categories to offer, one bit for each. -/
structure Hint where
  bits : BitVec 8
  deriving DecidableEq, Repr

namespace Hint

def none : Hint := ⟨0⟩

def single : Category → Hint
  | .column => ⟨.twoPow 8 0⟩
  | .table => ⟨.twoPow 8 1⟩
  | .externalTable => ⟨.twoPow 8 2⟩
  | .materializedView => ⟨.twoPow 8 3⟩
  | .database => ⟨.twoPow 8 4⟩
  | .cluster => ⟨.twoPow 8 5⟩
  | .databaseFunction => ⟨.twoPow 8 6⟩
  | .entityGroup => ⟨.twoPow 8 7⟩

def union (a b : Hint) : Hint := ⟨a.bits ||| b.bits⟩

instance : Union Hint := ⟨union⟩

/-- Every category of `b` is in `a`. -/
def contains (a b : Hint) : Bool := a.bits &&& b.bits == b.bits

/-- The hint with the bits of a set. -/
def ofSymbols (symbols : SymbolSet) : Hint := ⟨symbols.bits &&& SymbolSet.any.bits⟩

/-- The categories that the hint asks for. -/
def symbols (h : Hint) : SymbolSet :=
  ((Category.all.filter fun c => h.contains (single c)).map .single).foldl (· ∪ ·) .none

instance : Coe Hint SymbolSet := ⟨symbols⟩

end Hint
end CommandGrammar
