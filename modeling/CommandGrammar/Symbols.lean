/-! Categories of symbols and sets of them. A reference carries the categories it may bind to. -/
namespace CommandGrammar

inductive Category where
  | column | table | externalTable | materializedView | database | cluster | databaseFunction
  | entityGroup
  deriving DecidableEq, Repr

namespace Category

def all : List Category :=
  [.column, .table, .externalTable, .materializedView, .database, .cluster, .databaseFunction,
   .entityGroup]

def index : Category → Nat
  | .column => 0
  | .table => 1
  | .externalTable => 2
  | .materializedView => 3
  | .database => 4
  | .cluster => 5
  | .databaseFunction => 6
  | .entityGroup => 7

def name : Category → String
  | .column => "Column"
  | .table => "Table"
  | .externalTable => "ExternalTable"
  | .materializedView => "MaterializedView"
  | .database => "Database"
  | .cluster => "Cluster"
  | .databaseFunction => "DatabaseFunction"
  | .entityGroup => "EntityGroup"

def ofName? (s : String) : Option Category := all.find? fun c => c.name == s

/-- The word for a category in the label of a rule. -/
def word : Category → String
  | .column => "column"
  | .table => "table"
  | .externalTable => "externaltable"
  | .materializedView => "materializedview"
  | .database => "database"
  | .cluster => "cluster"
  | .databaseFunction => "function"
  | .entityGroup => "entitygroup"

/-- The order of words in a label: the broad categories first, then the others as declared. -/
def labelOrder : List Category :=
  [.database, .table, .column, .externalTable, .materializedView, .cluster, .databaseFunction,
   .entityGroup]

end Category

/-- A set of categories, one bit for each. -/
structure SymbolSet where
  bits : BitVec 8
  deriving DecidableEq, Repr

namespace SymbolSet

def none : SymbolSet := ⟨0⟩

def any : SymbolSet := ⟨.allOnes 8⟩

def single (c : Category) : SymbolSet := ⟨.twoPow 8 c.index⟩

def union (a b : SymbolSet) : SymbolSet := ⟨a.bits ||| b.bits⟩

instance : Union SymbolSet := ⟨union⟩

def ofList (cs : List Category) : SymbolSet := cs.foldr (fun c s => single c ∪ s) none

def databaseOrTable : SymbolSet := ofList [.database, .table]

def databaseOrTableOrColumn : SymbolSet := ofList [.database, .table, .column]

def tableOrColumn : SymbolSet := ofList [.table, .column]

instance : Membership Category SymbolSet := ⟨fun s c => s.bits.getLsbD c.index = true⟩

instance (c : Category) (s : SymbolSet) : Decidable (c ∈ s) :=
  inferInstanceAs (Decidable (s.bits.getLsbD c.index = true))

/-- Every category of `b` is in `a`. -/
def contains (a b : SymbolSet) : Bool := a.bits &&& b.bits == b.bits

/-- Some category is in both. -/
def intersects (a b : SymbolSet) : Bool := a.bits &&& b.bits != 0

def isEmpty (s : SymbolSet) : Bool := s.bits == 0

def toList (s : SymbolSet) : List Category := Category.all.filter (· ∈ s)

def names (s : SymbolSet) : List String := s.toList.map Category.name

/-- The label of a rule that reads a name of one of these categories. -/
def label (s : SymbolSet) : String :=
  if s = any ∨ s = none then "<name>"
  else "<" ++ "_or_".intercalate ((Category.labelOrder.filter (· ∈ s)).map Category.word) ++ ">"

end SymbolSet
end CommandGrammar
