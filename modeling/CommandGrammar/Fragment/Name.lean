import CommandGrammar.Fragment.RawText

/-! The spellings of a name. -/
namespace CommandGrammar

inductive NameForm where
  | identifier | bracketed | braced | quoted | bracketedString
  deriving DecidableEq, Repr

namespace NameForm

/-- The forms in the order in which they are tried. -/
def all : List NameForm := [.identifier, .bracketed, .braced, .quoted, .bracketedString]

def name : NameForm → String
  | .identifier => "Identifier"
  | .bracketed => "Bracketed"
  | .braced => "Braced"
  | .quoted => "Quoted"
  | .bracketedString => "BracketedString"

def kind : NameForm → Kind
  | .identifier => .tokenName
  | .bracketed => .bracketedName
  | .braced => .bracedName
  | .quoted => .quotedName
  | .bracketedString => .bracketedStringName

end NameForm

namespace Fragment

def identifierLike : Grammar Leaf := .satisfy (·.kind.isIdentifierLike)

def identifierName : Grammar Name := identifierLike.map .plain

def bracketedName : Grammar Name :=
  (Grammar.seq3 (.text ['[']) (.kind .stringLiteral) (.text [']'])).map fun (o, n, c) =>
    .bracketed o n c

def bracedName : Grammar Name :=
  (Grammar.seq3 (.text ['{']) identifierLike (.text ['}'])).map fun (o, n, c) => .braced o n c

/-- A name with wildcards. -/
def wildcarded : Grammar Element :=
  ((Grammar.kind .wildcardedIdentifier).map fun l => .declaration (.wildcarded l)).withLabel
    "<wildcarded_name>"

def nameForm (multiline : Bool) : NameForm → Grammar Name
  | .identifier => identifierName
  | .bracketed => bracketedName
  | .braced => bracedName
  | .quoted => (Grammar.kind .stringLiteral).map .quoted
  | .bracketedString => (bracketedRun multiline).map .bracketedString

/-- A name in the first of the given forms that matches. -/
def nameIn (forms : List NameForm) (multiline : Bool) : Grammar Name :=
  (Grammar.first (forms.map (nameForm multiline))).withLabel "<name>"

def name (multiline : Bool) : Grammar Name := nameIn NameForm.all multiline

end Fragment
end CommandGrammar
