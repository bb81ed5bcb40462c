import CommandGrammar.Kind
import CommandGrammar.Pattern.Basic

/-! The shapes of tokens. A literal that opens with a quote or with `guid(` is committed to: its
body is read as far as it goes and then it is either closed or bad. All else is chosen by length. -/
namespace CommandGrammar.Token.Lexicon
open Pattern

def isLetter (c : Char) : Bool := c.isAlpha || c == '_'

def isDigit (c : Char) : Bool := c.isDigit

def isWordChar (c : Char) : Bool := isLetter c || isDigit c

def isHexDigit (c : Char) : Bool :=
  isDigit c || ('a' ≤ c && c ≤ 'f') || ('A' ≤ c && c ≤ 'F')

def isSpace (c : Char) : Bool :=
  c == ' ' || c == '\t' || c == '\r' || c == '\n' || c == '\x0c'

def blanks : Pattern := .star (.one fun c => c == ' ' || c == '\t')

def identifier : Pattern := .seq (.one isLetter) (.star (.one isWordChar))

/-- A name with a wildcard behind its first letters. -/
def wildcardInside : Pattern :=
  inOrder [identifier, char '*', .star (.one fun c => isWordChar c || c == '*')]

/-- A name that starts with a wildcard. -/
def wildcardFirst : Pattern :=
  inOrder [char '*', .one isWordChar, .star (.one fun c => isWordChar c || c == '*')]

def digits : Pattern := plus (.one isDigit)

def exponent : Pattern :=
  inOrder [.one fun c => c == 'e' || c == 'E', optional (.one fun c => c == '+' || c == '-'),
    digits]

def real : Pattern := inOrder [digits, char '.', digits, optional exponent]

def hexDigits (n : Nat) : Pattern := times n (.one isHexDigit)

def guid : Pattern :=
  inOrder [hexDigits 8, char '-', hexDigits 4, char '-', hexDigits 4, char '-', hexDigits 4,
    char '-', hexDigits 12]

def lineComment : Pattern := .seq (exactly ['/', '/']) (.star (.one (· != '\n')))

structure Lexeme where
  kind : Kind
  pattern : Pattern

/-- The kinds with one spelling. -/
def fixed : List Lexeme :=
  Kind.all.filterMap fun k => k.fixedText?.map fun t => ⟨k, exactly t⟩

/-- What is chosen by length. Of two equally long matches the one listed first wins, so that words
with a meaning of their own are no identifiers. -/
def lexemes : List Lexeme :=
  [⟨.whitespace, plus (.one isSpace)⟩, ⟨.lineComment, lineComment⟩] ++ fixed ++
  [⟨.booleanLiteral, exactly "true".toList⟩, ⟨.booleanLiteral, exactly "false".toList⟩,
   ⟨.identifier, identifier⟩, ⟨.wildcardedIdentifier, wildcardInside⟩,
   ⟨.wildcardedIdentifier, wildcardFirst⟩, ⟨.longLiteral, digits⟩, ⟨.realLiteral, real⟩,
   ⟨.rawGuidLiteral, guid⟩]

/-- A literal that is committed to as soon as its body begins. -/
structure Delimited where
  kind : Kind
  /-- What is read, as far as it goes. -/
  body : Pattern
  /-- The bodies that the closing character completes. -/
  complete : Pattern
  closing : Char

/-- A literal with backslash escapes, on one line. -/
def escapedLiteral (quote : Char) : Delimited :=
  let body := inOrder [optional (.one fun c => c == 'h' || c == 'H'), char quote,
    .star (.alt (.one fun c => c != quote && c != '\\' && c != '\n')
      (.seq (char '\\') (.one (· != '\n'))))]
  ⟨.stringLiteral, body, body, quote⟩

/-- A literal in which two quotes stand for one. -/
def verbatimLiteral (quote : Char) : Delimited :=
  let body := inOrder [char '@', char quote,
    .star (.alt (.one (· != quote)) (exactly [quote, quote]))]
  ⟨.stringLiteral, body, body, quote⟩

def wrappedGuid : Delimited where
  kind := .guidLiteral
  body := inOrder [exactly "guid(".toList, blanks, optional (.seq guid blanks)]
  complete := inOrder [exactly "guid(".toList, blanks, guid, blanks]
  closing := ')'

def delimited : List Delimited :=
  [escapedLiteral '"', escapedLiteral '\'', verbatimLiteral '"', verbatimLiteral '\'', wrappedGuid]

end CommandGrammar.Token.Lexicon
