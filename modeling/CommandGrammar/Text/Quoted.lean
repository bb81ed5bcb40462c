import CommandGrammar.Text.Basic

/-! Quoted literals in two styles. An escaped literal writes special characters behind a backslash;
a verbatim literal starts with `@` and writes its own quote twice. -/
namespace CommandGrammar.Text

def isQuote (c : Char) : Bool := c == '"' || c == '\''

inductive QuoteStyle where
  | escaped
  | verbatim
  deriving DecidableEq, Repr

/-- The character a backslash and `c` stand for. -/
def escapeMeaning (c : Char) : Char :=
  if c = 'n' then '\n' else if c = 't' then '\t' else if c = 'r' then '\r' else c

/-- Reads an escaped body up to its closing quote, or to the end if it has none. -/
def unescape (quote : Char) : Text → Text
  | [] => []
  | c :: rest =>
    if c = quote then []
    else if c = '\\' then
      match rest with
      | [] => []
      | e :: rest => escapeMeaning e :: unescape quote rest
    else c :: unescape quote rest

/-- Reads a verbatim body up to its closing quote, or to the end if it has none. -/
def undouble (quote : Char) : Text → Text
  | [] => []
  | c :: rest =>
    if c = quote then
      match rest with
      | [] => []
      | d :: rest => if d = quote then quote :: undouble quote rest else []
    else c :: undouble quote rest

/-- Style, quote and what follows the opening quote. An `h` before the quote marks the value as
confidential and is not part of it. -/
def openQuote? : Text → Option (QuoteStyle × Char × Text)
  | [] => none
  | c :: rest =>
    if isQuote c then some (.escaped, c, rest)
    else match rest with
      | [] => none
      | q :: rest =>
        if isQuote q then
          if c = '@' then some (.verbatim, q, rest)
          else if c = 'h' ∨ c = 'H' then some (.escaped, q, rest)
          else none
        else none

/-- The value of a quoted literal. Text that opens no quote stands for itself. -/
def quotedValue (t : Text) : Text :=
  match openQuote? t with
  | some (.escaped, q, body) => unescape q body
  | some (.verbatim, q, body) => undouble q body
  | none => t

/-- Writes a value so that it can stand in an escaped literal on one line. -/
def escape (quote : Char) : Text → Text
  | [] => []
  | c :: rest =>
    if c = '\\' ∨ c = quote then '\\' :: c :: escape quote rest
    else if c = '\n' then '\\' :: 'n' :: escape quote rest
    else c :: escape quote rest

/-- Writes a value so that it can stand in a verbatim literal. -/
def double (quote : Char) : Text → Text
  | [] => []
  | c :: rest => if c = quote then c :: c :: double quote rest else c :: double quote rest

end CommandGrammar.Text
