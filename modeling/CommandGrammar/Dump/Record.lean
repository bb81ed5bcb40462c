import CommandGrammar.Symbols
import CommandGrammar.Text.Basic
import CommandGrammar.Text.Extender
import CommandGrammar.Text.Unprintable

/-! A notation for values on one line: `Name { field: value }` for records, `Name(value)` for tagged
values, `[a, b]` for lists, and quoted text. -/
namespace CommandGrammar.Dump

def commaSeparated (items : List String) : String := ", ".intercalate items

def record (name : String) (fields : List (String × String)) : String :=
  name ++ " \x7b " ++ commaSeparated (fields.map fun (k, v) => k ++ ": " ++ v) ++ " \x7d"

/-- A record some of whose fields are not shown. -/
def openRecord (name : String) (fields : List (String × String)) : String :=
  name ++ " \x7b " ++ commaSeparated (fields.map fun (k, v) => k ++ ": " ++ v) ++ ", .. \x7d"

def tagged (name value : String) : String := name ++ "(" ++ value ++ ")"

def list (items : List String) : String := "[" ++ commaSeparated items ++ "]"

def option : Option String → String
  | none => "None"
  | some v => tagged "Some" v

def bool (b : Bool) : String := if b then "true" else "false"

/-- A character inside quotes. One that leaves no mark of its own on the line, and has no escape of
its own, is written by its code. -/
def quotedChar (c : Char) : Text :=
  if c = '"' ∨ c = '\\' then ['\\', c]
  else if c = '\n' then ['\\', 'n']
  else if c = '\r' then ['\\', 'r']
  else if c = '\t' then ['\\', 't']
  else if c = '\x00' then ['\\', '0']
  else if Text.isExtender c || Text.isUnprintable c then
    ['\\', 'u', '{'] ++ Nat.toDigits 16 c.toNat ++ ['}']
  else [c]

def quoted (t : Text) : String := String.ofList ('"' :: t.flatMap quotedChar ++ ['"'])

def symbols (s : SymbolSet) : String :=
  "\x7b" ++ commaSeparated (s.names.map fun n => quoted n.toList) ++ "\x7d"

/-- A completion hint. -/
def completionHint (s : SymbolSet) : String := if s.isEmpty then "None" else symbols s

end CommandGrammar.Dump
