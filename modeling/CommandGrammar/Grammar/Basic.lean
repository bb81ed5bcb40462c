import CommandGrammar.Hint
import CommandGrammar.Source
import CommandGrammar.Tree.Leaf

/-! Grammars as data: what each of them means is said by running it. A grammar may carry a label
for messages and a hint for completion; neither changes what it matches. -/
namespace CommandGrammar

/-- The tokens that a grammar consumed. -/
structure Span where
  /-- Position of the first token. -/
  start : Nat
  /-- Position behind the last token. -/
  stop : Nat
  tokens : List Token
  /-- Byte offset of the token at `start`, which may be an end marker. -/
  offset : Nat

structure Note where
  label? : Option String
  hint : Hint

namespace Note

def blank : Note := ⟨none, .none⟩

end Note

inductive Grammar : Type → Type 1 where
  /-- One token that is no end marker. -/
  | satisfy (accepts : Token → Bool) : Grammar Leaf
  | fail {α : Type} : Grammar α
  | pure {α : Type} (value : α) : Grammar α
  /-- A placeholder for something absent, reported under a label. -/
  | supply {α : Type} (label : String) (value : α) : Grammar α
  | map {α β : Type} (f : α → β) (g : Grammar α) : Grammar β
  | seq {α β : Type} (g : Grammar α) (h : Grammar β) : Grammar (α × β)
  /-- The second where the first does not match. -/
  | orElse {α : Type} (g h : Grammar α) : Grammar α
  /-- As often as it matches and consumes something. -/
  | many {α : Type} (g : Grammar α) : Grammar (List α)
  /-- Matches where `g` does and consumes nothing. -/
  | lookahead {α : Type} (g : Grammar α) : Grammar Unit
  /-- A value made of the tokens that `g` consumed. -/
  | capture {α β : Type} (f : Span → β) (g : Grammar α) : Grammar β
  | annotate {α : Type} (note : Note) (g : Grammar α) : Grammar α

namespace Grammar
variable {α β γ : Type}

instance : Inhabited (Grammar α) := ⟨.fail⟩

def note : Grammar α → Note
  | .annotate n _ => n
  | _ => .blank

def label? (g : Grammar α) : Option String := g.note.label?

def hint (g : Grammar α) : Hint := g.note.hint

/-- The grammar with another note in place of its own. -/
def withNote (note : Note) : Grammar α → Grammar α
  | .annotate _ g => .annotate note g
  | g => .annotate note g

def withLabel (label : String) (g : Grammar α) : Grammar α :=
  g.withNote { g.note with label? := some label }

/-- The grammar with a hint to offer these categories. -/
def withHint (symbols : SymbolSet) (g : Grammar α) : Grammar α :=
  g.withNote { g.note with hint := .ofSymbols symbols }

def kind (k : Kind) : Grammar Leaf := .satisfy (·.kind == k)

def text (t : Text) : Grammar Leaf := .satisfy (·.text == t)

def anyToken : Grammar Leaf := .satisfy fun _ => true

def notText (excluded : List Text) : Grammar Leaf := .satisfy fun t => !excluded.contains t.text

def hide (g : Grammar Leaf) : Grammar Leaf := g.map Leaf.hide

def seq3 (g : Grammar α) (h : Grammar β) (k : Grammar γ) : Grammar (α × β × γ) := g.seq (h.seq k)

/-- The first of several that matches. -/
def first : List (Grammar α) → Grammar α
  | [] => .fail
  | g :: rest => g.orElse (first rest)

def optional (g : Grammar α) : Grammar (Option α) := (g.map some).orElse (.pure none)

/-- Never fails: where `g` does not match, a placeholder is supplied under its label. -/
def required (g : Grammar α) (placeholder : α) : Grammar α :=
  .annotate g.note (g.orElse (.supply (g.label?.getD "<element>") placeholder))

/-- Reads `head`, then `tail` as often as it matches, and folds from the left. -/
def foldLeft (combine : α → β → α) (head : Grammar α) (tail : Grammar β) : Grammar α :=
  (head.seq tail.many).map fun (a, bs) => bs.foldl combine a

/-- Reads `g` where `condition` matches as well. -/
def guarded (condition : Grammar α) (g : Grammar β) : Grammar β :=
  (condition.lookahead.seq g).map Prod.snd

/-- Reads `element` and then `separator element` as often as it matches, or nothing at all. -/
def separated (element : Grammar α) (separator : Grammar β) : Grammar (Option (α × List (β × α))) :=
  (element.seq (separator.seq element).many).optional

end Grammar
end CommandGrammar
