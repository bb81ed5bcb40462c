import CommandGrammar.Text.Basic

/-! Regular patterns over text. `Matches` says which texts a pattern stands for; `longest` finds how
far a match can reach by taking what is left of the pattern after each character. -/
namespace CommandGrammar

inductive Pattern where
  | never
  | empty
  | one (accepts : Char → Bool)
  | seq (first second : Pattern)
  | alt (left right : Pattern)
  | star (body : Pattern)

namespace Pattern

inductive Matches : Pattern → Text → Prop
  | empty : Matches .empty []
  | one {accepts : Char → Bool} {c : Char} (h : accepts c = true) : Matches (.one accepts) [c]
  | seq {p q : Pattern} {s t : Text} (hp : Matches p s) (hq : Matches q t) :
      Matches (.seq p q) (s ++ t)
  | left {p q : Pattern} {s : Text} (h : Matches p s) : Matches (.alt p q) s
  | right {p q : Pattern} {s : Text} (h : Matches q s) : Matches (.alt p q) s
  | stop {p : Pattern} : Matches (.star p) []
  | more {p : Pattern} {s t : Text} (hs : Matches p s) (ht : Matches (.star p) t) :
      Matches (.star p) (s ++ t)

def char (c : Char) : Pattern := .one (· == c)

/-- Exactly the given text. -/
def exactly : Text → Pattern
  | [] => .empty
  | c :: rest => .seq (char c) (exactly rest)

def plus (p : Pattern) : Pattern := .seq p (.star p)

def optional (p : Pattern) : Pattern := .alt p .empty

def times : Nat → Pattern → Pattern
  | 0, _ => .empty
  | n + 1, p => .seq p (times n p)

/-- One pattern after the other. -/
def inOrder : List Pattern → Pattern
  | [] => .empty
  | p :: rest => .seq p (inOrder rest)

/-- The empty text matches. -/
def nullable : Pattern → Bool
  | .never => false
  | .empty => true
  | .one _ => false
  | .seq p q => p.nullable && q.nullable
  | .alt p q => p.nullable || q.nullable
  | .star _ => true

/-- Sequence, with `never` and `empty` absorbed. -/
def andThen : Pattern → Pattern → Pattern
  | .never, _ => .never
  | .empty, q => q
  | p, q => .seq p q

/-- Alternative, with `never` absorbed. -/
def either : Pattern → Pattern → Pattern
  | .never, q => q
  | p, .never => p
  | p, q => .alt p q

/-- What is left to match once `c` has been read. -/
def after (c : Char) : Pattern → Pattern
  | .never => .never
  | .empty => .never
  | .one accepts => if accepts c then .empty else .never
  | .seq p q =>
    if p.nullable then either (andThen (p.after c) q) (q.after c) else andThen (p.after c) q
  | .alt p q => either (p.after c) (q.after c)
  | .star p => andThen (p.after c) (.star p)

def accepts (p : Pattern) : Text → Bool
  | [] => p.nullable
  | c :: rest => (p.after c).accepts rest

/-- Length of the longest beginning of a text that matches, if any does. -/
def longest : Pattern → Text → Option Nat
  | .never, _ => none
  | p, [] => if p.nullable then some 0 else none
  | p, c :: rest =>
    match (p.after c).longest rest with
    | some n => some (n + 1)
    | none => if p.nullable then some 0 else none

end Pattern
end CommandGrammar
