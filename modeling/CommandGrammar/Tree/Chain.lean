import CommandGrammar.Tree.Child

/-! Chains of qualified names as a leftmost element and the links behind it. -/
namespace CommandGrammar

/-- A separator and what it selects. -/
structure Link where
  dot : Leaf
  selector : Element
  deriving DecidableEq

namespace Element

/-- The leftmost element of a chain; any other element is its own. -/
def leftmost : Element → Element
  | .path q _ _ => q.leftmost
  | e => e

/-- The links of a chain, the outermost first. -/
def links : Element → List Link
  | .path q d s => ⟨d, s⟩ :: q.links
  | _ => []

/-- Hangs links on an element, the innermost first. -/
def chain (first : Element) (links : List Link) : Element :=
  links.foldl (fun e l => .path e l.dot l.selector) first

/-- The elements of a chain from left to right. -/
def segments (e : Element) : List Element := e.leftmost :: e.links.reverse.map (·.selector)

theorem segments_path (q : Element) (d : Leaf) (s : Element) :
    (path q d s).segments = q.segments ++ [s] := by
  rw [segments, leftmost, links, List.reverse_cons, List.map_append, ← List.cons_append]
  rfl

theorem leftmost_chain (e : Element) (ls : List Link) : (e.chain ls).leftmost = e.leftmost := by
  induction ls generalizing e with
  | nil => rfl
  | cons l ls ih => exact ih (.path e l.dot l.selector)

theorem links_chain (e : Element) (ls : List Link) :
    (e.chain ls).links = ls.reverse ++ e.links := by
  induction ls generalizing e with
  | nil => rfl
  | cons l ls ih =>
    rw [List.reverse_cons, List.append_assoc]
    exact ih (.path e l.dot l.selector)

end Element
end CommandGrammar
