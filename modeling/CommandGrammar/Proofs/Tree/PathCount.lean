import CommandGrammar.Tree.Spine

/-! How many paths there are in an element. A chain of names has one for each of its links. -/
namespace CommandGrammar

namespace Child

def isPath : Child → Bool
  | .element (.path ..) => true
  | _ => false

theorem outlineOf_append (xs ys : List (Nat × Child)) :
    outlineOf (xs ++ ys) = outlineOf xs ++ outlineOf ys := by
  fun_induction outlineOf xs with
  | case1 => rfl
  | case2 depth c rest ih =>
    rw [List.append_assoc] at ih
    rw [List.cons_append, outlineOf, ih, List.cons_append]

/-- The number of paths among a place at some depth and the places below it. -/
def pathsFrom (depth : Nat) (c : Child) : Nat := (outlineOf [(depth, c)]).countP (·.2.isPath)

private theorem pathsFrom_path (depth : Nat) (q : Element) (d : Leaf) (e : Element) :
    pathsFrom depth (.element (.path q d e)) =
      pathsFrom (depth + 1) (.element q) + pathsFrom (depth + 1) (.element e) + 1 := by
  have hparts : outlineOf [(depth, .element (.path q d e))] =
      (depth, .element (.path q d e)) :: (outlineOf [(depth + 1, .element q)] ++
        (outlineOf [(depth + 1, .token d)] ++ outlineOf [(depth + 1, .element e)])) := by
    rw [outlineOf, ← outlineOf_append, ← outlineOf_append]
    rfl
  have hdot : outlineOf [(depth + 1, .token d)] = [(depth + 1, .token d)] := by
    simp only [outlineOf, children, List.map_nil, List.append_nil]
  simp [pathsFrom, hparts, hdot, isPath]

end Child

namespace Element
open Child

/-- The number of paths in an element, itself included. -/
def pathCount (e : Element) : Nat := e.outline.countP (·.2.isPath)

/-- There are no paths in the element. -/
def Plain (e : Element) : Prop := ∀ depth, pathsFrom depth (.element e) = 0

theorem plain_declaration (n : Name) : Plain (.declaration n) := by
  intro depth
  cases n <;> simp [pathsFrom, outlineOf, children, Name.leaves, isPath]

theorem plain_reference (n : Name) (symbols : SymbolSet) : Plain (.reference n symbols) := by
  intro depth
  cases n <;> simp [pathsFrom, outlineOf, children, Name.leaves, isPath]

theorem Plain.ne_path {e : Element} (h : e.Plain) (q : Element) (d : Leaf) (x : Element) :
    e ≠ .path q d x := by
  rintro rfl
  have hpaths := h 0
  rw [pathsFrom_path] at hpaths
  omega

/-- Every link to something plain adds one path, wherever the chain hangs. -/
theorem pathsFrom_chain {links : List Link} (hlinks : ∀ l ∈ links, l.selector.Plain) {k : Nat}
    {e : Element} (he : ∀ depth, pathsFrom depth (.element e) = k) (depth : Nat) :
    pathsFrom depth (.element (e.chain links)) = k + links.length := by
  -- The first link is hung on the head, so the induction needs the count of every head.
  induction links generalizing k e with
  | nil => exact he depth
  | cons l links ih =>
    obtain ⟨hl, hrest⟩ := List.forall_mem_cons.mp hlinks
    have hpath (depth : Nat) : pathsFrom depth (.element (.path e l.dot l.selector)) = k + 1 := by
      rw [pathsFrom_path, he, hl]
    rw [List.length_cons, ← Nat.add_assoc, Nat.add_right_comm]
    exact ih hrest hpath

theorem pathCount_chain {e : Element} {links : List Link} (he : e.Plain)
    (hlinks : ∀ l ∈ links, l.selector.Plain) : (e.chain links).pathCount = links.length := by
  have hcount := pathsFrom_chain hlinks he 0
  rw [Nat.zero_add] at hcount
  exact hcount

end Element
end CommandGrammar
