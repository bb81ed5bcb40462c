import CommandGrammar.Fragment.Function
import CommandGrammar.Tree.Flatten

/-! The leaves of what the parts of a grammar are put together to. -/
namespace CommandGrammar

/-- Every leaf of every placeholder is itself one. -/
theorem Placeholder.leaves_element (x : Placeholder) :
    ∀ l ∈ x.element.flatten, ∃ k, l = Leaf.placeholder k := by
  have single (k : Kind) : ∀ l ∈ [Leaf.placeholder k], ∃ k, l = Leaf.placeholder k :=
    fun l hl => ⟨k, List.mem_singleton.mp hl⟩
  cases x with
  | function =>
    intro l hl
    simp only [element, Element.flatten, Parameters.flatten, Parameters.placeholder,
      Body.placeholder, Body.flatten, Statements.flatten, Yield.flatten, List.flatMap_nil,
      Option.toList_none, List.cons_append, List.nil_append, List.mem_cons, List.not_mem_nil,
      or_false] at hl
    rcases hl with rfl | rfl | rfl | rfl
    · exact ⟨_, rfl⟩
    · exact ⟨_, rfl⟩
    · exact ⟨_, rfl⟩
    · exact ⟨_, rfl⟩
  | body =>
    intro l hl
    rcases List.mem_cons.mp hl with rfl | hl
    · exact ⟨_, rfl⟩
    · exact single _ l hl
  | _ => exact single _

private theorem Statements.flatten_ofList (ss : List (Separated Statement)) :
    (Statements.ofList ss).flatten = ss.flatMap fun x => x.element.flatten ++ x.separator.toList := by
  induction ss with
  | nil => rfl
  | cons x ss ih => rw [ofList, flatten, ih, List.flatMap_cons]

theorem Element.flatten_chain (e : Element) (ls : List Link) :
    (e.chain ls).flatten = e.flatten ++ ls.flatMap fun l => l.dot :: l.selector.flatten := by
  induction ls generalizing e with
  | nil => exact (List.append_nil _).symm
  | cons l ls ih =>
    rw [chain, List.foldl_cons, ← chain, ih, flatten, List.flatMap_cons,
      List.append_assoc]

namespace Parameter

def leaves (x : Parameter) : List Leaf := x.name.leaves ++ [x.colon, x.type]

/-- The leaves of parameters with the separators behind them. -/
def leavesOf (xs : List (Separated Parameter)) : List Leaf :=
  xs.flatMap fun x => x.element.leaves ++ x.separator.toList

end Parameter

namespace Fragment

/-- A separator is the same leaf behind one parameter as before the next. -/
private theorem leavesOf_attachSeparators (head : Parameter) (rest : List (Leaf × Parameter)) :
    Parameter.leavesOf (attachSeparators head rest) =
      head.leaves ++ rest.flatMap fun x => [x.1] ++ x.2.leaves := by
  induction rest generalizing head with
  | nil => simp [attachSeparators, Parameter.leavesOf]
  | cons x rest ih =>
    obtain ⟨sep, next⟩ := x
    rw [attachSeparators, Parameter.leavesOf, List.flatMap_cons, ← Parameter.leavesOf, ih,
      List.flatMap_cons]
    simp

theorem leavesOf_parameterList (x : Option (Parameter × List (Leaf × Parameter))) :
    Parameter.leavesOf (match x with
      | none => []
      | some (head, rest) => attachSeparators head rest) =
      x.elim [] fun y => y.1.leaves ++ y.2.flatMap fun z => [z.1] ++ z.2.leaves := by
  cases x with
  | none => rfl
  | some y => exact leavesOf_attachSeparators y.1 y.2

theorem flatten_script (ss : List (Statement × Option Leaf)) :
    (Element.script (.ofList (ss.map fun (s, sep) => ⟨s, sep⟩))).flatten =
      ss.flatMap fun x => x.1.flatten ++ x.2.elim [] fun l => [l] := by
  rw [Element.flatten, Statements.flatten_ofList, List.flatMap_map]
  congr 1
  funext x
  obtain ⟨x, sep⟩ := x
  cases sep with
  | none => rfl
  | some l => rfl

theorem flatten_closedStatements (ss : List (Statement × Leaf)) :
    (Statements.ofList (ss.map fun (s, sep) => ⟨s, some sep⟩)).flatten =
      ss.flatMap fun x => x.1.flatten ++ [x.2] := by
  rw [Statements.flatten_ofList, List.flatMap_map]
  rfl

theorem flatten_body (x : Leaf × (Statements × Option Element × Option Leaf) × Leaf) :
    Body.flatten (match x with
      | (o, (ss, v, semi), c) => .mk o ss (.ofOption v) semi c) =
      [x.1] ++ ((x.2.1.1.flatten ++ (x.2.1.2.1.elim [] Element.flatten ++
        x.2.1.2.2.elim [] fun l => [l])) ++ [x.2.2]) := by
  obtain ⟨o, ⟨ss, v, semi⟩, c⟩ := x
  cases v <;> cases semi <;> simp [Body.flatten, Yield.ofOption, Yield.flatten]

end Fragment
end CommandGrammar
