import CommandGrammar.Proofs.Tree.MapLeaves
import CommandGrammar.Tree.Spine

/-! Changing the leaves of a tree, where those that are one token each are told from those that were
captured from several: raw text and bracketed runs in names. -/
namespace CommandGrammar

section
variable (copy run : Leaf → Leaf)

def Name.mapParts : Name → Name
  | .bracketedString l => .bracketedString (run l)
  | n => n.mapLeaves copy

def Parameter.mapParts (x : Parameter) : Parameter :=
  ⟨x.name.mapParts copy run, copy x.colon, copy x.type⟩

def Parameters.mapParts (x : Parameters) : Parameters :=
  ⟨copy x.opening, x.list.map (Separated.map (Parameter.mapParts copy run) copy), copy x.closing⟩

mutual

/-- The same tree with other leaves, by one map for single tokens and by another for captured ones. -/
def Element.mapParts : Element → Element
  | .token l => .token (run l)
  | .declaration n => .declaration (n.mapParts copy run)
  | .reference n symbols => .reference (n.mapParts copy run) symbols
  | .path q d s => .path q.mapParts (copy d) s.mapParts
  | .literal sort l => .literal sort (copy l)
  | .type l => .type (copy l)
  | .parameters p => .parameters (p.mapParts copy run)
  | .body b => .body b.mapParts
  | .function p b => .function (p.mapParts copy run) b.mapParts
  | .statement s => .statement s.mapParts
  | .script ss => .script ss.mapParts

def Body.mapParts : Body → Body
  | .mk o ss v semi c => .mk (copy o) ss.mapParts v.mapParts (semi.map copy) (copy c)

def Yield.mapParts : Yield → Yield
  | .nothing => .nothing
  | .value e => .value e.mapParts

def Statement.mapParts : Statement → Statement
  | .expression e => .expression e.mapParts
  | .binding k n eq e => .binding (copy k) (n.mapParts copy run) (copy eq) e.mapParts

def Statements.mapParts : Statements → Statements
  | .nil => .nil
  | .cons s sep rest => .cons s.mapParts (sep.map copy) rest.mapParts

end

/-- The separator and what it selects, both with other leaves. -/
def Link.mapParts (x : Link) : Link := ⟨copy x.dot, x.selector.mapParts copy run⟩

theorem Element.mapParts_chain (e : Element) (ls : List Link) :
    (e.chain ls).mapParts copy run =
      (e.mapParts copy run).chain (ls.map (Link.mapParts copy run)) := by
  induction ls generalizing e with
  | nil => rfl
  | cons l ls ih => exact ih (.path e l.dot l.selector)

theorem Statements.mapParts_ofList (ss : List (Separated Statement)) :
    (ofList ss).mapParts copy run =
      ofList (ss.map (Separated.map (Statement.mapParts copy run) copy)) := by
  induction ss with
  | nil => rfl
  | cons s ss ih => rw [ofList, mapParts, ih, List.map_cons, ofList, Separated.map]

theorem Fragment.map_attachSeparators (head : Parameter) (rest : List (Leaf × Parameter)) :
    (attachSeparators head rest).map (Separated.map (Parameter.mapParts copy run) copy) =
      attachSeparators (head.mapParts copy run)
        (rest.map fun x => (copy x.1, x.2.mapParts copy run)) := by
  induction rest generalizing head with
  | nil => rfl
  | cons x rest ih => rw [attachSeparators, List.map_cons, ih, List.map_cons, attachSeparators]; rfl

end

section
variable (f : Leaf → Leaf)

theorem Name.mapParts_self (n : Name) : n.mapParts f f = n.mapLeaves f := by
  cases n <;> rfl

theorem Parameters.mapParts_self (x : Parameters) : x.mapParts f f = x.mapLeaves f := by
  have hone : Parameter.mapParts f f = Parameter.mapLeaves f := by
    funext y
    rw [Parameter.mapParts, y.name.mapParts_self, Parameter.mapLeaves]
  rw [mapParts, hone, mapLeaves]

mutual

/-- Where the two maps are one, no leaf is told from another. -/
theorem Element.mapParts_self (e : Element) : e.mapParts f f = e.mapLeaves f := by
  match e with
  | .token _ => rfl
  | .declaration n => exact congrArg Element.declaration (n.mapParts_self f)
  | .reference n _ => exact congrArg (Element.reference · _) (n.mapParts_self f)
  | .path q d s => rw [Element.mapParts, q.mapParts_self, s.mapParts_self, Element.mapLeaves]
  | .literal _ _ => rfl
  | .type _ => rfl
  | .parameters p => exact congrArg Element.parameters (p.mapParts_self f)
  | .body b => exact congrArg Element.body b.mapParts_self
  | .function p b => rw [Element.mapParts, p.mapParts_self, b.mapParts_self, Element.mapLeaves]
  | .statement s => exact congrArg Element.statement s.mapParts_self
  | .script ss => exact congrArg Element.script ss.mapParts_self

theorem Body.mapParts_self (b : Body) : b.mapParts f f = b.mapLeaves f := by
  match b with
  | .mk o ss v semi c => rw [Body.mapParts, ss.mapParts_self, v.mapParts_self, Body.mapLeaves]

theorem Yield.mapParts_self (v : Yield) : v.mapParts f f = v.mapLeaves f := by
  match v with
  | .nothing => rfl
  | .value e => exact congrArg Yield.value e.mapParts_self

theorem Statement.mapParts_self (s : Statement) : s.mapParts f f = s.mapLeaves f := by
  match s with
  | .expression e => exact congrArg Statement.expression e.mapParts_self
  | .binding k n eq e =>
    rw [Statement.mapParts, n.mapParts_self, e.mapParts_self, Statement.mapLeaves]

theorem Statements.mapParts_self (ss : Statements) : ss.mapParts f f = ss.mapLeaves f := by
  match ss with
  | .nil => rfl
  | .cons s sep rest =>
    rw [Statements.mapParts, s.mapParts_self, rest.mapParts_self, Statements.mapLeaves]

end

end

end CommandGrammar
