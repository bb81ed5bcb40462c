import CommandGrammar.Proofs.Fragment.Leaves

/-! Changing the leaves of a tree and nothing else of it. -/
namespace CommandGrammar

def Name.mapLeaves (f : Leaf → Leaf) : Name → Name
  | .plain l => .plain (f l)
  | .bracketed o n c => .bracketed (f o) (f n) (f c)
  | .braced o n c => .braced (f o) (f n) (f c)
  | .wildcarded l => .wildcarded (f l)
  | .quoted l => .quoted (f l)
  | .bracketedString l => .bracketedString (f l)

def Parameter.mapLeaves (f : Leaf → Leaf) (x : Parameter) : Parameter :=
  ⟨x.name.mapLeaves f, f x.colon, f x.type⟩

/-- Changes the entry of a list and the separator behind it. -/
def Separated.map {α : Type} (g : α → α) (f : Leaf → Leaf) (x : Separated α) : Separated α :=
  ⟨g x.element, x.separator.map f⟩

def Parameters.mapLeaves (f : Leaf → Leaf) (x : Parameters) : Parameters :=
  ⟨f x.opening, x.list.map (Separated.map (Parameter.mapLeaves f) f), f x.closing⟩

mutual

/-- The same tree with other leaves. -/
def Element.mapLeaves (f : Leaf → Leaf) : Element → Element
  | .token l => .token (f l)
  | .declaration n => .declaration (n.mapLeaves f)
  | .reference n symbols => .reference (n.mapLeaves f) symbols
  | .path q d s => .path (q.mapLeaves f) (f d) (s.mapLeaves f)
  | .literal sort l => .literal sort (f l)
  | .type l => .type (f l)
  | .parameters p => .parameters (p.mapLeaves f)
  | .body b => .body (b.mapLeaves f)
  | .function p b => .function (p.mapLeaves f) (b.mapLeaves f)
  | .statement s => .statement (s.mapLeaves f)
  | .script ss => .script (ss.mapLeaves f)

def Body.mapLeaves (f : Leaf → Leaf) : Body → Body
  | .mk o ss v semi c => .mk (f o) (ss.mapLeaves f) (v.mapLeaves f) (semi.map f) (f c)

def Yield.mapLeaves (f : Leaf → Leaf) : Yield → Yield
  | .nothing => .nothing
  | .value e => .value (e.mapLeaves f)

def Statement.mapLeaves (f : Leaf → Leaf) : Statement → Statement
  | .expression e => .expression (e.mapLeaves f)
  | .binding k n eq e => .binding (f k) (n.mapLeaves f) (f eq) (e.mapLeaves f)

def Statements.mapLeaves (f : Leaf → Leaf) : Statements → Statements
  | .nil => .nil
  | .cons s sep rest => .cons (s.mapLeaves f) (sep.map f) (rest.mapLeaves f)

end

section
variable (f : Leaf → Leaf)

theorem Name.leaves_mapLeaves (n : Name) : (n.mapLeaves f).leaves = n.leaves.map f := by
  cases n <;> rfl

theorem Parameters.flatten_mapLeaves (x : Parameters) :
    (x.mapLeaves f).flatten = x.flatten.map f := by
  simp only [flatten, mapLeaves, List.map_append, List.map_cons, List.map_flatMap, List.flatMap_map,
    Separated.map, Parameter.mapLeaves, Name.leaves_mapLeaves, List.map_nil, Option.toList_map]

mutual

/-- The leaves change one by one. -/
theorem Element.flatten_mapLeaves (e : Element) : (e.mapLeaves f).flatten = e.flatten.map f := by
  match e with
  | .token _ => rfl
  | .declaration n => exact n.leaves_mapLeaves f
  | .reference n _ => exact n.leaves_mapLeaves f
  | .path q d s =>
    simp only [Element.mapLeaves, Element.flatten, List.map_append, List.map_cons,
      q.flatten_mapLeaves, s.flatten_mapLeaves]
  | .literal _ _ => rfl
  | .type _ => rfl
  | .parameters p => exact p.flatten_mapLeaves f
  | .body b => exact b.flatten_mapLeaves
  | .function p b =>
    simp only [Element.mapLeaves, Element.flatten, List.map_append, p.flatten_mapLeaves,
      b.flatten_mapLeaves]
  | .statement s => exact s.flatten_mapLeaves
  | .script ss => exact ss.flatten_mapLeaves

theorem Body.flatten_mapLeaves (b : Body) : (b.mapLeaves f).flatten = b.flatten.map f := by
  match b with
  | .mk o ss v semi c =>
    simp only [Body.mapLeaves, Body.flatten, List.map_append, List.map_cons, ss.flatten_mapLeaves,
      v.flatten_mapLeaves, Option.toList_map, List.map_nil]

theorem Yield.flatten_mapLeaves (v : Yield) : (v.mapLeaves f).flatten = v.flatten.map f := by
  match v with
  | .nothing => rfl
  | .value e => exact e.flatten_mapLeaves

theorem Statement.flatten_mapLeaves (s : Statement) :
    (s.mapLeaves f).flatten = s.flatten.map f := by
  match s with
  | .expression e => exact e.flatten_mapLeaves
  | .binding k n eq e =>
    simp only [Statement.mapLeaves, Statement.flatten, List.map_append, List.map_cons,
      Name.leaves_mapLeaves, e.flatten_mapLeaves]

theorem Statements.flatten_mapLeaves (ss : Statements) :
    (ss.mapLeaves f).flatten = ss.flatten.map f := by
  match ss with
  | .nil => rfl
  | .cons s sep rest =>
    simp only [Statements.mapLeaves, Statements.flatten, List.map_append, s.flatten_mapLeaves,
      rest.flatten_mapLeaves, Option.toList_map]

end

theorem Element.leaves_mapLeaves (e : Element) : (e.mapLeaves f).leaves = e.leaves.map f := by
  rw [leaves_eq, leaves_eq, flatten_mapLeaves]

variable {f}

theorem Name.mapLeaves_eq_self {n : Name} (h : ∀ l ∈ n.leaves, f l = l) : n.mapLeaves f = n := by
  cases n <;> simp_all [mapLeaves, leaves]

private theorem map_eq_self_of_toList {sep : Option Leaf} (h : ∀ l ∈ sep.toList, f l = l) :
    sep.map f = sep := by
  cases sep with
  | none => rfl
  | some l => exact congrArg some (h l List.mem_cons_self)

theorem Parameters.mapLeaves_eq_self {x : Parameters} (h : ∀ l ∈ x.flatten, f l = l) :
    x.mapLeaves f = x := by
  obtain ⟨o, xs, c⟩ := x
  have hone (y : Separated Parameter) (hy : y ∈ xs) :
      Separated.map (Parameter.mapLeaves f) f y = y := by
    obtain ⟨⟨n, colon, type⟩, sep⟩ := y
    have hmem (l : Leaf) (hl : l ∈ n.leaves ++ [colon, type] ++ sep.toList) : f l = l :=
      h l (List.mem_append_left _ (List.mem_cons_of_mem _ (List.mem_flatMap.mpr ⟨_, hy, hl⟩)))
    obtain ⟨hparameter, hsep⟩ := List.forall_mem_append.mp hmem
    obtain ⟨hname, hrest⟩ := List.forall_mem_append.mp hparameter
    rw [Separated.map, Parameter.mapLeaves, n.mapLeaves_eq_self hname, map_eq_self_of_toList hsep,
      hrest colon (by simp), hrest type (by simp)]
  have hxs : xs.map (Separated.map (Parameter.mapLeaves f) f) = xs :=
    (List.map_congr_left hone).trans (List.map_id' xs)
  have hopening := h o List.mem_cons_self
  have hclosing := h c (List.mem_append_right _ List.mem_cons_self)
  rw [mapLeaves, hopening, hclosing, hxs]

mutual

/-- A tree none of whose leaves changes stays as it is. -/
theorem Element.mapLeaves_eq_self {e : Element} (h : ∀ l ∈ e.flatten, f l = l) :
    e.mapLeaves f = e := by
  match e with
  | .token l => exact congrArg Element.token (h l List.mem_cons_self)
  | .declaration n => exact congrArg Element.declaration (n.mapLeaves_eq_self h)
  | .reference n _ => exact congrArg (Element.reference · _) (n.mapLeaves_eq_self h)
  | .path q d s =>
    obtain ⟨hq, hlink⟩ := List.forall_mem_append.mp h
    obtain ⟨hd, hs⟩ := List.forall_mem_cons.mp hlink
    rw [Element.mapLeaves, q.mapLeaves_eq_self hq, hd, s.mapLeaves_eq_self hs]
  | .literal _ l => exact congrArg (Element.literal _) (h l List.mem_cons_self)
  | .type l => exact congrArg Element.type (h l List.mem_cons_self)
  | .parameters p => exact congrArg Element.parameters (p.mapLeaves_eq_self h)
  | .body b => exact congrArg Element.body (b.mapLeaves_eq_self h)
  | .function p b =>
    obtain ⟨hp, hb⟩ := List.forall_mem_append.mp h
    rw [Element.mapLeaves, p.mapLeaves_eq_self hp, b.mapLeaves_eq_self hb]
  | .statement s => exact congrArg Element.statement (s.mapLeaves_eq_self h)
  | .script ss => exact congrArg Element.script (ss.mapLeaves_eq_self h)

theorem Body.mapLeaves_eq_self {b : Body} (h : ∀ l ∈ b.flatten, f l = l) : b.mapLeaves f = b := by
  match b with
  | .mk o ss v semi c =>
    obtain ⟨hrest, hc⟩ := List.forall_mem_append.mp h
    obtain ⟨hrest, hsemi⟩ := List.forall_mem_append.mp hrest
    obtain ⟨hrest, hv⟩ := List.forall_mem_append.mp hrest
    obtain ⟨ho, hss⟩ := List.forall_mem_cons.mp hrest
    rw [Body.mapLeaves, ho, ss.mapLeaves_eq_self hss, v.mapLeaves_eq_self hv,
      map_eq_self_of_toList hsemi, hc c List.mem_cons_self]

theorem Yield.mapLeaves_eq_self {v : Yield} (h : ∀ l ∈ v.flatten, f l = l) : v.mapLeaves f = v := by
  match v with
  | .nothing => rfl
  | .value e => exact congrArg Yield.value (e.mapLeaves_eq_self h)

theorem Statement.mapLeaves_eq_self {s : Statement} (h : ∀ l ∈ s.flatten, f l = l) :
    s.mapLeaves f = s := by
  match s with
  | .expression e => exact congrArg Statement.expression (e.mapLeaves_eq_self h)
  | .binding k n eq e =>
    obtain ⟨hleft, hright⟩ := List.forall_mem_append.mp h
    obtain ⟨hk, hn⟩ := List.forall_mem_cons.mp hleft
    obtain ⟨heq, he⟩ := List.forall_mem_cons.mp hright
    rw [Statement.mapLeaves, hk, n.mapLeaves_eq_self hn, heq, e.mapLeaves_eq_self he]

theorem Statements.mapLeaves_eq_self {ss : Statements} (h : ∀ l ∈ ss.flatten, f l = l) :
    ss.mapLeaves f = ss := by
  match ss with
  | .nil => rfl
  | .cons s sep rest =>
    obtain ⟨hleft, hrest⟩ := List.forall_mem_append.mp h
    obtain ⟨hs, hsep⟩ := List.forall_mem_append.mp hleft
    rw [Statements.mapLeaves, s.mapLeaves_eq_self hs, map_eq_self_of_toList hsep,
      rest.mapLeaves_eq_self hrest]

end

end

end CommandGrammar
