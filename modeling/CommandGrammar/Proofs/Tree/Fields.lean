import CommandGrammar.Proofs.Fragment.Leaves

/-! The leaves that a tree stores in its fields. The address of a leaf is the fields that lead down to
it. Left to right order lists every address once. -/
namespace CommandGrammar

private theorem Parameter.weight_le (xs : List (Separated Parameter)) :
    ∀ x ∈ xs, weight x ≤ weightOf xs := by
  induction xs with
  | nil => exact fun _ hx => absurd hx List.not_mem_nil
  | cons x xs ih =>
    rw [List.forall_mem_cons, weightOf]
    constructor
    · omega
    · intro y hy
      have hle := ih y hy
      omega

namespace Statements

private theorem weight_le : (ss : Statements) → ∀ x ∈ ss.toList, x.element.weight ≤ ss.weight
  | .nil => fun _ hx => absurd hx List.not_mem_nil
  | .cons s sep rest => by
    rw [toList, List.forall_mem_cons, weight]
    constructor
    · show s.weight ≤ _
      omega
    · intro x hx
      have hle := weight_le rest x hx
      omega

private theorem flatten_toList : (ss : Statements) →
    ss.flatten = ss.toList.flatMap fun x => x.element.flatten ++ x.separator.toList
  | .nil => rfl
  | .cons s sep rest => by rw [flatten, toList, List.flatMap_cons, flatten_toList rest]

end Statements

/-- Fields that lead to leaves. -/
inductive Field where
  | identifier | opening | name | closing | pattern | literal
  | colon | type
  | keyword | equal | value | semicolon
  | qualifier | dot | selector
  | leaf | parameters | body | statement
  | entry (i : Nat)
  | separator (i : Nat)
  deriving DecidableEq

/-- What such a field holds. -/
inductive Part where
  | leaf (leaf : Leaf)
  | name (name : Name)
  | parameter (parameter : Parameter)
  | parameters (parameters : Parameters)
  | body (body : Body)
  | statement (statement : Statement)
  | element (element : Element)

namespace Part

/-- The entries of a list and the separators behind them, numbered from `i` on. -/
def entries {α : Type} (part : α → Part) (i : Nat) : List (Separated α) → List (Field × Part)
  | [] => []
  | x :: rest =>
    (.entry i, part x.element) :: x.separator.toList.map (.separator i, .leaf ·) ++
      entries part (i + 1) rest

def fields : Part → List (Field × Part)
  | .leaf _ => []
  | .name (.plain l) => [(.identifier, .leaf l)]
  | .name (.bracketed o n c) | .name (.braced o n c) =>
    [(.opening, .leaf o), (.name, .leaf n), (.closing, .leaf c)]
  | .name (.wildcarded l) => [(.pattern, .leaf l)]
  | .name (.quoted l) | .name (.bracketedString l) => [(.literal, .leaf l)]
  | .parameter x => [(.name, .name x.name), (.colon, .leaf x.colon), (.type, .leaf x.type)]
  | .parameters x =>
    (.opening, .leaf x.opening) :: entries .parameter 0 x.list ++ [(.closing, .leaf x.closing)]
  | .body b =>
    (.opening, .leaf b.opening) :: entries .statement 0 b.statements.toList ++
      (b.value.toOption.toList.map (.value, .element ·) ++
        b.semicolon.toList.map (.semicolon, .leaf ·) ++ [(.closing, .leaf b.closing)])
  | .statement (.expression e) => [(.value, .element e)]
  | .statement (.binding k n eq e) =>
    [(.keyword, .leaf k), (.name, .name n), (.equal, .leaf eq), (.value, .element e)]
  | .element (.token l) | .element (.literal _ l) | .element (.type l) => [(.leaf, .leaf l)]
  | .element (.declaration n) | .element (.reference n _) => [(.name, .name n)]
  | .element (.path q d s) =>
    [(.qualifier, .element q), (.dot, .leaf d), (.selector, .element s)]
  | .element (.parameters x) => [(.parameters, .parameters x)]
  | .element (.body b) => [(.body, .body b)]
  | .element (.function x b) => [(.parameters, .parameters x), (.body, .body b)]
  | .element (.statement s) => [(.statement, .statement s)]
  | .element (.script ss) => entries .statement 0 ss.toList

/-- The fields lead from the part to the leaf. -/
inductive Stores : Part → List Field → Leaf → Prop where
  | here (l : Leaf) : Stores (.leaf l) [] l
  | under {p q : Part} {f : Field} {a : List Field} {l : Leaf} (hf : (f, q) ∈ p.fields)
      (hq : Stores q a l) : Stores p (f :: a) l

/-- The leaves from left to right. -/
def flatten : Part → List Leaf
  | .leaf l => [l]
  | .name n => n.leaves
  | .parameter x => x.leaves
  | .parameters x => x.flatten
  | .body b => b.flatten
  | .statement s => s.flatten
  | .element e => e.flatten

def weight : Part → Nat
  | .leaf _ => 0
  | .name n => n.leaves.length
  | .parameter x => x.name.leaves.length + 3
  | .parameters x => x.weight
  | .body b => b.weight
  | .statement s => s.weight
  | .element e => e.weight

section entries
variable {α : Type} (part : α → Part)

private theorem label_of_mem_entries (xs : List (Separated α)) (i : Nat) :
    ∀ f ∈ (entries part i xs).map Prod.fst, ∃ j, i ≤ j ∧ (f = .entry j ∨ f = .separator j) := by
  induction xs generalizing i with
  | nil => exact fun _ hf => absurd hf List.not_mem_nil
  | cons x rest ih =>
    intro f hf
    rw [entries, List.map_append, List.mem_append] at hf
    rcases hf with hf | hf
    · refine ⟨i, Nat.le_refl i, ?_⟩
      cases hsep : x.separator <;> simp_all
    · obtain ⟨j, hj, hlabel⟩ := ih (i + 1) f hf
      exact ⟨j, Nat.le_of_succ_le hj, hlabel⟩

private theorem nodup_entries (xs : List (Separated α)) (i : Nat) :
    ((entries part i xs).map Prod.fst).Nodup := by
  induction xs generalizing i with
  | nil => exact List.nodup_nil
  | cons x rest ih =>
    rw [entries, List.map_append, List.nodup_append]
    refine ⟨?_, ih (i + 1), ?_⟩
    · cases x.separator <;> simp
    · -- the labels behind have a greater number
      intro f hf g hg
      obtain ⟨j, hj, hlabel⟩ := label_of_mem_entries part rest (i + 1) g hg
      have hf : f = .entry i ∨ f = .separator i := by
        cases hsep : x.separator <;> simp_all
      grind

/-- Entries of a list have other labels than the fields around it. -/
private theorem nodup_around_entries {b c : List Field} (hnodup : (b ++ c).Nodup)
    (hlabel : ∀ f ∈ b ++ c, ∀ j, f ≠ .entry j ∧ f ≠ .separator j)
    (xs : List (Separated α)) (i : Nat) :
    (b ++ (entries part i xs).map Prod.fst ++ c).Nodup := by
  have hperm : (b ++ (entries part i xs).map Prod.fst ++ c).Perm
      (b ++ c ++ (entries part i xs).map Prod.fst) := by
    rw [List.append_assoc, List.append_assoc]
    exact List.perm_append_comm.append_left b
  rw [hperm.nodup_iff, List.nodup_append]
  refine ⟨hnodup, nodup_entries part xs i, ?_⟩
  rintro f hf g hg rfl
  obtain ⟨j, -, hj | hj⟩ := label_of_mem_entries part xs i f hg
  · exact (hlabel f hf j).1 hj
  · exact (hlabel f hf j).2 hj

private theorem forall_mem_entries {P : Part → Prop} {xs : List (Separated α)}
    (hpart : ∀ x ∈ xs, P (part x.element)) (hleaf : ∀ l, P (.leaf l)) (i : Nat) :
    ∀ x ∈ entries part i xs, P x.2 := by
  induction xs generalizing i with
  | nil => exact fun x hx => absurd hx List.not_mem_nil
  | cons x rest ih =>
    obtain ⟨hhead, hrest⟩ := List.forall_mem_cons.mp hpart
    intro y hy
    rw [entries, List.cons_append, List.mem_cons, List.mem_append] at hy
    rcases hy with rfl | hy | hy
    · exact hhead
    · obtain ⟨l, -, rfl⟩ := List.mem_map.mp hy
      exact hleaf l
    · exact ih hrest (i + 1) y hy

private theorem flatten_entries (xs : List (Separated α)) (i : Nat) :
    (entries part i xs).flatMap (·.2.flatten) =
      xs.flatMap fun x => (part x.element).flatten ++ x.separator.toList := by
  induction xs generalizing i with
  | nil => rfl
  | cons x rest ih =>
    obtain ⟨e, sep⟩ := x
    rw [entries, List.flatMap_append, ih, List.flatMap_cons]
    cases sep <;> simp [flatten]

end entries

/-- What a field holds is lighter than what has the field. -/
private theorem weight_lt (p : Part) : ∀ x ∈ p.fields, x.2.weight < p.weight := by
  cases p with
  | leaf l => simp [fields]
  | name n => cases n <;> simp [fields, weight, Name.leaves]
  | parameter x => simp [fields, weight]
  | parameters x =>
    have hentries : ∀ y ∈ entries .parameter 0 x.list, y.2.weight < x.weight := by
      apply forall_mem_entries .parameter (P := (·.weight < x.weight))
      · intro y hy
        have hle := Parameter.weight_le x.list y hy
        rw [Parameter.weight] at hle
        rw [weight, Parameters.weight]
        omega
      · exact fun l => Nat.succ_pos _
    simp only [fields, List.cons_append, List.forall_mem_cons, List.forall_mem_append]
    exact ⟨Nat.succ_pos _, hentries, Nat.succ_pos _, by simp⟩
  | body b =>
    obtain ⟨o, ss, v, semi, c⟩ := b
    have hentries : ∀ y ∈ entries .statement 0 ss.toList,
        y.2.weight < (Body.mk o ss v semi c).weight := by
      apply forall_mem_entries .statement (P := (·.weight < (Body.mk o ss v semi c).weight))
      · intro y hy
        have hle := ss.weight_le y hy
        rw [weight, Body.weight]
        omega
      · exact fun l => Nat.succ_pos _
    simp only [fields, List.cons_append, List.forall_mem_cons, List.forall_mem_append]
    refine ⟨Nat.succ_pos _, hentries, ⟨?_, ?_⟩, Nat.succ_pos _, by simp⟩
    · cases v with
      | nothing => exact fun x hx => absurd hx List.not_mem_nil
      | value e =>
        intro x hx
        obtain rfl := List.mem_singleton.mp hx
        simp only [weight, Body.weight, Yield.weight]
        omega
    · cases semi <;> simp [Body.semicolon, weight, Body.weight]
  | statement s =>
    cases s with
    | expression e => simp [fields, weight, Statement.weight]
    | binding k n eq e =>
      intro y hy
      simp only [fields, List.mem_cons, List.not_mem_nil, or_false] at hy
      rcases hy with rfl | rfl | rfl | rfl
      all_goals simp only [weight, Statement.weight]
      all_goals omega
  | element e =>
    cases e with
    | path q d s =>
      intro y hy
      simp only [fields, List.mem_cons, List.not_mem_nil, or_false] at hy
      rcases hy with rfl | rfl | rfl
      all_goals simp only [weight, Element.weight]
      all_goals omega
    | function x b =>
      intro y hy
      simp only [fields, List.mem_cons, List.not_mem_nil, or_false] at hy
      rcases hy with rfl | rfl
      all_goals simp only [weight, Element.weight]
      all_goals omega
    | script ss =>
      apply forall_mem_entries .statement (P := (·.weight < (Element.script ss).weight))
      · intro y hy
        exact Nat.lt_succ_of_le (ss.weight_le y hy)
      · exact fun l => Nat.succ_pos _
    | _ => simp [fields, weight, Element.weight]

private theorem nodup_fields (p : Part) : (p.fields.map Prod.fst).Nodup := by
  cases p with
  | leaf l => exact List.nodup_nil
  | name n => cases n <;> simp [fields]
  | parameter x => simp [fields]
  | parameters x =>
    rw [fields, List.map_append]
    apply nodup_around_entries (b := [.opening]) (c := [.closing]) <;> simp
  | body b =>
    rw [fields, List.map_append]
    apply nodup_around_entries (b := [.opening])
    · cases b.value <;> cases b.semicolon <;> simp [Yield.toOption]
    · cases b.value <;> cases b.semicolon <;> simp [Yield.toOption]
  | statement s => cases s <;> simp [fields]
  | element e =>
    cases e with
    | script ss => exact nodup_entries _ _ _
    | _ => simp [fields]

private theorem flatten_eq (p : Part) (h : ∀ l, p ≠ .leaf l) :
    p.flatten = p.fields.flatMap (·.2.flatten) := by
  cases p with
  | leaf l => exact absurd rfl (h l)
  | name n => cases n <;> rfl
  | parameter x => simp [fields, flatten, Parameter.leaves]
  | parameters x =>
    rw [fields, List.flatMap_append, List.flatMap_cons, flatten_entries]
    simp [flatten, Parameters.flatten, Parameter.leaves]
  | body b =>
    obtain ⟨o, ss, v, semi, c⟩ := b
    simp only [fields, List.flatMap_append, List.flatMap_cons, flatten_entries, List.cons_append]
    show Body.flatten _ = _
    rw [Body.flatten, Statements.flatten_toList]
    cases v <;> cases semi <;>
      simp [flatten, Body.opening, Body.statements, Body.value, Body.semicolon, Body.closing,
        Yield.toOption, Yield.flatten]
  | statement s => cases s <;> simp [fields, flatten, Statement.flatten]
  | element e =>
    cases e with
    | script ss =>
      rw [fields, flatten_entries, flatten, Element.flatten, Statements.flatten_toList]
      rfl
    | _ => simp [fields, flatten, Element.flatten]

/-- Some leaves with their addresses are all that is stored, and no address occurs twice. -/
structure Listing (stores : List Field → Leaf → Prop) (places : List (List Field × Leaf)) :
    Prop where
  once : (places.map Prod.fst).Nodup
  mem_iff : ∀ a l, (a, l) ∈ places ↔ stores a l

/-- One of the fields leads on to the leaf. -/
def StoredIn (fs : List (Field × Part)) (a : List Field) (l : Leaf) : Prop :=
  ∃ f q b, (f, q) ∈ fs ∧ a = f :: b ∧ q.Stores b l

private theorem stores_iff {p : Part} (h : ∀ l, p ≠ .leaf l) (a : List Field) (l : Leaf) :
    p.Stores a l ↔ StoredIn p.fields a l := by
  constructor
  · intro hs
    cases hs with
    | here => exact absurd rfl (h l)
    | under hf hq => exact ⟨_, _, _, hf, rfl, hq⟩
  · rintro ⟨f, q, b, hf, rfl, hq⟩
    exact .under hf hq

private theorem stores_leaf_iff (a : List Field) (l m : Leaf) :
    Stores (.leaf l) a m ↔ (a, m) = ([], l) := by
  constructor
  · intro hs
    cases hs with
    | here => rfl
    | under hf _ => exact absurd hf List.not_mem_nil
  · intro heq
    cases heq
    exact .here _

private theorem storedIn_cons (f : Field) (q : Part) (fs : List (Field × Part)) (a : List Field)
    (l : Leaf) :
    StoredIn ((f, q) :: fs) a l ↔ (∃ b, a = f :: b ∧ q.Stores b l) ∨ StoredIn fs a l := by
  constructor
  · rintro ⟨g, r, b, hg, rfl, hr⟩
    rcases List.mem_cons.mp hg with heq | hg
    · cases heq
      exact .inl ⟨b, rfl, hr⟩
    · exact .inr ⟨g, r, b, hg, rfl, hr⟩
  · rintro (⟨b, rfl, hq⟩ | ⟨g, r, b, hg, rfl, hr⟩)
    · exact ⟨f, q, b, List.mem_cons_self, rfl, hq⟩
    · exact ⟨g, r, b, List.mem_cons_of_mem _ hg, rfl, hr⟩

/-- Listings of what the fields hold, one behind the other, list what has the fields. -/
private theorem exists_listing_of_fields {fs : List (Field × Part)}
    (hnodup : (fs.map Prod.fst).Nodup)
    (h : ∀ x ∈ fs, ∃ places, Listing x.2.Stores places ∧ places.map Prod.snd = x.2.flatten) :
    ∃ places, Listing (StoredIn fs) places ∧
      places.map Prod.snd = fs.flatMap (·.2.flatten) := by
  induction fs with
  | nil =>
    refine ⟨[], ⟨List.nodup_nil, ?_⟩, rfl⟩
    simp [StoredIn]
  | cons x fs ih =>
    obtain ⟨f, q⟩ := x
    obtain ⟨hfresh, hnodup⟩ := List.nodup_cons.mp hnodup
    obtain ⟨⟨inner, hinner, hleaves⟩, hrest⟩ := List.forall_mem_cons.mp h
    obtain ⟨outer, houter, hbehind⟩ := ih hnodup hrest
    refine ⟨inner.map (fun y => (f :: y.1, y.2)) ++ outer, ⟨?_, ?_⟩, ?_⟩
    · rw [List.map_append, List.map_map, List.nodup_append]
      refine ⟨?_, houter.once, ?_⟩
      · have honce := List.pairwise_map.mp hinner.once
        exact List.pairwise_map.mpr (honce.imp fun hne heq => hne (List.cons.inj heq).2)
      · -- the addresses behind start with another field
        rintro _ ha _ hb rfl
        obtain ⟨y, -, rfl⟩ := List.mem_map.mp ha
        obtain ⟨z, hz, hstart⟩ := List.mem_map.mp hb
        obtain ⟨g, r, b, hg, heq, -⟩ := (houter.mem_iff z.1 z.2).mp hz
        rw [hstart] at heq
        cases heq
        exact hfresh (List.mem_map.mpr ⟨_, hg, rfl⟩)
    · intro a l
      rw [List.mem_append, houter.mem_iff, List.mem_map, storedIn_cons]
      apply or_congr_left
      constructor
      · rintro ⟨⟨b, m⟩, hmem, heq⟩
        cases heq
        exact ⟨b, rfl, (hinner.mem_iff b m).mp hmem⟩
      · rintro ⟨b, rfl, hq⟩
        exact ⟨(b, l), (hinner.mem_iff b l).mpr hq, rfl⟩
    · rw [List.map_append, List.map_map, List.flatMap_cons, ← hleaves, ← hbehind]
      rfl

/-- Left to right order lists all that a part stores. -/
theorem exists_listing (p : Part) :
    ∃ places, Listing p.Stores places ∧ places.map Prod.snd = p.flatten := by
  -- The types of trees are mutual, so the induction is on the weight of whatever a field holds.
  induction hn : p.weight using Nat.strongRecOn generalizing p with
  | ind n ih =>
    by_cases h : ∃ l, p = .leaf l
    · obtain ⟨l, rfl⟩ := h
      refine ⟨[([], l)], ⟨by simp, ?_⟩, rfl⟩
      intro a m
      rw [List.mem_singleton, stores_leaf_iff]
    · have h : ∀ l, p ≠ .leaf l := fun l hl => h ⟨l, hl⟩
      obtain ⟨places, hplaces, hleaves⟩ := exists_listing_of_fields p.nodup_fields
        fun x hx => ih _ (hn ▸ p.weight_lt x hx) x.2 rfl
      refine ⟨places, ⟨hplaces.once, ?_⟩, ?_⟩
      · intro a l
        rw [hplaces.mem_iff, stores_iff h]
      · rw [hleaves, flatten_eq p h]

end Part

/-- What stands at a place. -/
def Child.part : Child → Part
  | .token l | .type l => .leaf l
  | .element e => .element e
  | .declaration n => .name n
  | .statement s => .statement s

theorem Child.flatten_part (c : Child) : c.part.flatten = c.flatten := by
  cases c <;> rfl

end CommandGrammar
