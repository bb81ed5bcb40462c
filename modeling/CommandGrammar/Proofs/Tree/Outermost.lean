import CommandGrammar.Proofs.Tree.Missing

/-! Messages about any tree, whether it was parsed or put together. There is one for each outermost missing
place, and the leaves of these places are the missing leaves of the tree. -/
namespace CommandGrammar

namespace Leaf

/-- Where the last of the leaves that are there ends, or `base` if none is there. -/
def lastStop (base : Nat) (ls : List Leaf) : Nat :=
  (ls.filter (!·.missing)).getLast?.elim base (·.range.stop)

private theorem lastStop_append (base : Nat) (ls ms : List Leaf) :
    lastStop base (ls ++ ms) = lastStop (lastStop base ls) ms := by
  rw [lastStop, lastStop, List.filter_append, List.getLast?_append]
  cases (ms.filter (!·.missing)).getLast? with
  | none => rfl
  | some l => rfl

private theorem lastStop_missing (base : Nat) {ls : List Leaf} (h : ∀ l ∈ ls, l.missing = true) :
    lastStop base ls = base := by
  have hnone : ls.filter (!·.missing) = [] := by
    apply List.filter_eq_nil_iff.mpr
    intro l hl
    rw [h l hl]
    exact Bool.false_ne_true
  rw [lastStop, hnone]
  rfl

private theorem lastStop_present (base : Nat) {l : Leaf} (h : l.missing = false) :
    lastStop base [l] = l.range.stop := by
  rw [lastStop, List.filter_cons_of_pos (by rw [h]; rfl)]
  rfl

end Leaf

namespace Child

theorem leavesOf_cons (c : Child) (rest : List Child) :
    leavesOf (c :: rest) = c.leaves ++ leavesOf rest := by
  rw [leavesOf_eq, leavesOf_eq, leaves_eq, List.flatMap_cons]

theorem leavesOf_append (cs ds : List Child) :
    leavesOf (cs ++ ds) = leavesOf cs ++ leavesOf ds := by
  rw [leavesOf_eq, leavesOf_eq, leavesOf_eq, List.flatMap_append]

private theorem leaves_token (l : Leaf) : (token l).leaves = [l] := by
  rw [leaves_eq, flatten]

private theorem leaves_children {c : Child} (h : ∀ l, c ≠ .token l) :
    c.leaves = leavesOf c.children := by
  rw [leaves_eq, leavesOf_eq, flatten_eq c h]

end Child

/-- A place of a tree, with the leaves before and behind it. -/
structure Site where
  before : List Leaf
  place : Child
  after : List Leaf

namespace Site
open Child

/-- The place where more leaves come before the tree. -/
def shift (ls : List Leaf) (x : Site) : Site := { x with before := ls ++ x.before }

/-- The place where more leaves come behind the tree. -/
def extend (ls : List Leaf) (x : Site) : Site := { x with after := x.after ++ ls }

/-- The message about a place, at the end of the last leaf before it that is there. -/
def report (base : Nat) (x : Site) : Diagnostic :=
  ⟨(Diagnostic.describe x.place).1, (Diagnostic.describe x.place).2,
    .point (Leaf.lastStop base x.before)⟩

private theorem shift_shift (ls ms : List Leaf) (x : Site) :
    (x.shift ms).shift ls = x.shift (ls ++ ms) := by
  rw [shift, shift, shift, List.append_assoc]

private theorem extend_extend (ls ms : List Leaf) (x : Site) :
    (x.extend ls).extend ms = x.extend (ls ++ ms) := by
  rw [extend, extend, extend, List.append_assoc]

private theorem report_shift (base : Nat) (ls : List Leaf) (x : Site) :
    (x.shift ls).report base = x.report (Leaf.lastStop base ls) := by
  rw [report, shift, Leaf.lastStop_append]
  rfl

/-- The outermost missing places of some trees: a tree that is missing itself, the outermost missing
places below one that is not, and those of the trees behind. -/
inductive Outermost : List Child → Site → Prop
  | here {c : Child} {rest : List Child} (missing : c.isMissing = true) :
      Outermost (c :: rest) ⟨[], c, leavesOf rest⟩
  | inside {c : Child} {rest : List Child} {x : Site} (present : c.isMissing = false)
      (inner : Outermost c.children x) : Outermost (c :: rest) (x.extend (leavesOf rest))
  | behind {c : Child} {rest : List Child} {x : Site} (later : Outermost rest x) :
      Outermost (c :: rest) (x.shift c.leaves)

variable {c : Child} {rest cs ds : List Child} {x : Site}

private theorem Outermost.isMissing (h : Outermost cs x) : x.place.isMissing = true := by
  induction h with
  | here missing => exact missing
  | inside _ _ ih => exact ih
  | behind _ ih => exact ih

/-- A leaf has nothing below it, so a place that has is none. -/
private theorem Outermost.not_token (h : Outermost c.children x) : ∀ l, c ≠ .token l := by
  rintro l rfl
  cases h

private theorem Outermost.leaves_eq (h : Outermost cs x) :
    leavesOf cs = x.before ++ x.place.leaves ++ x.after := by
  induction h with
  | here _ => rw [leavesOf_cons, List.nil_append]
  | inside _ inner ih =>
    rw [leavesOf_cons, leaves_children inner.not_token, ih]
    exact List.append_assoc _ _ _
  | behind _ ih =>
    rw [leavesOf_cons, ih, shift, List.append_assoc, List.append_assoc, List.append_assoc]

private theorem outermost_append_iff : Outermost (cs ++ ds) x ↔
    (∃ y, Outermost cs y ∧ x = y.extend (leavesOf ds)) ∨
      ∃ y, Outermost ds y ∧ x = y.shift (leavesOf cs) := by
  induction cs generalizing x with
  | nil =>
    constructor
    · intro h
      exact .inr ⟨x, h, by rw [leavesOf, shift, List.nil_append]⟩
    · rintro (⟨y, hy, -⟩ | ⟨y, hy, rfl⟩)
      · cases hy
      · rw [leavesOf, shift, List.nil_append]
        exact hy
  | cons c cs ih =>
    constructor
    · intro h
      cases h with
      | here missing =>
        refine .inl ⟨_, .here missing, ?_⟩
        rw [extend, ← leavesOf_append]
        rfl
      | @inside _ _ y present inner =>
        refine .inl ⟨_, .inside present inner, ?_⟩
        rw [extend_extend, ← leavesOf_append]
        rfl
      | @behind _ _ y later =>
        rcases ih.mp later with ⟨z, hz, rfl⟩ | ⟨z, hz, rfl⟩
        · exact .inl ⟨_, .behind hz, rfl⟩
        · exact .inr ⟨z, hz, by rw [shift_shift, leavesOf_cons]⟩
    · rintro (⟨y, hy, rfl⟩ | ⟨y, hy, rfl⟩)
      · cases hy with
        | here missing =>
          rw [extend, ← leavesOf_append]
          exact .here missing
        | inside present inner =>
          rw [extend_extend, ← leavesOf_append]
          exact .inside present inner
        | @behind _ _ z later => exact .behind (ih.mpr (.inl ⟨z, later, rfl⟩))
      · rw [leavesOf_cons, ← shift_shift]
        exact .behind (ih.mpr (.inr ⟨y, hy, rfl⟩))

/-- A place that is neither missing nor a leaf may be replaced by those below it. -/
private theorem outermost_children_iff (hc : ∀ l, c ≠ .token l) (hpresent : c.isMissing = false) :
    Outermost (c.children ++ rest) x ↔ Outermost (c :: rest) x := by
  rw [outermost_append_iff, ← leaves_children hc]
  constructor
  · rintro (⟨y, hy, rfl⟩ | ⟨y, hy, rfl⟩)
    · exact .inside hpresent hy
    · exact .behind hy
  · intro h
    cases h with
    | here missing =>
      rw [hpresent] at missing
      cases missing
    | inside _ inner => exact .inl ⟨_, inner, rfl⟩
    | behind later => exact .inr ⟨_, later, rfl⟩

/-- Some places are the outermost missing ones of some trees, one behind the other, and theirs are the
missing leaves. -/
structure Survey (cs : List Child) (sites : List Site) : Prop where
  mem_iff : ∀ x, x ∈ sites ↔ Outermost cs x
  apart : sites.Pairwise fun x y => x.before ++ x.place.leaves <+: y.before
  groups : sites.flatMap (fun x => x.place.leaves) = (leavesOf cs).filter (·.missing)

namespace Survey
variable {sites : List Site}

private theorem nil : Survey [] [] where
  mem_iff x := iff_of_false List.not_mem_nil nofun
  apart := .nil
  groups := by
    rw [leavesOf]
    rfl

private theorem apart_shift (h : Survey rest sites) (ls : List Leaf) :
    (sites.map (shift ls)).Pairwise fun x y => x.before ++ x.place.leaves <+: y.before := by
  rw [List.pairwise_map]
  refine h.apart.imp fun {x y} hxy => ?_
  rw [shift, shift, List.append_assoc]
  exact (List.prefix_append_right_inj ls).mpr hxy

private theorem flatMap_shift (sites : List Site) (ls : List Leaf) :
    (sites.map (shift ls)).flatMap (fun x => x.place.leaves) =
      sites.flatMap fun x => x.place.leaves := by
  rw [List.flatMap_map]
  rfl

private theorem missing (hc : c.isMissing = true) (h : Survey rest sites) :
    Survey (c :: rest) (⟨[], c, leavesOf rest⟩ :: sites.map (shift c.leaves)) where
  mem_iff x := by
    rw [List.mem_cons, List.mem_map]
    constructor
    · rintro (rfl | ⟨y, hy, rfl⟩)
      · exact .here hc
      · exact .behind ((h.mem_iff y).mp hy)
    · intro hx
      cases hx with
      | here _ => exact .inl rfl
      | inside present _ =>
        rw [hc] at present
        cases present
      | behind later => exact .inr ⟨_, (h.mem_iff _).mpr later, rfl⟩
  apart := by
    refine List.pairwise_cons.mpr ⟨fun x hx => ?_, h.apart_shift _⟩
    obtain ⟨y, -, rfl⟩ := List.mem_map.mp hx
    exact List.prefix_append _ _
  groups := by
    have hall := (Bool.and_eq_true_iff.mp hc).2
    rw [List.flatMap_cons, flatMap_shift, h.groups, leavesOf_cons, List.filter_append,
      List.filter_eq_self.mpr (List.all_eq_true.mp hall)]

private theorem present {l : Leaf} (hl : l.missing = false) (h : Survey rest sites) :
    Survey (.token l :: rest) (sites.map (shift [l])) where
  mem_iff x := by
    rw [List.mem_map, ← leaves_token]
    constructor
    · rintro ⟨y, hy, rfl⟩
      exact .behind ((h.mem_iff y).mp hy)
    · intro hx
      cases hx with
      | here missing =>
        rw [Diagnostic.missing_of_token, hl] at missing
        cases missing
      | inside _ inner => cases inner
      | behind later => exact ⟨_, (h.mem_iff _).mpr later, rfl⟩
  apart := h.apart_shift _
  groups := by
    rw [flatMap_shift, h.groups, leavesOf_cons, leaves_token, List.singleton_append,
      List.filter_cons_of_neg (by rw [hl]; exact Bool.false_ne_true)]

private theorem descend (hc : ∀ l, c ≠ .token l) (hpresent : c.isMissing = false)
    (h : Survey (c.children ++ rest) sites) : Survey (c :: rest) sites where
  mem_iff x := (h.mem_iff x).trans (outermost_children_iff hc hpresent)
  apart := h.apart
  groups := by rw [h.groups, leavesOf_append, leavesOf_cons, leaves_children hc]

end Survey
end Site

namespace Diagnostic
open Child Site

/-- The walk comes by the outermost missing places, in their order. -/
private theorem exists_survey (lastEnd : Nat) (stack : List Child) :
    ∃ sites, Survey stack sites ∧ missingOf lastEnd stack = sites.map (report lastEnd) := by
  fun_induction missingOf lastEnd stack with
  | case1 => exact ⟨[], .nil, rfl⟩
  | case2 lastEnd c rest hc code message hdescribe ih =>
    obtain ⟨sites, hsites, hrest⟩ := ih
    refine ⟨_, hsites.missing hc, ?_⟩
    have hstop : Leaf.lastStop lastEnd c.leaves = lastEnd := by
      apply Leaf.lastStop_missing
      exact List.all_eq_true.mp (Bool.and_eq_true_iff.mp hc).2
    rw [hrest, List.map_cons, List.map_map, report, hdescribe]
    congr 1
    apply List.map_congr_left
    intro x _
    rw [Function.comp_apply, report_shift, hstop]
  | case3 lastEnd rest l hl ih =>
    obtain ⟨sites, hsites, hrest⟩ := ih
    rw [missing_of_token, Bool.not_eq_true] at hl
    refine ⟨_, hsites.present hl, ?_⟩
    rw [hrest, List.map_map]
    apply List.map_congr_left
    intro x _
    rw [Function.comp_apply, report_shift, Leaf.lastStop_present lastEnd hl]
  | case4 lastEnd rest c hc hmissing ih =>
    obtain ⟨sites, hsites, hrest⟩ := ih
    exact ⟨sites, hsites.descend hc (Bool.eq_false_iff.mpr hmissing), hrest⟩

/-- The messages about a tree are those about its outermost missing places, from the first to the last. The
places are apart, their leaves are all missing and together they are the missing leaves of the tree. Each
message stands at the end of the last leaf before its place that is there, or at the very beginning. -/
theorem missing_outermost (e : Element) :
    ∃ sites, Survey [.element e] sites ∧
      (∀ x ∈ sites, x.place.isMissing = true ∧ e.leaves = x.before ++ x.place.leaves ++ x.after) ∧
      missing e = sites.map (report 0) ∧
      (missing e = [] ↔ ∀ l ∈ e.leaves, l.missing = false) := by
  obtain ⟨sites, hsites, hmissing⟩ := exists_survey 0 [.element e]
  refine ⟨sites, hsites, fun x hx => ?_, (missing_eq e).trans hmissing, ?_⟩
  · have houtermost := (hsites.mem_iff x).mp hx
    exact ⟨houtermost.isMissing, houtermost.leaves_eq⟩
  · rw [missing_eq_nil_iff, ← Element.leaves_eq]
    rfl

end Diagnostic
end CommandGrammar
