import CommandGrammar.Proofs.Tree.Fields
import CommandGrammar.Proofs.Tree.Spine

/-! The leaves of a place found by a loop over the places still to visit. A turn takes the last of
them off and either keeps its leaf or puts the places below it there, the first of them last. -/
namespace CommandGrammar

/-- The places still to visit, the next one last, and the leaves found so far. -/
structure Traversal where
  pending : List Child
  found : List Leaf

namespace Traversal

def start (c : Child) : Traversal := ⟨[c], []⟩

/-- One turn of the loop; there is none when no place is left. -/
def step (t : Traversal) : Option Traversal :=
  match t.pending.getLast? with
  | none => none
  | some (.token l) => some ⟨t.pending.dropLast, t.found ++ [l]⟩
  | some c => some ⟨t.pending.dropLast ++ c.children.reverse, t.found⟩

/-- So many turns of the loop. -/
def run : Nat → Traversal → Option Traversal
  | 0, t => some t
  | n + 1, t => t.step.bind (run n)

/-- The leaves found so far and those below the places still to visit. -/
def yields (t : Traversal) : List Leaf := t.found ++ t.pending.reverse.flatMap Child.flatten

/-- Number of places from those still to visit down. -/
def remaining (t : Traversal) : Nat := Child.weightOf t.pending

private theorem step_concat_token (cs : List Child) (l : Leaf) (found : List Leaf) :
    step ⟨cs ++ [.token l], found⟩ = some ⟨cs, found ++ [l]⟩ := by
  rw [step, List.getLast?_concat, List.dropLast_concat]

private theorem step_concat (cs : List Child) {c : Child} (hc : ∀ l, c ≠ .token l)
    (found : List Leaf) : step ⟨cs ++ [c], found⟩ = some ⟨cs ++ c.children.reverse, found⟩ := by
  rw [step, List.getLast?_concat, List.dropLast_concat]
  cases c with
  | token l => exact absurd rfl (hc l)
  | _ => rfl

private theorem weightOf_reverse (cs : List Child) :
    Child.weightOf cs.reverse = Child.weightOf cs := by
  induction cs with
  | nil => rfl
  | cons c cs ih =>
    rw [List.reverse_cons, Child.weightOf_append, ih, Child.weightOf_cons, Child.weightOf_cons,
      Child.weightOf]
    omega

/-- As long as a place is left there is a turn. It visits just one place and loses no leaf. -/
private theorem step_spec (t : Traversal) (h : t.pending ≠ []) :
    ∃ t', t.step = some t' ∧ t'.yields = t.yields ∧ t'.remaining + 1 = t.remaining := by
  obtain ⟨pending, found⟩ := t
  obtain ⟨cs, c, hlast⟩ := (List.eq_nil_or_concat pending).resolve_left h
  rw [List.concat_eq_append] at hlast
  subst hlast
  by_cases hc : ∃ l, c = .token l
  · obtain ⟨l, rfl⟩ := hc
    refine ⟨_, step_concat_token cs l found, ?_, ?_⟩
    · simp [yields, Child.flatten]
    · simp [remaining, Child.weightOf, Child.weight]
  · have hc : ∀ l, c ≠ .token l := fun l h => hc ⟨l, h⟩
    refine ⟨_, step_concat cs hc found, ?_, ?_⟩
    · rw [yields, yields, List.reverse_append, List.reverse_reverse, List.reverse_append,
        List.reverse_singleton, List.flatMap_append, List.flatMap_append, List.flatMap_singleton,
        Child.flatten_eq c hc]
    · rw [remaining, remaining, Child.weightOf_append, Child.weightOf_append, weightOf_reverse,
        Child.weightOf_cons, Child.weight_eq c, Child.weightOf]
      omega

/-- After as many turns as there are places no place is left, and all leaves are found. -/
private theorem run_remaining (t : Traversal) : run t.remaining t = some ⟨[], t.yields⟩ := by
  -- The number of turns decides the induction, since a turn puts other places on the stack.
  induction hn : t.remaining generalizing t with
  | zero =>
    obtain ⟨pending, found⟩ := t
    cases pending with
    | nil => rw [run, yields, List.reverse_nil, List.flatMap_nil, List.append_nil]
    | cons c cs =>
      have hlt := Child.weightOf_rest_lt c cs
      have hzero : Child.weightOf (c :: cs) = 0 := hn
      omega
  | succ n ih =>
    have hp : t.pending ≠ [] := by
      intro hp
      rw [remaining, hp, Child.weightOf] at hn
      omega
    obtain ⟨t', hstep, hyields, hless⟩ := t.step_spec hp
    rw [run, hstep, Option.bind_some, ih t' (by omega), hyields]

private theorem run_start (c : Child) : run c.weight (start c) = some ⟨[], c.leaves⟩ := by
  have hrun := run_remaining (start c)
  rw [remaining, yields, start, Child.weightOf_cons, Child.weightOf, Nat.add_zero] at hrun
  rw [start, hrun, Child.leaves_eq]
  simp

end Traversal

namespace Child

/-- A function from places to leaves that reads the tree from left to right. -/
structure ReadsInOrder (f : Child → List Leaf) : Prop where
  token : ∀ l, f (.token l) = [l]
  node : ∀ c, (∀ l, c ≠ .token l) → f c = c.children.flatMap f

theorem readsInOrder_flatten : ReadsInOrder flatten := ⟨fun _ => rfl, flatten_eq⟩

private theorem weight_le_weightOf {c : Child} {cs : List Child} (h : c ∈ cs) :
    c.weight ≤ weightOf cs := by
  induction cs with
  | nil => exact absurd h List.not_mem_nil
  | cons d cs ih =>
    rw [weightOf_cons]
    rcases List.mem_cons.mp h with rfl | h
    · exact Nat.le_add_right _ _
    · have hle := ih h
      omega

/-- There is one way only to read a tree from left to right. -/
theorem ReadsInOrder.eq_flatten {f : Child → List Leaf} (hf : ReadsInOrder f) : f = flatten := by
  funext c
  induction hn : c.weight using Nat.strongRecOn generalizing c with
  | ind n ih =>
    by_cases h : ∃ l, c = .token l
    · obtain ⟨l, rfl⟩ := h
      exact hf.token l
    · have h : ∀ l, c ≠ .token l := fun l hl => h ⟨l, hl⟩
      have hbelow : ∀ d ∈ c.children, f d = d.flatten := by
        intro d hd
        have hle := weight_le_weightOf hd
        have hc := c.weight_eq
        exact ih _ (by omega) d rfl
      rw [hf.node c h, flatten_eq c h, List.flatMap_def, List.flatMap_def,
        List.map_congr_left hbelow]

private theorem leaves_of_chain (e : Element) :
    e.leaves = e.leftmost.leaves ++ e.links.reverse.flatMap fun l => l.dot :: l.selector.leaves := by
  simp only [Element.leaves_eq]
  rw [← Element.flatten_chain, Element.chain_links]

/-- The loop visits every place once and then ends with the leaves. These are what the recursion over
the places below yields, those of a chain are the leaves of its segments with the dots between, and
they are all that is stored in any field, each once. -/
theorem traversal_exact :
    (∀ c : Child, Traversal.run c.weight (.start c) = some ⟨[], c.leaves⟩) ∧
      (∀ f : Child → List Leaf, ReadsInOrder f ↔ f = leaves) ∧
      (∀ e : Element, e.leaves =
        e.leftmost.leaves ++ e.links.reverse.flatMap fun l => l.dot :: l.selector.leaves) ∧
      ∀ c : Child, ∃ places, Part.Listing c.part.Stores places ∧ places.map Prod.snd = c.leaves := by
  have hleaves : leaves = flatten := funext leaves_eq
  refine ⟨Traversal.run_start, ?_, leaves_of_chain, ?_⟩
  · intro f
    rw [hleaves]
    constructor
    · exact fun hf => hf.eq_flatten
    · rintro rfl
      exact readsInOrder_flatten
  · intro c
    rw [leaves_eq, ← flatten_part]
    exact c.part.exists_listing

end Child
end CommandGrammar
