import CommandGrammar.Proofs.Grammar.Ensures
import CommandGrammar.Tree.Flatten
import CommandGrammar.Tree.Placeholder
import CommandGrammar.Fragment.Path

/-! Which tokens the leaves of a tree stand for. The leaves that are there lie on the tokens of an
interval one behind the other; the missing ones are blank. -/
namespace CommandGrammar

/-- Leaves one behind the other, each on an interval that begins where the one before it ends. -/
inductive Tiling (tile : Nat → Nat → Leaf → Prop) : Nat → Nat → List Leaf → Prop
  | nil (p : Nat) : Tiling tile p p []
  | cons {p m q : Nat} {l : Leaf} {ls : List Leaf} (head : tile p m l)
      (tail : Tiling tile m q ls) : Tiling tile p q (l :: ls)

namespace Tiling
variable {tile : Nat → Nat → Leaf → Prop} {p m q : Nat} {ls ms : List Leaf}

theorem append (h : Tiling tile p m ls) (h' : Tiling tile m q ms) : Tiling tile p q (ls ++ ms) := by
  induction h with
  | nil => exact h'
  | cons head _ ih => exact .cons head (ih h')

theorem mono {tile' : Nat → Nat → Leaf → Prop} (h : Tiling tile p q ls)
    (ht : ∀ p q l, tile p q l → tile' p q l) : Tiling tile' p q ls := by
  induction h with
  | nil p => exact .nil p
  | cons head _ ih => exact .cons (ht _ _ _ head) ih

end Tiling

theorem Leaf.head_present {l : Leaf} (h : l.missing = false) (ls : List Leaf) :
    ∀ l' ∈ (l :: ls).head?, l'.missing = false := by
  intro l' hl'
  cases hl'
  exact h

namespace Source

/-- A leaf on the tokens it was made of: the copy of one token, or a run of tokens behind an opening
bracket taken as one string. -/
inductive Cell (s : Source) : Nat → Nat → Leaf → Prop
  | token (p : Nat) (hidden : Bool) :
      Cell s p (p + 1) { Leaf.ofToken (s.peek p) with hidden := hidden }
  | run {p q : Nat} (h : p < q) (opening : (s.peek p).text = ['[']) :
      Cell s p q (s.reconstruct .stringLiteral p q)

theorem Cell.lt {s : Source} {p q : Nat} {l : Leaf} (h : s.Cell p q l) : p < q := by
  cases h with
  | token => exact Nat.lt_succ_self p
  | run h => exact h

theorem missing_reconstruct (s : Source) (k : Kind) (p q : Nat) :
    (s.reconstruct k p q).missing = false := by
  rw [reconstruct]
  cases s.slice p q with
  | nil => rfl
  | cons t ts => rfl

theorem Cell.present {s : Source} {p q : Nat} {l : Leaf} (h : s.Cell p q l) :
    l.missing = false := by
  cases h with
  | token => rfl
  | run => exact missing_reconstruct s _ p q

/-- The leaves that are there tile the interval, and those that are missing are blank. -/
structure Covers (s : Source) (p q : Nat) (ls : List Leaf) : Prop where
  tiling : Tiling s.Cell p q (ls.filter (!·.missing))
  blank : ∀ l ∈ ls, l.missing = true → l.trivia = [] ∧ l.text = []

namespace Covers
variable {s : Source} {p m q : Nat} {ls ms : List Leaf}

private theorem nil (s : Source) (p : Nat) : s.Covers p p [] := ⟨.nil p, nofun⟩

private theorem append (h : s.Covers p m ls) (h' : s.Covers m q ms) : s.Covers p q (ls ++ ms) := by
  constructor
  · rw [List.filter_append]
    exact h.tiling.append h'.tiling
  · intro l hl
    rcases List.mem_append.mp hl with hl | hl
    · exact h.blank l hl
    · exact h'.blank l hl

private theorem of_cell {l : Leaf} (h : s.Cell p q l) : s.Covers p q [l] := by
  have hl := h.present
  constructor
  · rw [List.filter_cons_of_pos (by simp [hl])]
    exact .cons h (.nil q)
  · intro l' hl' hm
    rw [List.mem_singleton.mp hl', hl] at hm
    cases hm

/-- Placeholders cover no token. -/
private theorem of_placeholders (h : ∀ l ∈ ls, ∃ k, l = Leaf.placeholder k) (p : Nat) :
    s.Covers p p ls := by
  constructor
  · have hn : ls.filter (!·.missing) = [] := by
      rw [List.filter_eq_nil_iff]
      intro l hl
      obtain ⟨k, rfl⟩ := h l hl
      exact Bool.false_ne_true
    rw [hn]
    exact .nil p
  · intro l hl _
    obtain ⟨k, rfl⟩ := h l hl
    exact ⟨rfl, rfl⟩

end Covers

/-- In every match of `g` the leaves of the value cover the tokens that were consumed. -/
def Covering {α : Type} (s : Source) (leaves : α → List Leaf) (g : Grammar α) : Prop :=
  s.Ensures g fun p q a => s.Covers p q (leaves a)

namespace Covering
variable {α β : Type} {s : Source} {g h : Grammar α} {leaves : α → List Leaf}

theorem hidden (s : Source) (accepts : Token → Bool) :
    s.Covering (fun l => [l]) (Grammar.hide (.satisfy accepts)) := by
  refine .map ((Ensures.satisfy accepts).mono ?_)
  intro p q l hl
  obtain ⟨-, -, rfl, rfl⟩ := hl
  exact .of_cell (.token p true)

theorem map {f : α → β} {leaves' : β → List Leaf} (hg : s.Covering leaves g)
    (hf : ∀ a, leaves' (f a) = leaves a) : s.Covering leaves' (g.map f) := by
  refine Ensures.map (hg.mono fun p q a ha => ?_)
  rw [hf]
  exact ha

theorem seq {k : Grammar β} {leaves' : β → List Leaf} (hg : s.Covering leaves g)
    (hk : s.Covering leaves' k) : s.Covering (fun x => leaves x.1 ++ leaves' x.2) (g.seq k) :=
  Ensures.seq hg hk fun _ _ _ _ _ ha hb => ha.append hb

theorem many (hg : s.Covering leaves g) : s.Covering (List.flatMap leaves) g.many := by
  refine Ensures.many hg (fun p => .nil s p) fun p m q a as ha has => ?_
  rw [List.flatMap_cons]
  exact ha.append has

theorem optional (hg : s.Covering leaves g) :
    s.Covering (fun o => o.elim [] leaves) g.optional :=
  Ensures.optional hg fun p => .nil s p

theorem required {placeholder : α} (hg : s.Covering leaves g)
    (hp : ∀ l ∈ leaves placeholder, ∃ k, l = Leaf.placeholder k) :
    s.Covering leaves (g.required placeholder) :=
  Ensures.required hg fun p => .of_placeholders hp p

end Covering

/-- In every match of `g` the leaves of the value cover the tokens that were consumed, and the first
leaf is there: what is made up stands behind something that was found. -/
def Anchored {α : Type} (s : Source) (leaves : α → List Leaf) (g : Grammar α) : Prop :=
  s.Ensures g fun p q a =>
    s.Covers p q (leaves a) ∧ ∃ l ls, leaves a = l :: ls ∧ l.missing = false

namespace Anchored
variable {α β : Type} {s : Source} {g : Grammar α} {leaves : α → List Leaf}

theorem covering (hg : s.Anchored leaves g) : s.Covering leaves g := hg.mono fun _ _ _ h => h.1

theorem of_cell {g : Grammar Leaf} (hg : s.Ensures g s.Cell) : s.Anchored (fun l => [l]) g :=
  hg.mono fun _ _ l hl => ⟨.of_cell hl, l, [], rfl, hl.present⟩

theorem satisfy (s : Source) (accepts : Token → Bool) :
    s.Anchored (fun l => [l]) (.satisfy accepts) := by
  refine of_cell ((Ensures.satisfy accepts).mono ?_)
  intro p q l hl
  obtain ⟨-, -, rfl, rfl⟩ := hl
  exact .token p false

theorem map {f : α → β} {leaves' : β → List Leaf} (hg : s.Anchored leaves g)
    (hf : ∀ a, leaves' (f a) = leaves a) : s.Anchored leaves' (g.map f) := by
  refine Ensures.map (hg.mono fun p q a ha => ?_)
  rw [hf]
  exact ha

/-- The first part of a sequence anchors all of it. -/
theorem seq {k : Grammar β} {leaves' : β → List Leaf} (hg : s.Anchored leaves g)
    (hk : s.Covering leaves' k) : s.Anchored (fun x => leaves x.1 ++ leaves' x.2) (g.seq k) := by
  refine Ensures.seq hg hk ?_
  rintro p m q a b ⟨hcovers, l, ls, ha, hl⟩ hb
  have hab : leaves a ++ leaves' b = l :: (ls ++ leaves' b) := by rw [ha, List.cons_append]
  exact ⟨hcovers.append hb, l, ls ++ leaves' b, hab, hl⟩

/-- A repetition has no leaves or begins as its body does. -/
theorem many (hg : s.Anchored leaves g) :
    s.Ensures g.many fun p q as =>
      s.Covers p q (as.flatMap leaves) ∧ ∀ l ∈ (as.flatMap leaves).head?, l.missing = false := by
  refine .many hg (fun p => ⟨.nil s p, nofun⟩) ?_
  rintro p m q a as ⟨hcovers, l, ls, ha, hl⟩ ⟨hrest, -⟩
  refine ⟨hcovers.append hrest, ?_⟩
  rw [List.flatMap_cons, ha, List.cons_append]
  exact Leaf.head_present hl _

end Anchored
end Source
end CommandGrammar
