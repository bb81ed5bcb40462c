import CommandGrammar.Proofs.Grammar.Ensures
import CommandGrammar.Proofs.Tree.Missing

/-! Matches in which nothing had to be made up, one law for each way of building a grammar. -/
namespace CommandGrammar.Source
open Leaf
variable {α β : Type} {s : Source} {g h : Grammar α} {leaves : α → List Leaf} {p m q : Nat}

/-- There is a match of `g` from `p` to `q`, and the leaves of its value are all there. -/
def Finds (s : Source) (leaves : α → List Leaf) (g : Grammar α) (p q : Nat) : Prop :=
  ∃ a, s.parse g p = some (a, q) ∧ Present (leaves a)

/-- A grammar that ensures something false does not match. -/
theorem Ensures.parse_eq_none {P : Nat → Nat → α → Prop} (hg : s.Ensures g P)
    (hP : ∀ q a, ¬ P p q a) : s.parse g p = none := by
  rw [Option.eq_none_iff_forall_ne_some]
  rintro ⟨a, q⟩ ha
  exact hP q a (hg ha)

theorem parse_kind_eq_none {k : Kind} (hk : (s.peek p).kind ≠ k) : s.parse (.kind k) p = none :=
  (Ensures.satisfy _).parse_eq_none fun _ _ h => hk (eq_of_beq h.2.1)

/-- A token is read by its kind where it stands. -/
theorem parse_kind {k : Kind} (hk : k ≠ .endOfText) :
    s.parse (.kind k) p =
      if (s.peek p).kind = k then some (.ofToken (s.peek p), p + 1) else none := by
  split
  · next h =>
    have hend : s.isEnd p = false := by
      rw [isEnd, Token.isEnd, h, beq_eq_false_iff_ne]
      exact hk
    rw [Grammar.kind, parse_satisfy, if_pos ⟨hend, beq_iff_eq.mpr h⟩]
  · next h => exact parse_kind_eq_none h

theorem parse_map_eq_none {f : α → β} (hg : s.parse g p = none) : s.parse (g.map f) p = none := by
  rw [parse_map, hg, Option.map_none]

theorem parse_seq_eq_none {k : Grammar β} (hg : s.parse g p = none) :
    s.parse (g.seq k) p = none := by
  rw [parse_seq, hg, Option.bind_none]

namespace Finds

theorem satisfy {accepts : Token → Bool} (hend : s.isEnd p = false)
    (haccepts : accepts (s.peek p) = true) :
    s.Finds (fun l => [l]) (.satisfy accepts) p (p + 1) := by
  refine ⟨.ofToken (s.peek p), ?_, present_singleton.mpr rfl⟩
  rw [parse_satisfy, if_pos ⟨hend, haccepts⟩]

theorem kind {k : Kind} (hend : k ≠ .endOfText) (hk : (s.peek p).kind = k) :
    s.Finds (fun l => [l]) (.kind k) p (p + 1) := by
  refine ⟨.ofToken (s.peek p), ?_, present_singleton.mpr rfl⟩
  rw [parse_kind hend, if_pos hk]

theorem map {f : α → β} {leaves' : β → List Leaf} (hg : s.Finds leaves g p q)
    (hf : ∀ a, leaves' (f a) = leaves a) : s.Finds leaves' (g.map f) p q := by
  obtain ⟨a, ha, hpresent⟩ := hg
  refine ⟨f a, ?_, ?_⟩
  · rw [parse_map, ha, Option.map_some]
  · rw [hf]
    exact hpresent

theorem seq {k : Grammar β} {leaves' : β → List Leaf} (hg : s.Finds leaves g p m)
    (hk : s.Finds leaves' k m q) : s.Finds (fun x => leaves x.1 ++ leaves' x.2) (g.seq k) p q := by
  obtain ⟨a, ha, hla⟩ := hg
  obtain ⟨b, hb, hlb⟩ := hk
  refine ⟨(a, b), ?_, present_append.mpr ⟨hla, hlb⟩⟩
  simp only [parse_seq, ha, hb, Option.bind_some, Option.map_some]

/-- A sequence fails where its second part does. -/
theorem parse_seq_eq_none {k : Grammar β} (hg : s.Finds leaves g p m)
    (hk : s.parse k m = none) : s.parse (g.seq k) p = none := by
  obtain ⟨a, ha, -⟩ := hg
  simp only [parse_seq, ha, hk, Option.bind_some, Option.map_none]

/-- Each alternative finds the same tokens or nothing, and one finds them. -/
theorem first {gs : List (Grammar α)}
    (hall : ∀ g ∈ gs, s.parse g p = none ∨ s.Finds leaves g p q)
    (hsome : ∃ g ∈ gs, s.Finds leaves g p q) : s.Finds leaves (.first gs) p q := by
  induction gs with
  | nil =>
    obtain ⟨g, hg, -⟩ := hsome
    cases hg
  | cons g gs ih =>
    obtain ⟨hg, hgs⟩ := List.forall_mem_cons.mp hall
    by_cases hfound : s.Finds leaves g p q
    · obtain ⟨a, ha, hpresent⟩ := hfound
      refine ⟨a, ?_, hpresent⟩
      rw [Grammar.first, parse_orElse, ha, Option.some_or]
    · have hnone := hg.resolve_right hfound
      obtain ⟨g', hg', hfinds⟩ := hsome
      rcases List.mem_cons.mp hg' with rfl | hg'
      · exact absurd hfinds hfound
      · obtain ⟨a, ha, hpresent⟩ := ih hgs ⟨g', hg', hfinds⟩
        refine ⟨a, ?_, hpresent⟩
        rw [Grammar.first, parse_orElse, hnone, Option.none_or, ha]

/-- The first of two alternatives. -/
theorem left (hg : s.Finds leaves g p q) : s.Finds leaves (.first [g, h]) p q := by
  obtain ⟨a, ha, hpresent⟩ := hg
  refine ⟨a, ?_, hpresent⟩
  rw [Grammar.first, parse_orElse, ha, Option.some_or]

/-- The second of two alternatives, where the first does not match. -/
theorem right (hg : s.parse g p = none) (hh : s.Finds leaves h p q) :
    s.Finds leaves (.first [g, h]) p q := by
  refine first ?_ ⟨h, by simp, hh⟩
  simp only [List.forall_mem_cons, List.not_mem_nil, false_implies, implies_true, and_true]
  exact ⟨.inl hg, .inr hh⟩

theorem many_done (hg : s.parse g p = none) : s.Finds (List.flatMap leaves) g.many p p :=
  ⟨[], by rw [parse_many, hg], present_nil⟩

theorem many_more (hg : s.Finds leaves g p m) (hlt : p < m)
    (hrest : s.Finds (List.flatMap leaves) g.many m q) :
    s.Finds (List.flatMap leaves) g.many p q := by
  obtain ⟨a, ha, hla⟩ := hg
  obtain ⟨as, has, hlas⟩ := hrest
  refine ⟨a :: as, ?_, present_append.mpr ⟨hla, hlas⟩⟩
  rw [parse_many, ha]
  simp only [if_pos hlt, has, Option.map_some]

theorem optional_some (hg : s.Finds leaves g p q) :
    s.Finds (fun o => o.elim [] leaves) g.optional p q := by
  obtain ⟨a, ha, hpresent⟩ := hg
  refine ⟨some a, ?_, hpresent⟩
  rw [parse_optional, ha, Option.map_some, Option.some_or]

theorem optional_none (hg : s.parse g p = none) :
    s.Finds (fun o => o.elim [] leaves) g.optional p p := by
  refine ⟨none, ?_, present_nil⟩
  rw [parse_optional, hg, Option.map_none, Option.none_or]

theorem required {placeholder : α} (hg : s.Finds leaves g p q) :
    s.Finds leaves (g.required placeholder) p q := by
  obtain ⟨a, ha, hpresent⟩ := hg
  refine ⟨a, ?_, hpresent⟩
  rw [parse_required, ha, Option.some_or]

theorem withLabel (label : String) (hg : s.Finds leaves g p q) :
    s.Finds leaves (g.withLabel label) p q := by
  obtain ⟨a, ha, hpresent⟩ := hg
  refine ⟨a, ?_, hpresent⟩
  rw [parse_withLabel, ha]

end Finds
end CommandGrammar.Source
