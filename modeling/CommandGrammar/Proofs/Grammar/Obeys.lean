import CommandGrammar.Proofs.Grammar.Ensures
import CommandGrammar.Proofs.Source.Derives
import CommandGrammar.Proofs.Tree.Missing

/-! Grammars that obey a language: where they match and nothing had to be made up, what they consumed
belongs to it. -/
namespace CommandGrammar.Source
open Computability Leaf
variable {α β : Type} {s : Source} {g h : Grammar α} {leaves : α → List Leaf}
  {L M : Language Token}

/-- Every match of `g` whose leaves are all there is on tokens of the language. -/
def Obeys (s : Source) (leaves : α → List Leaf) (g : Grammar α) (L : Language Token) : Prop :=
  s.Ensures g fun p q a => Present (leaves a) → s.Derives L p q

namespace Obeys

theorem satisfy {accepts : Token → Bool} {P : Token → Prop} (s : Source) (leaves : Leaf → List Leaf)
    (hP : ∀ p, s.isEnd p = false → accepts (s.peek p) = true → P (s.peek p)) :
    s.Obeys leaves (.satisfy accepts) (Phrase.single P) := by
  refine (Ensures.satisfy accepts).mono ?_
  rintro p q l ⟨hend, haccepts, rfl, -⟩ -
  exact derives_single_iff.mpr ⟨rfl, hP p hend haccepts⟩

theorem map {f : α → β} {leaves' : β → List Leaf} (hg : s.Obeys leaves g L)
    (hf : ∀ a, leaves' (f a) = leaves a) : s.Obeys leaves' (g.map f) L := by
  refine Ensures.map (hg.mono fun p q a ha hpresent => ?_)
  rw [hf] at hpresent
  exact ha hpresent

theorem seq {k : Grammar β} {leaves' : β → List Leaf} (hg : s.Obeys leaves g L)
    (hk : s.Obeys leaves' k M) :
    s.Obeys (fun x => leaves x.1 ++ leaves' x.2) (g.seq k) (L * M) := by
  refine Ensures.seq hg hk fun p m q a b ha hb hpresent => ?_
  obtain ⟨hla, hlb⟩ := present_append.mp hpresent
  exact derives_mul_iff.mpr ⟨m, ha hla, hb hlb⟩

/-- The language of two alternatives. -/
theorem either (hg : s.Obeys leaves g L) (hh : s.Obeys leaves h M) :
    s.Obeys leaves (.first [g, h]) (L + M) := by
  refine Ensures.either (hg.mono ?_) (hh.mono ?_)
  · intro p q a ha hpresent
    exact derives_add_iff.mpr (.inl (ha hpresent))
  · intro p q a ha hpresent
    exact derives_add_iff.mpr (.inr (ha hpresent))

theorem many (hg : s.Obeys leaves g L) : s.Obeys (List.flatMap leaves) g.many L∗ := by
  refine Ensures.many hg (fun p _ => derives_kstar_self p) fun p m q a as ha has hpresent => ?_
  rw [List.flatMap_cons] at hpresent
  obtain ⟨hla, hlas⟩ := present_append.mp hpresent
  exact derives_kstar_more (ha hla) (has hlas)

theorem optional (hg : s.Obeys leaves g L) :
    s.Obeys (fun o => o.elim [] leaves) g.optional (1 + L) := by
  refine Ensures.optional (hg.mono fun p q a ha hpresent => ?_) fun p _ => ?_
  · exact derives_add_iff.mpr (.inr (ha hpresent))
  · exact derives_add_iff.mpr (.inl (derives_one_iff.mpr rfl))

/-- A placeholder makes no match complete. -/
theorem required {placeholder : α} (hg : s.Obeys leaves g L)
    (hp : ¬ Present (leaves placeholder)) : s.Obeys leaves (g.required placeholder) L :=
  Ensures.required hg fun _ hpresent => absurd hpresent hp

end Obeys
end CommandGrammar.Source
