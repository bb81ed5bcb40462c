import CommandGrammar.Diagnostic
import CommandGrammar.Tree.Flatten

/-! Nothing is reported missing exactly where every leaf of a tree is there. -/
namespace CommandGrammar

/-- All leaves of a list are there. -/
def Leaf.Present (ls : List Leaf) : Prop := ∀ l ∈ ls, l.missing = false

namespace Leaf

instance (ls : List Leaf) : Decidable (Present ls) :=
  inferInstanceAs (Decidable (∀ l ∈ ls, l.missing = false))

theorem present_append {ls ms : List Leaf} : Present (ls ++ ms) ↔ Present ls ∧ Present ms :=
  List.forall_mem_append

theorem present_nil : Present [] := nofun

theorem present_singleton {l : Leaf} : Present [l] ↔ l.missing = false :=
  List.forall_mem_singleton

end Leaf

namespace Diagnostic
open Child Leaf

private theorem head_of_isMissing {c : Child} (h : c.isMissing = true) :
    ∃ l ls, c.flatten = l :: ls ∧ l.missing = true := by
  rw [isMissing, leaves_eq] at h
  obtain ⟨hne, hall⟩ := Bool.and_eq_true_iff.mp h
  cases hc : c.flatten with
  | nil =>
    rw [hc] at hne
    cases hne
  | cons l ls =>
    rw [hc] at hall
    exact ⟨l, ls, rfl, List.all_eq_true.mp hall l List.mem_cons_self⟩

/-- A missing place has a missing leaf. -/
private theorem not_present_of_isMissing {c : Child} (h : c.isMissing = true) :
    ¬ Present c.flatten := by
  obtain ⟨l, ls, hc, hl⟩ := head_of_isMissing h
  intro hpresent
  rw [hc] at hpresent
  rw [hpresent l List.mem_cons_self] at hl
  cases hl

theorem missing_of_token {l : Leaf} : (Child.token l).isMissing = l.missing := by
  rw [isMissing, leaves_eq, flatten, List.all_cons, List.all_nil, Bool.and_true]
  rfl

/-- Where the walk begins is forgotten at the first leaf that is there. -/
private theorem missingOf_start (a b : Nat) {stack : List Child}
    (h : ∀ l ∈ (leavesOf stack).head?, l.missing = false) : missingOf a stack = missingOf b stack := by
  fun_induction missingOf a stack with
  | case1 => rw [missingOf]
  | case2 a c rest hc code message _ _ =>
    obtain ⟨l, ls, hl, hmissing⟩ := head_of_isMissing hc
    rw [leavesOf_eq, List.flatMap_cons, hl] at h
    rw [h l rfl] at hmissing
    cases hmissing
  | case3 a rest l hl ih => rw [missingOf, if_neg hl]
  | case4 a rest c hc hmissing ih =>
    rw [missingOf, if_neg hmissing]
    · apply ih
      rw [leavesOf_eq, List.flatMap_append, ← flatten_eq c hc, ← List.flatMap_cons, ← leavesOf_eq]
      exact h
    · exact hc

/-- The first leaf is there, and then every message comes behind it, or it is missing. In both cases the
walk may as well begin at the beginning of the source. -/
theorem missing_eq (e : Element) : missing e = missingOf 0 [.element e] := by
  cases hhead : e.leaves.head? with
  | none => rw [missing, start, hhead, Option.filter_none, Option.elim_none]
  | some l =>
    cases hl : l.missing with
    | true => rw [missing, start, hhead, Option.filter_some, hl, Bool.not_true,
        if_neg Bool.false_ne_true, Option.elim_none]
    | false =>
      apply missingOf_start
      intro l' hl'
      rw [show leavesOf [.element e] = e.leaves from rfl, hhead] at hl'
      cases hl'
      exact hl

theorem missingOf_eq_nil_iff (lastEnd : Nat) (stack : List Child) :
    missingOf lastEnd stack = [] ↔ Present (leavesOf stack) := by
  fun_induction missingOf lastEnd stack with
  | case1 =>
    rw [leavesOf_eq, List.flatMap_nil]
    exact iff_of_true rfl present_nil
  | case2 lastEnd c rest hc code message _ _ =>
    rw [leavesOf_eq, List.flatMap_cons, present_append]
    exact iff_of_false (List.cons_ne_nil _ _) fun h => not_present_of_isMissing hc h.1
  | case3 lastEnd rest l hl ih =>
    have hpresent : l.missing = false := by
      simpa [isMissing, leaves_eq, flatten] using hl
    rw [ih, leavesOf_eq, leavesOf_eq, List.flatMap_cons, present_append, flatten, present_singleton]
    exact ⟨fun h => ⟨hpresent, h⟩, fun h => h.2⟩
  | case4 lastEnd rest c hc _ ih =>
    rw [ih, leavesOf_eq, leavesOf_eq, List.flatMap_append, List.flatMap_cons, ← flatten_eq c hc]

/-- Every placeholder shows up as a message, and nothing else does. -/
theorem missing_eq_nil_iff (e : Element) : missing e = [] ↔ Present e.flatten := by
  rw [missing, missingOf_eq_nil_iff, leavesOf_eq, List.flatMap_singleton, Child.flatten]

end Diagnostic
end CommandGrammar
