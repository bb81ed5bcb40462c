/-! Sets of code points, given as closed intervals in ascending order. -/
namespace CommandGrammar.Text

/-- Pairs of the least and the greatest member of an interval. -/
abbrev CodeRanges := List (Nat × Nat)

namespace CodeRanges

/-- Looks a code point up, giving up at the first interval that starts after it. -/
def contains : CodeRanges → Nat → Bool
  | [], _ => false
  | (least, greatest) :: rest, n => least ≤ n && (n ≤ greatest || contains rest n)

/-- Every interval ends before the next one starts, and none starts before `start`. -/
def ascendingFrom : Nat → CodeRanges → Bool
  | _, [] => true
  | start, (least, greatest) :: rest =>
    start ≤ least && (least ≤ greatest && ascendingFrom (greatest + 1) rest)

private theorem le_of_ascendingFrom {start : Nat} {rs : CodeRanges} (h : ascendingFrom start rs) :
    ∀ r ∈ rs, start ≤ r.1 := by
  induction rs generalizing start with
  | nil => simp
  | cons r rest ih =>
    simp only [ascendingFrom, Bool.and_eq_true, decide_eq_true_eq] at h
    intro s hs
    rcases List.mem_cons.mp hs with rfl | hs
    · exact h.1
    · have := ih h.2.2 s hs
      omega

/-- In an ascending table the look-up finds exactly the members of its intervals. -/
theorem contains_iff {start n : Nat} {rs : CodeRanges} (h : ascendingFrom start rs) :
    contains rs n ↔ ∃ r ∈ rs, r.1 ≤ n ∧ n ≤ r.2 := by
  induction rs generalizing start with
  | nil => simp [contains]
  | cons r rest ih =>
    simp only [ascendingFrom, Bool.and_eq_true, decide_eq_true_eq] at h
    simp only [contains, Bool.and_eq_true, Bool.or_eq_true, decide_eq_true_eq, ih h.2.2,
      List.mem_cons, or_and_right, exists_or, exists_eq_left, and_or_left]
    refine or_congr_right ⟨And.right, fun hr => ⟨?_, hr⟩⟩
    obtain ⟨s, hs, hle, _⟩ := hr
    have := le_of_ascendingFrom h.2.2 s hs
    omega

end CodeRanges
end CommandGrammar.Text
