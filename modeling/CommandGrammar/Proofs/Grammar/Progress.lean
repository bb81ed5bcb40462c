import CommandGrammar.Proofs.Grammar.Evaluates

/-! Every grammar comes to one result at every position, moves forward only, stops at end markers, and
does not care how its parts are labelled. -/
namespace CommandGrammar

namespace Grammar
variable {α : Type}

/-- The grammar without the labels and hints of its parts. -/
def bare : {α : Type} → Grammar α → Grammar α
  | _, .satisfy accepts => .satisfy accepts
  | _, .fail => .fail
  | _, .pure a => .pure a
  | _, .supply _ a => .pure a
  | _, .map f g => .map f g.bare
  | _, .seq g h => .seq g.bare h.bare
  | _, .orElse g h => .orElse g.bare h.bare
  | _, .many g => .many g.bare
  | _, .lookahead g => .lookahead g.bare
  | _, .capture f g => .capture f g.bare
  | _, .annotate _ g => g.bare

private theorem bare_withNote (note : Note) (g : Grammar α) : (g.withNote note).bare = g.bare := by
  unfold withNote
  split
  · rfl
  · rfl

private theorem bare_withLabel (label : String) (g : Grammar α) :
    (g.withLabel label).bare = g.bare :=
  bare_withNote _ g

private theorem bare_withHint (hint : SymbolSet) (g : Grammar α) :
    (g.withHint hint).bare = g.bare :=
  bare_withNote _ g

end Grammar

namespace Source
variable {α : Type} {s : Source}

/-- Two bodies that do the same everywhere do the same when repeated. -/
private theorem parse_many_congr {g h : Grammar α} (hgh : ∀ p, s.parse g p = s.parse h p)
    (p : Nat) : s.parse g.many p = s.parse h.many p := by
  induction p using repetition_induction (s := s) g with
  | step p rest =>
    rw [parse_many, parse_many, ← hgh p]
    cases hr : s.parse g p with
    | none => rfl
    | some x =>
      obtain ⟨a, m⟩ := x
      by_cases hm : p < m
      · simp only [if_pos hm, rest a m hr hm]
      · simp only [if_neg hm]

private theorem parse_bare (s : Source) (g : Grammar α) (p : Nat) :
    s.parse g.bare p = s.parse g p := by
  induction g generalizing p with
  | satisfy accepts => rfl
  | fail => rfl
  | pure a => rfl
  | supply label a => rfl
  | map f g ih => rw [Grammar.bare, parse_map, parse_map, ih]
  | seq g h ihg ihh => simp only [Grammar.bare, parse_seq, ihg, ihh]
  | orElse g h ihg ihh => rw [Grammar.bare, parse_orElse, parse_orElse, ihg, ihh]
  | many g ih => exact parse_many_congr ih p
  | lookahead g ih => rw [Grammar.bare, parse_lookahead, parse_lookahead, ih]
  | capture f g ih => rw [Grammar.bare, parse_capture, parse_capture, ih]
  | annotate note g ih => rw [Grammar.bare, parse_annotate, ih]

/-- At an end marker and behind the last one nothing is consumed. -/
theorem parse_eq_of_isEnd {g : Grammar α} {p q : Nat} {a : α} (h : s.parse g p = some (a, q))
    (hp : s.isEnd p = true ∨ s.size ≤ p) : q = p := by
  obtain ⟨hle, htokens⟩ := parse_tokens h
  refine Nat.le_antisymm (Nat.le_of_not_lt fun hlt => ?_) hle
  obtain ⟨hsize, hend⟩ := htokens p (Nat.le_refl p) hlt
  rcases hp with hp | hp
  · rw [hend] at hp
    cases hp
  · omega

/-- At every position a grammar comes to exactly one result. A match goes on from where it began, over
tokens of the source that are no end markers, and a grammar that only looks ahead stays where it is.
Grammars that differ in nothing but labels and hints, in whatever part, come to the same result. -/
theorem parse_progress (s : Source) (g : Grammar α) (p : Nat) :
    (∀ r, s.Evaluates g p r ↔ r = s.parse g p) ∧
      (∀ a q, s.parse g p = some (a, q) →
        p ≤ q ∧ (∀ i, p ≤ i → i < q → i < s.size ∧ s.isEnd i = false) ∧
          (s.isEnd p = true ∨ s.size ≤ p → q = p)) ∧
      (∀ a q, s.parse g.lookahead p = some (a, q) → q = p) ∧
      (∀ label hint, (g.withLabel label).bare = g.bare ∧ (g.withHint hint).bare = g.bare) ∧
      ∀ g' : Grammar α, g'.bare = g.bare → s.parse g' p = s.parse g p := by
  refine ⟨fun r => evaluates_iff, ?_, ?_, ?_, ?_⟩
  · intro a q h
    obtain ⟨hle, htokens⟩ := parse_tokens h
    exact ⟨hle, htokens, parse_eq_of_isEnd h⟩
  · intro a q h
    rw [parse_lookahead] at h
    obtain ⟨_, _, he⟩ := Option.map_eq_some_iff.mp h
    cases he
    rfl
  · intro label hint
    exact ⟨Grammar.bare_withLabel label g, Grammar.bare_withHint hint g⟩
  · intro g' hg
    rw [← parse_bare s g', hg, parse_bare]

end Source
end CommandGrammar
