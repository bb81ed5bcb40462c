import CommandGrammar.Grammar.Run

/-! No grammar consumes more than its window holds, and the tokens of a window are those that the
source has at its positions. -/
namespace CommandGrammar

namespace Outcome
variable {α β : Type}

/-- What was consumed fits into a window. -/
def Within (size : Nat) (o : Outcome α) : Prop := ∀ a n, o.result = some (a, n) → n ≤ size

private theorem Within.map {size : Nat} {o : Outcome α} (h : o.Within size) (f : α → β) :
    (o.map f).Within size := by
  intro b n hb
  obtain ⟨⟨a, m⟩, ha, he⟩ := Option.map_eq_some_iff.mp hb
  cases he
  exact h a n ha

private theorem Within.andThen {w : Window} {o : Outcome α} (h : o.Within w.tokens.length)
    {next : α → Nat → Outcome β} (hn : ∀ a n, (next a n).Within (w.advance n).tokens.length) :
    (o.andThen next).Within w.tokens.length := by
  intro b n hb
  unfold Outcome.andThen at hb
  split at hb
  · cases hb
  · next a m ha =>
    obtain ⟨⟨b', k⟩, hk, he⟩ := Option.map_eq_some_iff.mp hb
    cases he
    have h1 := h a m ha
    have h2 := hn a m b k hk
    rw [Window.advance_tokens, List.length_drop] at h2
    omega

private theorem Within.orElse {size : Nat} {o : Outcome α} (h : o.Within size)
    {other : Unit → Outcome α} (ho : (other ()).Within size) : (o.orElse other).Within size := by
  intro a n ha
  unfold Outcome.orElse at ha
  split at ha
  · next r hr => exact h a n (hr.trans ha)
  · exact ho a n ha

theorem report_result (label? : Option String) (position : Nat) (o : Outcome α) :
    (o.report label? position).result = o.result := by
  unfold report
  split
  · rfl
  · rfl
  · rfl

private theorem repeated_within (step : Window → Outcome α) (w : Window) :
    (repeated step w).Within w.tokens.length := by
  fun_induction repeated step w with
  | case1 w o h =>
    intro a n ha
    cases ha
    exact Nat.zero_le _
  | case2 w o a n h hn o' ih =>
    intro as m hm
    obtain ⟨⟨as', k⟩, hk, he⟩ := Option.map_eq_some_iff.mp hm
    cases he
    have := ih _ _ hk
    rw [Window.advance_tokens, List.length_drop] at this
    omega
  | case3 w o a n h hn =>
    intro as m hm
    cases hm
    exact Nat.zero_le _

end Outcome

namespace Grammar

/-- A match stays inside its window, so it never steps over an end marker. -/
theorem run_within {α : Type} (g : Grammar α) (w : Window) : (g.run w).Within w.tokens.length := by
  induction g generalizing w with
  | satisfy accepts =>
    intro a n h
    unfold run at h
    split at h
    · cases h
    · next t ts ht =>
      split at h
      · cases h
        rw [ht, List.length_cons]
        omega
      · cases h
  | fail => exact nofun
  | pure value =>
    intro a n h
    cases h
    exact Nat.zero_le _
  | supply label value =>
    intro a n h
    cases h
    exact Nat.zero_le _
  | map f g ih => exact (ih w).map f
  | seq g h ihg ihh => exact (ihg w).andThen fun a n => (ihh (w.advance n)).map _
  | orElse g h ihg ihh => exact (ihg w).orElse (ihh w)
  | many g _ => exact Outcome.repeated_within _ w
  | lookahead g _ =>
    intro a n h
    obtain ⟨_, _, he⟩ := Option.map_eq_some_iff.mp h
    cases he
    exact Nat.zero_le _
  | capture f g ih =>
    intro b n h
    obtain ⟨⟨a, m⟩, ha, he⟩ := Option.map_eq_some_iff.mp h
    cases he
    exact ih w a n ha
  | annotate note g ih =>
    intro a n h
    rw [run, Outcome.report_result] at h
    exact ih w a n h

end Grammar

namespace Source

/-- The tokens of a window are those of the source, and none is an end marker. -/
theorem window_tokens (s : Source) (position i : Nat) (h : i < (s.window position).tokens.length) :
    position + i < s.size ∧ s.peek (position + i) = (s.window position).tokens[i] ∧
      (s.peek (position + i)).isEnd = false := by
  have hp : (s.window position).tokens = (s.front.drop position).takeWhile (!·.isEnd) := rfl
  have hl : i < ((s.front.drop position).takeWhile (!·.isEnd)).length := h
  have hpre := List.takeWhile_prefix (!·.isEnd) (l := s.front.drop position)
  have hi : i < (s.front.drop position).length := Nat.lt_of_lt_of_le hl hpre.length_le
  have hget := hpre.getElem hl
  rw [List.length_drop] at hi
  have hsize : position + i < s.front.length := by omega
  have hpeek : s.peek (position + i) = (s.window position).tokens[i] := by
    rw [peek, List.getD_eq_getElem?_getD, List.getElem?_eq_getElem hsize, Option.getD_some]
    simp only [hp, hget, List.getElem_drop]
  refine ⟨hsize, hpeek, ?_⟩
  rw [hpeek]
  have hmem := List.all_eq_true.mp List.all_takeWhile _ (List.getElem_mem hl)
  exact Bool.not_eq_true' _ ▸ hmem

end Source
end CommandGrammar
