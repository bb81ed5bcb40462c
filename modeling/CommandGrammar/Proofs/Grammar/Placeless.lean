import CommandGrammar.Proofs.Source.Window

/-! Grammars that do not look at positions. What such a grammar makes of a window is the same wherever
the window stands; only the log tells where that was. -/
namespace CommandGrammar

/-- Windows that show the same, wherever they stand. -/
structure Window.SameView (w w' : Window) : Prop where
  tokens : w.tokens = w'.tokens
  stop : w.stop = w'.stop

namespace Window.SameView
variable {w w' : Window}

theorem advance (h : w.SameView w') (n : Nat) : (w.advance n).SameView (w'.advance n) := by
  refine ⟨?_, h.stop⟩
  rw [advance_tokens, advance_tokens, h.tokens]

theorem offset (h : w.SameView w') : w.offset = w'.offset := by
  rw [Window.offset, Window.offset, h.tokens, h.stop]

end Window.SameView

/-- A step that comes to the same result on windows that show the same does so when repeated. -/
private theorem Outcome.repeated_result_eq {α : Type} {step : Window → Outcome α}
    (hstep : ∀ w w', w.SameView w' → (step w).result = (step w').result) {w w' : Window}
    (hw : w.SameView w') : (repeated step w).result = (repeated step w').result := by
  induction hsize : w.tokens.length using Nat.strongRecOn generalizing w w' with
  | ind size ih =>
    rw [repeated, repeated]
    simp only [← hstep w w' hw, ← hw.tokens]
    cases hr : (step w).result with
    | none => rfl
    | some x =>
      obtain ⟨a, n⟩ := x
      by_cases hn : 0 < n ∧ n ≤ w.tokens.length
      · have hshorter : (w.advance n).tokens.length < size := by
          rw [Window.advance_tokens, List.length_drop]
          omega
        simp only [if_pos hn, ih _ hshorter (hw.advance n) rfl]
      · simp only [if_neg hn]

namespace Grammar
variable {α β : Type} {g h : Grammar α}

/-- What is made of the tokens that were consumed never depends on their positions. -/
def Placeless : {α : Type} → Grammar α → Prop
  | _, .satisfy _ => True
  | _, .fail => True
  | _, .pure _ => True
  | _, .supply _ _ => True
  | _, .map _ g => g.Placeless
  | _, .seq g h => g.Placeless ∧ h.Placeless
  | _, .orElse g h => g.Placeless ∧ h.Placeless
  | _, .many g => g.Placeless
  | _, .lookahead g => g.Placeless
  | _, .capture f g =>
    (∀ x y : Span, x.tokens = y.tokens → x.offset = y.offset → f x = f y) ∧ g.Placeless
  | _, .annotate _ g => g.Placeless

/-- A placeless grammar comes to the same result on windows that show the same. -/
theorem Placeless.run_result_eq (hg : g.Placeless) {w w' : Window} (hw : w.SameView w') :
    (g.run w).result = (g.run w').result := by
  induction g generalizing w w' with
  | satisfy accepts => simp only [run, hw.tokens]
  | fail => rfl
  | pure a => rfl
  | supply label a => rfl
  | map f g ih => simp only [run, Outcome.map, ih hg hw]
  | seq g h ihg ihh =>
    obtain ⟨hg, hh⟩ := hg
    simp only [run, Outcome.andThen, ← ihg hg hw]
    cases (g.run w).result with
    | none => rfl
    | some x => simp only [Outcome.map, ihh hh (hw.advance x.2)]
  | orElse g h ihg ihh =>
    obtain ⟨hg, hh⟩ := hg
    simp only [run, Outcome.orElse, ← ihg hg hw]
    cases (g.run w).result with
    | none => exact ihh hh hw
    | some x => rfl
  | many g ih => exact Outcome.repeated_result_eq (fun _ _ hv => ih hg hv) hw
  | lookahead g ih => simp only [run, ih hg hw]
  | capture f g ih =>
    obtain ⟨hf, hg⟩ := hg
    simp only [run, ← ih hg hw]
    refine congrArg (Option.map · (g.run w).result) (funext fun x => ?_)
    refine congrArg (·, x.2) (hf _ _ ?_ hw.offset)
    rw [hw.tokens]
  | annotate note g ih => simp only [run, Outcome.report_result, ih hg hw]

@[simp] theorem placeless_satisfy (accepts : Token → Bool) : (satisfy accepts).Placeless := trivial

@[simp] theorem placeless_kind (k : Kind) : (kind k).Placeless := trivial

@[simp] theorem placeless_text (t : Text) : (text t).Placeless := trivial

@[simp] theorem placeless_map (f : α → β) : (g.map f).Placeless ↔ g.Placeless := Iff.rfl

@[simp] theorem placeless_hide {g : Grammar Leaf} : g.hide.Placeless ↔ g.Placeless := Iff.rfl

@[simp] theorem placeless_seq {k : Grammar β} :
    (g.seq k).Placeless ↔ g.Placeless ∧ k.Placeless := Iff.rfl

@[simp] theorem placeless_many : g.many.Placeless ↔ g.Placeless := Iff.rfl

@[simp] theorem placeless_guarded {k : Grammar β} :
    (guarded g k).Placeless ↔ g.Placeless ∧ k.Placeless := Iff.rfl

@[simp] theorem placeless_first {gs : List (Grammar α)} :
    (first gs).Placeless ↔ ∀ g ∈ gs, g.Placeless := by
  induction gs with
  | nil => exact iff_of_true trivial nofun
  | cons g gs ih =>
    rw [List.forall_mem_cons, ← ih]
    exact Iff.rfl

@[simp] theorem placeless_optional : g.optional.Placeless ↔ g.Placeless := and_iff_left trivial

@[simp] theorem placeless_required (placeholder : α) :
    (g.required placeholder).Placeless ↔ g.Placeless :=
  and_iff_left trivial

@[simp] theorem placeless_withNote (note : Note) : (g.withNote note).Placeless ↔ g.Placeless := by
  unfold withNote
  split
  · exact Iff.rfl
  · exact Iff.rfl

@[simp] theorem placeless_withLabel (label : String) :
    (g.withLabel label).Placeless ↔ g.Placeless :=
  placeless_withNote _

@[simp] theorem placeless_withHint (hint : SymbolSet) : (g.withHint hint).Placeless ↔ g.Placeless :=
  placeless_withNote _

end Grammar
end CommandGrammar
