import CommandGrammar.Grammar.Run

/-! Grammars built alike that differ in what they ask of single tokens. Where they ask the same of every
token in sight, they do the same. -/
namespace CommandGrammar

/-- Going on leaves no tokens but those there were. -/
private theorem Window.forall_advance {P : Token → Prop} {w : Window} (hw : ∀ t ∈ w.tokens, P t)
    (n : Nat) : ∀ t ∈ (w.advance n).tokens, P t :=
  fun t ht => hw t (List.mem_of_mem_drop ht)

/-- Steps that do the same on all windows of some tokens do the same when repeated. -/
private theorem Outcome.repeated_congr {α : Type} {P : Token → Prop}
    {step step' : Window → Outcome α} (h : ∀ v : Window, (∀ t ∈ v.tokens, P t) → step v = step' v)
    {w : Window} (hw : ∀ t ∈ w.tokens, P t) : repeated step w = repeated step' w := by
  fun_induction repeated step w with
  | case1 w o hr =>
    rw [repeated, ← h w hw]
    simp only [o] at hr ⊢
    rw [hr]
  | case2 w o a n hr hn o' ih =>
    rw [repeated, ← h w hw]
    simp only [o] at hr ⊢
    rw [hr]
    simp only [if_pos hn, ← ih (Window.forall_advance hw n)]
    rfl
  | case3 w o a n hr hn =>
    rw [repeated, ← h w hw]
    simp only [o] at hr ⊢
    rw [hr]
    simp only [if_neg hn]

namespace Grammar

/-- The one grammar is the other with tests in place of its own, which agree on the tokens that have the
property. -/
inductive Variant (P : Token → Prop) : {α : Type} → Grammar α → Grammar α → Prop
  | refl {α : Type} (g : Grammar α) : Variant P g g
  | satisfy {accepts accepts' : Token → Bool} (h : ∀ t, P t → accepts t = accepts' t) :
      Variant P (.satisfy accepts) (.satisfy accepts')
  | map {α β : Type} {g g' : Grammar α} (hg : Variant P g g') (f : α → β) :
      Variant P (.map f g) (.map f g')
  | seq {α β : Type} {g g' : Grammar α} {h h' : Grammar β} (hg : Variant P g g')
      (hh : Variant P h h') : Variant P (.seq g h) (.seq g' h')
  | orElse {α : Type} {g g' h h' : Grammar α} (hg : Variant P g g') (hh : Variant P h h') :
      Variant P (.orElse g h) (.orElse g' h')
  | many {α : Type} {g g' : Grammar α} (hg : Variant P g g') : Variant P (.many g) (.many g')
  | lookahead {α : Type} {g g' : Grammar α} (hg : Variant P g g') :
      Variant P (.lookahead g) (.lookahead g')
  | capture {α β : Type} {g g' : Grammar α} (hg : Variant P g g') (f : Span → β) :
      Variant P (.capture f g) (.capture f g')
  | annotate {α : Type} {g g' : Grammar α} (hg : Variant P g g') (note : Note) :
      Variant P (.annotate note g) (.annotate note g')

namespace Variant
variable {P : Token → Prop} {α β : Type} {g g' h h' : Grammar α}

/-- On a window whose tokens all have the property a grammar and its variant come to the same outcome. -/
theorem run_eq (hg : Variant P g g') {w : Window} (hw : ∀ t ∈ w.tokens, P t) :
    g.run w = g'.run w := by
  induction hg generalizing w with
  | refl g => rfl
  | satisfy h =>
    unfold run
    split
    · rfl
    · next t ts ht => rw [h t (hw t (ht ▸ List.mem_cons_self))]
  | map hg f ih => rw [run, run, ih hw]
  | seq hg hh ihg ihh =>
    simp only [run, ihg hw, fun n => ihh (Window.forall_advance hw n)]
  | orElse hg hh ihg ihh => simp only [run, ihg hw, ihh hw]
  | many hg ih => exact Outcome.repeated_congr (fun _ hv => ih hv) hw
  | lookahead hg ih => simp only [run, ih hw]
  | capture hg f ih => simp only [run, ih hw]
  | annotate hg note ih => rw [run, run, ih hw]

/-- A variant has the label and the hint of the grammar. -/
private theorem note_eq (hg : Variant P g g') : g.note = g'.note := by
  cases hg with
  | annotate hg note => rfl
  | _ => rfl

theorem withNote (hg : Variant P g g') (note : Note) :
    Variant P (g.withNote note) (g'.withNote note) := by
  cases hg with
  | refl g => exact .refl _
  | annotate hg _ => exact .annotate hg note
  | satisfy h => exact .annotate (.satisfy h) note
  | map hg f => exact .annotate (.map hg f) note
  | seq hg hh => exact .annotate (.seq hg hh) note
  | orElse hg hh => exact .annotate (.orElse hg hh) note
  | many hg => exact .annotate (.many hg) note
  | lookahead hg => exact .annotate (.lookahead hg) note
  | capture hg f => exact .annotate (.capture hg f) note

theorem withLabel (hg : Variant P g g') (label : String) :
    Variant P (g.withLabel label) (g'.withLabel label) := by
  rw [Grammar.withLabel, Grammar.withLabel, hg.note_eq]
  exact hg.withNote _

theorem withHint (hg : Variant P g g') (symbols : SymbolSet) :
    Variant P (g.withHint symbols) (g'.withHint symbols) := by
  rw [Grammar.withHint, Grammar.withHint, hg.note_eq]
  exact hg.withNote _

theorem required (hg : Variant P g g') (placeholder : α) :
    Variant P (g.required placeholder) (g'.required placeholder) := by
  rw [Grammar.required, Grammar.required, Grammar.label?, Grammar.label?, hg.note_eq]
  exact .annotate (.orElse hg (.refl _)) _

/-- The case of two alternatives. -/
theorem either (hg : Variant P g g') (hh : Variant P h h') :
    Variant P (.first [g, h]) (.first [g', h']) :=
  .orElse hg (.orElse hh (.refl _))

theorem first {ι : Type} {gs gs' : ι → Grammar α} (hgs : ∀ i, Variant P (gs i) (gs' i)) (is : List ι) :
    Variant P (.first (is.map gs)) (.first (is.map gs')) := by
  induction is with
  | nil => exact .refl _
  | cons i is ih => exact .orElse (hgs i) ih

theorem guarded {k k' : Grammar β} (hk : Variant P k k') (hg : Variant P g g') :
    Variant P (.guarded k g) (.guarded k' g') :=
  .map (.seq (.lookahead hk) hg) _

end Variant
end Grammar
end CommandGrammar
