import CommandGrammar.Proofs.Source.Parse

/-! Which placeholders a run reports to have supplied, and where. Those of attempts that were given up are
reported as well, so a log may tell of more placeholders than there are in the result. -/
namespace CommandGrammar

/-- Where a placeholder was supplied, if that is what the event tells of. -/
def Event.supplied? : Event → Option Nat
  | .supplied _ position => some position
  | _ => none

/-- The positions of the placeholders that the log tells of, in its order. -/
def Outcome.supplies {α : Type} (o : Outcome α) : List Nat := o.log.filterMap Event.supplied?

namespace Outcome
variable {α β : Type}

private theorem supplies_map (f : α → β) (o : Outcome α) : (o.map f).supplies = o.supplies := rfl

private theorem supplies_andThen (o : Outcome α) (next : α → Nat → Outcome β) :
    (o.andThen next).supplies =
      o.supplies ++ (o.result.elim [] fun x => (next x.1 x.2).supplies) := by
  rw [andThen]
  split
  · next hr => rw [hr, Option.elim_none, List.append_nil, supplies, supplies]
  · next a n hr => rw [hr, Option.elim_some, supplies, List.filterMap_append]; rfl

private theorem supplies_orElse (o : Outcome α) (other : Unit → Outcome α) :
    (o.orElse other).supplies =
      o.supplies ++ if o.result.isSome then [] else (other ()).supplies := by
  rw [orElse]
  split
  · next r hr => rw [hr, Option.isSome_some, if_pos rfl, List.append_nil, supplies, supplies]
  · next hr => rw [hr, Option.isSome_none, if_neg Bool.false_ne_true, supplies,
      List.filterMap_append]; rfl

/-- What is said of a labelled grammar is not about placeholders. -/
private theorem supplies_report (label? : Option String) (position : Nat) (o : Outcome α) :
    (o.report label? position).supplies = o.supplies := by
  unfold report
  split
  · rfl
  · rw [supplies, List.filterMap_append]
    exact List.append_nil _
  · rw [supplies, List.filterMap_append]
    exact List.append_nil _

end Outcome

namespace Source
variable {α β : Type} {s : Source} {p : Nat}

/-- Where the grammar supplies placeholders when it is run at a position. -/
def supplies (s : Source) (g : Grammar α) (p : Nat) : List Nat := (g.run (s.window p)).supplies

private theorem supplies_supply (label : String) (a : α) : s.supplies (.supply label a) p = [p] :=
  rfl

private theorem supplies_map (f : α → β) (g : Grammar α) :
    s.supplies (g.map f) p = s.supplies g p := rfl

theorem supplies_seq (g : Grammar α) (h : Grammar β) :
    s.supplies (g.seq h) p =
      s.supplies g p ++ (s.parse g p).elim [] fun x => s.supplies h x.2 := by
  rw [supplies, Grammar.run, Outcome.supplies_andThen, supplies, parse]
  cases hr : (g.run (s.window p)).result with
  | none => rfl
  | some x =>
    rw [Option.elim_some, Option.map_some, Option.elim_some, Outcome.supplies_map,
      window_advance s p x.2 (Grammar.run_within g _ _ _ hr), supplies]

theorem supplies_orElse (g h : Grammar α) :
    s.supplies (g.orElse h) p =
      s.supplies g p ++ if (s.parse g p).isSome then [] else s.supplies h p := by
  rw [supplies, Grammar.run, Outcome.supplies_orElse, parse, Option.isSome_map, supplies, supplies]

/-- Whatever the attempt supplied that ended the repetition is reported too. -/
theorem supplies_many (g : Grammar α) :
    s.supplies g.many p =
      s.supplies g p ++ (s.parse g p).elim [] fun x =>
        if p < x.2 then s.supplies g.many x.2 else [] := by
  simp only [supplies, parse, Grammar.run]
  rw [Outcome.repeated]
  cases hr : (g.run (s.window p)).result with
  | none => exact (List.append_nil _).symm
  | some x =>
    obtain ⟨a, n⟩ := x
    have hn := Grammar.run_within g _ _ _ hr
    simp only [Option.map_some, Option.elim_some]
    by_cases h0 : 0 < n
    · rw [if_pos ⟨h0, hn⟩, if_pos (by omega), window_advance s p n hn, Outcome.supplies,
        List.filterMap_append]
      rfl
    · rw [if_neg fun h => h0 h.1, if_neg (by omega), List.append_nil]
      rfl

private theorem supplies_annotate (note : Note) (g : Grammar α) :
    s.supplies (.annotate note g) p = s.supplies g p := by
  rw [supplies, Grammar.run, Outcome.supplies_report, supplies]

theorem supplies_withNote (note : Note) (g : Grammar α) :
    s.supplies (g.withNote note) p = s.supplies g p := by
  unfold Grammar.withNote
  split
  · rw [supplies_annotate, supplies_annotate]
  · rw [supplies_annotate]

theorem supplies_optional (g : Grammar α) : s.supplies g.optional p = s.supplies g p := by
  rw [Grammar.optional, supplies_orElse, supplies_map]
  split
  · exact List.append_nil _
  · exact List.append_nil _

/-- A placeholder is reported where the grammar fails, behind what it supplied itself. -/
theorem supplies_required (g : Grammar α) (placeholder : α) :
    s.supplies (g.required placeholder) p =
      s.supplies g p ++ if (s.parse g p).isSome then [] else [p] := by
  rw [Grammar.required, supplies_annotate, supplies_orElse, supplies_supply]

end Source

namespace Grammar
variable {α β : Type} {g h : Grammar α}

/-- No placeholder is ever supplied. -/
def Silent : {α : Type} → Grammar α → Prop
  | _, .satisfy _ => True
  | _, .fail => True
  | _, .pure _ => True
  | _, .supply _ _ => False
  | _, .map _ g => g.Silent
  | _, .seq g h => g.Silent ∧ h.Silent
  | _, .orElse g h => g.Silent ∧ h.Silent
  | _, .many g => g.Silent
  | _, .lookahead g => g.Silent
  | _, .capture _ g => g.Silent
  | _, .annotate _ g => g.Silent

private theorem Silent.supplies_run (hg : g.Silent) (w : Window) : (g.run w).supplies = [] := by
  induction g generalizing w with
  | satisfy accepts =>
    rw [run]
    split
    · rfl
    · split
      · rfl
      · rfl
  | fail => rfl
  | pure a => rfl
  | supply label a => exact hg.elim
  | map f g ih => exact ih hg w
  | seq g h ihg ihh =>
    rw [run, Outcome.supplies_andThen, ihg hg.1, List.nil_append]
    cases (g.run w).result with
    | none => rfl
    | some x => exact ihh hg.2 _
  | orElse g h ihg ihh =>
    rw [run, Outcome.supplies_orElse, ihg hg.1, ihh hg.2, ite_self, List.nil_append]
  | many g ih =>
    rw [run]
    have hstep (v : Window) : (g.run v).log.filterMap Event.supplied? = [] := ih hg v
    fun_induction Outcome.repeated (fun v => g.run v) w with
    | case1 w o hr => exact hstep w
    | case2 w o a n hr hn o' ih' =>
      rw [Outcome.supplies, List.filterMap_append, hstep w, List.nil_append]
      exact ih'
    | case3 w o a n hr hn => exact hstep w
  | lookahead g ih => exact ih hg w
  | capture f g ih => exact ih hg w
  | annotate note g ih => rw [run, Outcome.supplies_report, ih hg]

theorem Silent.supplies (hg : g.Silent) (s : Source) (p : Nat) : s.supplies g p = [] :=
  hg.supplies_run _

@[simp] theorem silent_satisfy (accepts : Token → Bool) : (satisfy accepts).Silent := trivial

@[simp] theorem silent_kind (k : Kind) : (kind k).Silent := trivial

@[simp] theorem silent_text (t : Text) : (text t).Silent := trivial

@[simp] theorem silent_map (f : α → β) : (g.map f).Silent ↔ g.Silent := Iff.rfl

@[simp] theorem silent_seq {k : Grammar β} : (g.seq k).Silent ↔ g.Silent ∧ k.Silent := Iff.rfl

@[simp] theorem silent_many : g.many.Silent ↔ g.Silent := Iff.rfl

@[simp] theorem silent_capture (f : Span → β) : (capture f g).Silent ↔ g.Silent := Iff.rfl

@[simp] theorem silent_guarded {k : Grammar β} : (guarded g k).Silent ↔ g.Silent ∧ k.Silent :=
  Iff.rfl

@[simp] theorem silent_first {gs : List (Grammar α)} :
    (first gs).Silent ↔ ∀ g ∈ gs, g.Silent := by
  induction gs with
  | nil => exact iff_of_true trivial nofun
  | cons g gs ih =>
    rw [List.forall_mem_cons, ← ih]
    exact Iff.rfl

@[simp] theorem silent_optional : g.optional.Silent ↔ g.Silent := and_iff_left trivial

@[simp] theorem silent_withNote (note : Note) : (g.withNote note).Silent ↔ g.Silent := by
  unfold withNote
  split
  · exact Iff.rfl
  · exact Iff.rfl

@[simp] theorem silent_withLabel (label : String) : (g.withLabel label).Silent ↔ g.Silent :=
  silent_withNote _

end Grammar
end CommandGrammar
