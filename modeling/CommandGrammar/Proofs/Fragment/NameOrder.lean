import CommandGrammar.Proofs.Fragment.BracketRun
import CommandGrammar.Proofs.Source.Lexed

/-! The order in which the spellings of a name are tried. On the tokens of a text only two of them may begin
with the same token, and of these the one that is tried first wins. -/
namespace CommandGrammar

namespace NameForm

/-- A name of this form may begin with a token of the kind. -/
def starts : NameForm → Kind → Bool
  | .identifier, k => k.isIdentifierLike
  | .bracketed, k | .bracketedString, k => k == .openBracket
  | .braced, k => k == .openBrace
  | .quoted, k => k == .stringLiteral

private theorem kind_injective {form form' : NameForm} (h : form.kind = form'.kind) :
    form = form' := by
  revert h
  cases form <;> cases form' <;> decide

/-- No two forms begin with the same kind of token, unless that is an opening bracket. -/
private theorem filter_starts_all (k : Kind) :
    k = .openBracket ∨ all.filter (·.starts k) = [] ∨
      ∃ form ∈ all, all.filter (·.starts k) = [form] := by
  cases k <;> decide

/-- In whatever order the forms come, those that begin with the same token come in the usual order if the
two with brackets do. -/
private theorem filter_starts {forms : List NameForm} (h : forms.Perm all)
    (hpair : [.bracketed, .bracketedString].Sublist forms) (k : Kind) :
    forms.filter (·.starts k) = all.filter (·.starts k) := by
  have hperm := h.filter (·.starts k)
  rcases filter_starts_all k with rfl | hnone | ⟨form, -, hone⟩
  · exact ((hpair.filter (·.starts .openBracket)).eq_of_length hperm.length_eq.symm).symm
  · rw [hnone] at hperm ⊢
    exact hperm.eq_nil
  · rw [hone] at hperm ⊢
    exact hperm.eq_singleton

/-- What comes before the only occurrence of another. -/
private theorem mem_before {form form' : NameForm} {before after : List NameForm}
    (h : [form, form'].Sublist (before ++ form' :: after)) (hnodup : (before ++ form' :: after).Nodup) :
    form ∈ before := by
  induction before with
  | nil =>
    have hagain : form' ∈ after := List.singleton_sublist.mp h.tail
    exact absurd hagain (List.nodup_cons.mp hnodup).1
  | cons first before ih =>
    cases h with
    | cons _ h => exact List.mem_cons_of_mem _ (ih h (List.nodup_cons.mp hnodup).2)
    | cons_cons _ _ => exact List.mem_cons_self

end NameForm

namespace Source
open Fragment
variable {α ι : Type} {s : Source} {p q : Nat} {gs : ι → Grammar α}

/-- Alternatives that fail may be left out. -/
private theorem parse_first_filter {keep : ι → Bool}
    (h : ∀ i, keep i = false → s.parse (gs i) p = none) (is : List ι) :
    s.parse (.first ((is.filter keep).map gs)) p = s.parse (.first (is.map gs)) p := by
  induction is with
  | nil => rfl
  | cons i is ih =>
    rw [List.map_cons, Grammar.first, parse_orElse, ← ih]
    cases hi : keep i with
    | true => rw [List.filter_cons_of_pos hi, List.map_cons, Grammar.first, parse_orElse]
    | false =>
      rw [List.filter_cons_of_neg (Bool.eq_false_iff.mp hi), h i hi, Option.none_or]

/-- The match is that of an alternative before which all fail. -/
private theorem parse_first_eq_some {is : List ι} {x : α × Nat}
    (h : s.parse (.first (is.map gs)) p = some x) :
    ∃ before i after, is = before ++ i :: after ∧ (∀ j ∈ before, s.parse (gs j) p = none) ∧
      s.parse (gs i) p = some x := by
  induction is with
  | nil => cases h
  | cons i is ih =>
    rw [List.map_cons, Grammar.first, parse_orElse] at h
    rcases Option.or_eq_some_iff.mp h with hi | ⟨hnone, hrest⟩
    · exact ⟨[], i, is, rfl, List.forall_mem_nil _, hi⟩
    · obtain ⟨before, j, after, rfl, hbefore, hj⟩ := ih hrest
      exact ⟨i :: before, j, after, rfl, List.forall_mem_cons.mpr ⟨hnone, hbefore⟩, hj⟩

/-- On the tokens of a text the first of them shows which forms a name may have. -/
private theorem Lexed.parse_nameForm {text : Text} (h : Lexed text s) {multiline : Bool}
    {form : NameForm} (hstart : form.starts (s.peek p).kind = false) :
    s.parse (nameForm multiline form) p = none := by
  have hopens {k : Kind} {t : Text} (hk : k.fixedText? = some t)
      (ht : s.isEnd p = false ∧ (s.peek p).text = t) : (s.peek p).kind = k :=
    ((h.peek_solid (h.lt_size ht.1)).spelling k t hk).mpr ht.2
  rw [← Option.not_isSome_iff_eq_none]
  intro hsome
  refine Bool.eq_false_iff.mp hstart ?_
  cases form with
  | identifier =>
    rw [nameForm, identifierName, isSome_parse_map, identifierLike, isSome_parse_satisfy] at hsome
    exact hsome.2
  | bracketed =>
    rw [nameForm, bracketedName, isSome_parse_map] at hsome
    exact beq_iff_eq.mpr (hopens rfl (isSome_parse_text.mp (isSome_of_seq hsome)))
  | braced =>
    rw [nameForm, bracedName, isSome_parse_map] at hsome
    exact beq_iff_eq.mpr (hopens rfl (isSome_parse_text.mp (isSome_of_seq hsome)))
  | quoted =>
    rw [nameForm, isSome_parse_map, Grammar.kind, isSome_parse_satisfy] at hsome
    exact hsome.2
  | bracketedString =>
    rw [nameForm, isSome_parse_map, isSome_parse_bracketedRun] at hsome
    exact beq_iff_eq.mpr (hopens rfl hsome)

/-- The form of a name is that of the alternative that matched. -/
private theorem ensures_nameForm (multiline : Bool) (form : NameForm) :
    s.Ensures (nameForm multiline form) fun _ _ n => n.kind = form.kind := by
  cases form with
  | identifier | bracketed | braced | quoted | bracketedString => exact .map fun _ _ _ _ => rfl

/-- Where the run is tried first no name is a literal in brackets: if it fails there is no bracket. -/
private theorem ensures_nameIn_run {forms : List NameForm} (hnodup : forms.Nodup)
    (hpair : [.bracketedString, .bracketed].Sublist forms) (multiline : Bool) :
    s.Ensures (nameIn forms multiline) fun _ _ n => n.kind ≠ .bracketedName := by
  apply Ensures.withLabel
  intro p q n hn hkind
  obtain ⟨before, form, after, rfl, hbefore, hform⟩ := parse_first_eq_some hn
  obtain rfl : form = .bracketed :=
    NameForm.kind_injective ((ensures_nameForm multiline form hform).symm.trans hkind)
  have hbracket : (s.parse (.text ['[']) p).isSome = true := by
    have hsome := congrArg Option.isSome hform
    rw [nameForm, bracketedName, isSome_parse_map] at hsome
    exact isSome_of_seq hsome
  have hrun : (s.parse (nameForm multiline .bracketedString) p).isSome = true := by
    rw [nameForm, isSome_parse_map, isSome_parse_bracketedRun]
    exact isSome_parse_text.mp hbracket
  rw [hbefore _ (NameForm.mem_before hpair hnodup)] at hrun
  cases hrun

/-- Where the literal in brackets is tried first every order is as good as the usual one. -/
theorem Lexed.parse_nameIn {text : Text} (h : Lexed text s) {forms : List NameForm}
    (hperm : forms.Perm NameForm.all) (hpair : [.bracketed, .bracketedString].Sublist forms)
    (multiline : Bool) (p : Nat) :
    s.parse (nameIn forms multiline) p = s.parse (name multiline) p := by
  have hkeep (form : NameForm) (hstart : form.starts (s.peek p).kind = false) :
      s.parse (nameForm multiline form) p = none := h.parse_nameForm hstart
  rw [name, nameIn, nameIn, parse_withLabel, parse_withLabel, ← parse_first_filter hkeep,
    ← parse_first_filter hkeep NameForm.all, NameForm.filter_starts hperm hpair]

/-- A literal in brackets, which is a run as well. -/
def literalInBrackets : Source := ofText "['x']".toList

private theorem name_literalInBrackets : ∀ multiline,
    (literalInBrackets.parse (name multiline) 0).map (·.1.kind) = some .bracketedName := by
  decide +kernel

/-- The two forms with brackets are the only ones whose order matters. If the literal in brackets is tried
before the run, any order of the forms reads the names of a text as the usual one does. If the run is tried
first no name is a literal in brackets, since every opening bracket begins a run; and that does make a
difference. -/
theorem nameIn_order {forms : List NameForm} (hperm : forms.Perm NameForm.all) (multiline : Bool) :
    ([.bracketed, .bracketedString].Sublist forms → ∀ text p,
      (ofText text).parse (nameIn forms multiline) p = (ofText text).parse (name multiline) p) ∧
    ([.bracketedString, .bracketed].Sublist forms →
      (∀ s : Source, s.Ensures (nameIn forms multiline) fun _ _ n => n.kind ≠ .bracketedName) ∧
      ∃ text p,
        (ofText text).parse (nameIn forms multiline) p ≠ (ofText text).parse (name multiline) p) ∧
    ∀ (s : Source) p, s.isEnd p = false → (s.peek p).text = ['['] →
      (s.parse (bracketedRun multiline) p).isSome = true := by
  refine ⟨fun hpair text p => (lexed_ofText text).parse_nameIn hperm hpair multiline p, fun hpair => ?_,
    fun s p hend htext => isSome_parse_bracketedRun.mpr ⟨hend, htext⟩⟩
  have hnodup : forms.Nodup := hperm.nodup_iff.mpr (by decide)
  refine ⟨fun s => ensures_nameIn_run hnodup hpair multiline, "['x']".toList, 0, fun heq => ?_⟩
  obtain ⟨⟨n, q⟩, hn, hkind⟩ := Option.map_eq_some_iff.mp (name_literalInBrackets multiline)
  exact ensures_nameIn_run hnodup hpair multiline (heq.trans hn) hkind

/-- An order that keeps the literal in brackets before the run reads it as the usual order does, and the
reverse of the usual order reads a run. -/
theorem nameIn_literalInBrackets :
    [NameForm.quoted, .bracketed, .braced, .bracketedString, .identifier].Perm NameForm.all ∧
    literalInBrackets.parse
        (nameIn [.quoted, .bracketed, .braced, .bracketedString, .identifier] false) 0 =
      literalInBrackets.parse (name false) 0 ∧
    NameForm.all.reverse.Perm NameForm.all ∧
    ∃ n, literalInBrackets.parse (nameIn NameForm.all.reverse false) 0 = some (n, 3) ∧
      n.kind ≠ .bracketedName := by
  have hkeeps : [NameForm.quoted, .bracketed, .braced, .bracketedString, .identifier].Perm
      NameForm.all := by decide
  have hreverse : NameForm.all.reverse.Perm NameForm.all := List.reverse_perm _
  obtain ⟨hsame, -, -⟩ := nameIn_order hkeeps false
  obtain ⟨-, hrun, -⟩ := nameIn_order hreverse false
  have h : literalInBrackets.parse (nameIn NameForm.all.reverse false) 0 =
      some (.bracketedString ⟨.stringLiteral, [], "['x']".toList, 0, false, false⟩, 3) := by
    decide +kernel
  exact ⟨hkeeps, hsame (by decide) "['x']".toList 0, hreverse, _, h, (hrun (by decide)).1 _ h⟩

end Source
end CommandGrammar
