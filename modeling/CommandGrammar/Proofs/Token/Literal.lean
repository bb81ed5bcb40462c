import CommandGrammar.Proofs.Pattern.Alphabet
import CommandGrammar.Token.Lexicon
import Mathlib.Data.List.Pairwise

/-! Literals with delimiters: how each of them opens, and how its body goes on behind that, unit by
unit. -/
namespace CommandGrammar.Token.Lexicon
open Pattern

/-- How the literals with delimiters open: with a quote that may have an `h` before it, with `@` and a
quote, or with `guid(`. -/
def openings : List (Text × Delimited) :=
  [(['"'], escapedLiteral '"'), (['h', '"'], escapedLiteral '"'), (['H', '"'], escapedLiteral '"'),
   (['\''], escapedLiteral '\''), (['h', '\''], escapedLiteral '\''),
   (['H', '\''], escapedLiteral '\''), (['@', '"'], verbatimLiteral '"'),
   (['@', '\''], verbatimLiteral '\''), ("guid(".toList, wrappedGuid)]

/-- What the body of an escaped literal is a repetition of: a plain character, or a backslash with the
character that it escapes. -/
def escapedUnit (quote : Char) : Pattern :=
  .alt (.one fun c => c != quote && c != '\\' && c != '\n') (.seq (char '\\') (.one (· != '\n')))

/-- What the body of a verbatim literal is a repetition of. -/
def verbatimUnit (quote : Char) : Pattern := .alt (.one (· != quote)) (exactly [quote, quote])

theorem matches_escapedUnit_iff {quote : Char} {t : Text} :
    (escapedUnit quote).Matches t ↔
      (∃ c, t = [c] ∧ c ≠ quote ∧ c ≠ '\\' ∧ c ≠ '\n') ∨ ∃ c, t = ['\\', c] ∧ c ≠ '\n' := by
  have hplain : (Pattern.one fun c => c != quote && c != '\\' && c != '\n').Matches t ↔
      ∃ c, t = [c] ∧ c ≠ quote ∧ c ≠ '\\' ∧ c ≠ '\n' := by
    simp only [matches_one_iff, Bool.and_eq_true, bne_iff_ne, and_assoc]
  have hescape : (Pattern.seq (char '\\') (.one (· != '\n'))).Matches t ↔
      ∃ c, t = ['\\', c] ∧ c ≠ '\n' := by
    rw [matches_seq_iff]
    constructor
    · rintro ⟨u, v, rfl, hu, hv⟩
      obtain ⟨c, rfl, hc⟩ := matches_one_iff.mp hv
      rw [matches_char_iff.mp hu]
      exact ⟨c, rfl, bne_iff_ne.mp hc⟩
    · rintro ⟨c, rfl, hc⟩
      exact ⟨['\\'], [c], rfl, matches_char_iff.mpr rfl, .one (bne_iff_ne.mpr hc)⟩
  rw [escapedUnit, matches_alt_iff, hplain, hescape]

theorem matches_verbatimUnit_iff {quote : Char} {t : Text} :
    (verbatimUnit quote).Matches t ↔ (∃ c, t = [c] ∧ c ≠ quote) ∨ t = [quote, quote] := by
  simp only [verbatimUnit, matches_alt_iff, matches_one_iff, matches_exactly_iff, bne_iff_ne]

private theorem escapedUnit_isCode (quote : Char) : (escapedUnit quote).IsCode := by
  constructor
  · rw [matches_escapedUnit_iff]
    rintro (⟨c, h, -⟩ | ⟨c, h, -⟩)
    · cases h
    · cases h
  · intro u v hu huv
    rw [matches_escapedUnit_iff] at hu huv
    rcases hu with ⟨c, rfl, -, hc, -⟩ | ⟨c, rfl, -⟩
    · rcases huv with ⟨d, h, -⟩ | ⟨d, h, -⟩
      · exact (List.cons.inj h).2
      · exact absurd (List.cons.inj h).1 hc
    · rcases huv with ⟨d, h, -⟩ | ⟨d, h, -⟩
      · cases h
      · exact (List.cons.inj (List.cons.inj h).2).2

private theorem verbatimUnit_isCode (quote : Char) : (verbatimUnit quote).IsCode := by
  constructor
  · rw [matches_verbatimUnit_iff]
    rintro (⟨c, h, -⟩ | h)
    · cases h
    · cases h
  · intro u v hu huv
    rw [matches_verbatimUnit_iff] at hu huv
    rcases hu with ⟨c, rfl, hc⟩ | rfl
    · rcases huv with ⟨d, h, -⟩ | h
      · exact (List.cons.inj h).2
      · exact absurd (List.cons.inj h).1 hc
    · rcases huv with ⟨d, h, -⟩ | h
      · cases h
      · exact (List.cons.inj (List.cons.inj h).2).2

/-- An escaped literal is read as an opening and a repetition of units. -/
theorem matches_escapedBody_iff {quote : Char} {t : Text} :
    (escapedLiteral quote).body.Matches t ↔
      ∃ mark ∈ [[], ['h'], ['H']], ∃ run, t = mark ++ quote :: run ∧
        (Pattern.star (escapedUnit quote)).Matches run := by
  have hmark {u : Text} : (Pattern.optional (.one fun c => c == 'h' || c == 'H')).Matches u ↔
      u ∈ [[], ['h'], ['H']] := by
    rw [matches_optional_iff, matches_one_iff]
    simp only [Bool.or_eq_true, beq_iff_eq, List.mem_cons, List.not_mem_nil, or_false]
    constructor
    · rintro (⟨c, rfl, rfl | rfl⟩ | rfl)
      · exact .inr (.inl rfl)
      · exact .inr (.inr rfl)
      · exact .inl rfl
    · rintro (rfl | rfl | rfl)
      · exact .inr rfl
      · exact .inl ⟨'h', rfl, .inl rfl⟩
      · exact .inl ⟨'H', rfl, .inr rfl⟩
  have hbody : (escapedLiteral quote).body = inOrder
      [optional (.one fun c => c == 'h' || c == 'H'), char quote, .star (escapedUnit quote)] := rfl
  rw [hbody, matches_inOrder_cons]
  constructor
  · rintro ⟨u, v, rfl, hu, hv⟩
    obtain ⟨run, rfl, hrun⟩ := matches_inOrder_char.mp hv
    exact ⟨u, hmark.mp hu, run, rfl, matches_inOrder_singleton.mp hrun⟩
  · rintro ⟨u, hu, run, rfl, hrun⟩
    exact ⟨u, _, rfl, hmark.mpr hu,
      matches_inOrder_char.mpr ⟨run, rfl, matches_inOrder_singleton.mpr hrun⟩⟩

theorem matches_verbatimBody_iff {quote : Char} {t : Text} :
    (verbatimLiteral quote).body.Matches t ↔
      ∃ run, t = '@' :: quote :: run ∧ (Pattern.star (verbatimUnit quote)).Matches run := by
  have hbody : (verbatimLiteral quote).body =
      inOrder [char '@', char quote, .star (verbatimUnit quote)] := rfl
  rw [hbody, matches_inOrder_char]
  constructor
  · rintro ⟨v, rfl, hv⟩
    obtain ⟨run, rfl, hrun⟩ := matches_inOrder_char.mp hv
    exact ⟨run, rfl, matches_inOrder_singleton.mp hrun⟩
  · rintro ⟨run, rfl, hrun⟩
    exact ⟨_, rfl, matches_inOrder_char.mpr ⟨run, rfl, matches_inOrder_singleton.mpr hrun⟩⟩

private theorem guid_opening_of_matches {t : Text} (h : wrappedGuid.body.Matches t) :
    "guid(".toList <+: t := by
  obtain ⟨u, v, rfl, hu, -⟩ := matches_inOrder_cons.mp h
  rw [matches_exactly_iff.mp hu]
  exact List.prefix_append _ _

/-- Each opening is one of a literal with delimiters and begins its body. -/
theorem matches_opening {o : Text} {d : Delimited} (h : (o, d) ∈ openings) :
    d ∈ delimited ∧ d.body.Matches o := by
  have hall : ∀ x ∈ openings, x.2.body.accepts x.1 = true := by decide +kernel
  refine ⟨?_, (accepts_iff _ _).mp (hall _ h)⟩
  simp only [openings, List.mem_cons, List.not_mem_nil, or_false, Prod.mk.injEq] at h
  simp only [delimited, List.mem_cons, List.not_mem_nil, or_false]
  rcases h with h | h | h | h | h | h | h | h | h <;> simp only [h.2, true_or, or_true]

theorem opening_ne_nil : ∀ x ∈ openings, x.1 ≠ [] := by decide

/-- Every body begins with an opening. -/
theorem exists_opening {d : Delimited} (h : d ∈ delimited) {t : Text} (ht : d.body.Matches t) :
    ∃ o, (o, d) ∈ openings ∧ o <+: t := by
  have hescaped (quote : Char) (hopen : ∀ mark ∈ [[], ['h'], ['H']],
      (mark ++ [quote], escapedLiteral quote) ∈ openings)
      (ht : (escapedLiteral quote).body.Matches t) :
      ∃ o, (o, escapedLiteral quote) ∈ openings ∧ o <+: t := by
    obtain ⟨mark, hmark, run, rfl, -⟩ := matches_escapedBody_iff.mp ht
    exact ⟨mark ++ [quote], hopen mark hmark, run, by simp⟩
  have hverbatim (quote : Char) (hopen : (['@', quote], verbatimLiteral quote) ∈ openings)
      (ht : (verbatimLiteral quote).body.Matches t) :
      ∃ o, (o, verbatimLiteral quote) ∈ openings ∧ o <+: t := by
    obtain ⟨run, rfl, -⟩ := matches_verbatimBody_iff.mp ht
    exact ⟨['@', quote], hopen, run, rfl⟩
  simp only [delimited, List.mem_cons, List.not_mem_nil, or_false] at h
  rcases h with rfl | rfl | rfl | rfl | rfl
  · exact hescaped _ (by simp [openings]) ht
  · exact hescaped _ (by simp [openings]) ht
  · exact hverbatim _ (by simp [openings]) ht
  · exact hverbatim _ (by simp [openings]) ht
  · exact ⟨_, by simp [openings], guid_opening_of_matches ht⟩

/-- A text opens at most one literal. -/
theorem opening_unique {x y : Text × Delimited} {s : Text} (hx : x ∈ openings) (hy : y ∈ openings)
    (hxs : x.1 <+: s) (hys : y.1 <+: s) : x = y := by
  let Apart (x y : Text × Delimited) : Prop := ¬ x.1 <+: y.1 ∧ ¬ y.1 <+: x.1
  have hsymm : Std.Symm Apart := ⟨fun _ _ h => h.symm⟩
  have hpair : openings.Pairwise Apart := by decide
  by_contra hne
  obtain ⟨hxy, hyx⟩ := hpair.forall hx hy hne
  exact (List.prefix_or_prefix_of_prefix hxs hys).elim hxy hyx

/-- What goes on with an escaped body goes on with its units. -/
private theorem star_of_escapedBody {quote : Char} (hh : quote ≠ 'h') (hH : quote ≠ 'H')
    {b w : Text} (hb : (escapedLiteral quote).body.Matches b)
    (hbw : (escapedLiteral quote).body.Matches (b ++ w)) :
    (Pattern.star (escapedUnit quote)).Matches w := by
  obtain ⟨mark, hmark, run, rfl, hrun⟩ := matches_escapedBody_iff.mp hb
  obtain ⟨mark', hmark', run', hsame, hrun'⟩ := matches_escapedBody_iff.mp hbw
  -- the mark has no quote in it, so the first quote tells where the run begins
  have hbehind {m r : Text} (hm : m ∈ [[], ['h'], ['H']]) :
      (m ++ quote :: r).dropWhile (· != quote) = quote :: r := by
    have hfree : ∀ c ∈ m, (c != quote) = true := by
      simp only [List.mem_cons, List.not_mem_nil, or_false] at hm
      rcases hm with rfl | rfl | rfl
      · exact fun c hc => absurd hc List.not_mem_nil
      · simpa using hh.symm
      · simpa using hH.symm
    rw [List.dropWhile_append_of_pos hfree, List.dropWhile_cons_of_neg (by simp)]
  have hsplit : run ++ w = run' := by
    have hquotes : quote :: (run ++ w) = quote :: run' := by
      rw [List.append_assoc, List.cons_append] at hsame
      rw [← hbehind hmark, hsame, hbehind hmark']
    exact (List.cons.inj hquotes).2
  exact (escapedUnit_isCode quote).star_cancel hrun (hsplit ▸ hrun')

private theorem star_of_verbatimBody {quote : Char} {b w : Text}
    (hb : (verbatimLiteral quote).body.Matches b)
    (hbw : (verbatimLiteral quote).body.Matches (b ++ w)) :
    (Pattern.star (verbatimUnit quote)).Matches w := by
  obtain ⟨run, rfl, hrun⟩ := matches_verbatimBody_iff.mp hb
  obtain ⟨run', hsame, hrun'⟩ := matches_verbatimBody_iff.mp hbw
  have hsplit : run ++ w = run' := (List.cons.inj (List.cons.inj hsame).2).2
  exact (verbatimUnit_isCode quote).star_cancel hrun (hsplit ▸ hrun')

/-- A verbatim body goes on with any character but its quote. -/
theorem verbatimBody_append {quote : Char} {b : Text} (hb : (verbatimLiteral quote).body.Matches b)
    {c : Char} (hc : c ≠ quote) : (verbatimLiteral quote).body.Matches (b ++ [c]) := by
  obtain ⟨run, rfl, hrun⟩ := matches_verbatimBody_iff.mp hb
  have hunit : (verbatimUnit quote).Matches [c] := matches_verbatimUnit_iff.mpr (.inl ⟨c, rfl, hc⟩)
  exact matches_verbatimBody_iff.mpr ⟨run ++ [c], rfl, hrun.star_append hunit.star_singleton⟩

/-- The closing character ends a body, unless it stands there twice. -/
theorem not_matches_behind_closing {o : Text} {d : Delimited} (opens : (o, d) ∈ openings) {b w : Text}
    (hb : d.body.Matches b) (hw : w.head? ≠ some d.closing) :
    ¬ d.body.Matches (b ++ d.closing :: w) := by
  intro hbw
  have hescaped (quote : Char) (hquote : quote ≠ 'h' ∧ quote ≠ 'H' ∧ quote ≠ '\\')
      (hb : (escapedLiteral quote).body.Matches b)
      (hbw : (escapedLiteral quote).body.Matches (b ++ quote :: w)) : False := by
    obtain ⟨u, v, -, hu, -⟩ := matches_star_cons (star_of_escapedBody hquote.1 hquote.2.1 hb hbw)
    rcases matches_escapedUnit_iff.mp hu with ⟨c, hc, hne, -⟩ | ⟨c, hc, -⟩
    · exact hne (List.cons.inj hc).1.symm
    · exact hquote.2.2 (List.cons.inj hc).1
  have hverbatim (quote : Char) (hw : w.head? ≠ some quote)
      (hb : (verbatimLiteral quote).body.Matches b)
      (hbw : (verbatimLiteral quote).body.Matches (b ++ quote :: w)) : False := by
    obtain ⟨u, v, rfl, hu, -⟩ := matches_star_cons (star_of_verbatimBody hb hbw)
    rcases matches_verbatimUnit_iff.mp hu with ⟨c, hc, hne⟩ | hc
    · exact hne (List.cons.inj hc).1.symm
    · rw [(List.cons.inj hc).2] at hw
      exact hw rfl
  obtain ⟨mem, -⟩ := matches_opening opens
  simp only [delimited, List.mem_cons, List.not_mem_nil, or_false] at mem
  rcases mem with rfl | rfl | rfl | rfl | rfl
  · exact hescaped _ (by decide) hb hbw
  · exact hescaped _ (by decide) hb hbw
  · exact hverbatim _ hw hb hbw
  · exact hverbatim _ hw hb hbw
  · exact not_mem_of_mentions (by decide) hbw (List.mem_append_right b List.mem_cons_self)

end CommandGrammar.Token.Lexicon
