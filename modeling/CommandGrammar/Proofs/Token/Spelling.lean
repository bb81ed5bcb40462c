import CommandGrammar.Proofs.Token.Scan

/-! A kind with one spelling is read exactly where a piece is spelt so. -/
namespace CommandGrammar.Piece
open Token.Lexicon

private theorem mem_all (k : Kind) : k ∈ Kind.all := by
  cases k <;> decide

/-- Of a kind with one spelling there is one lexeme, which matches only that. -/
theorem mem_lexemes_iff {l : Lexeme} {x : Text} (hx : l.kind.fixedText? = some x) :
    l ∈ lexemes ↔ l.pattern = .exactly x := by
  have hothers : ∀ l ∈ lexemes, l ∈ fixed ∨ l.kind.fixedText? = none := by
    intro l hl
    have hends : ∀ l ∈ lexemes.take 2 ++ lexemes.drop (2 + fixed.length), l.kind.fixedText? = none := by
      decide +kernel
    have hlist : lexemes = lexemes.take 2 ++ fixed ++ lexemes.drop (2 + fixed.length) := rfl
    rw [hlist, List.mem_append, List.mem_append] at hl
    rcases hl with (hl | hl) | hl
    · exact .inr (hends l (List.mem_append_left _ hl))
    · exact .inl hl
    · exact .inr (hends l (List.mem_append_right _ hl))
  constructor
  · intro hl
    rcases hothers l hl with hl | hl
    · obtain ⟨k, -, hk⟩ := List.mem_filterMap.mp hl
      obtain ⟨y, hy, rfl⟩ := Option.map_eq_some_iff.mp hk
      rw [hy] at hx
      cases hx
      rfl
    · rw [hl] at hx
      cases hx
  · intro hp
    have hl : l = ⟨l.kind, .exactly x⟩ := by rw [← hp]
    have hfixed : l ∈ fixed := by
      refine List.mem_filterMap.mpr ⟨l.kind, mem_all _, ?_⟩
      rw [hx, Option.map_some, ← hl]
    exact List.mem_append_left _ (List.mem_append_right _ hfixed)

/-- Literals with delimiters have no fixed spelling and begin as none does. -/
private theorem delimited_free : ∀ d ∈ delimited, d.kind.fixedText? = none ∧
    ∀ k ∈ Kind.all, ∀ x ∈ k.fixedText?, x.head?.any (d.body.refuses [·]) = true := by
  decide +kernel

/-- The first lexeme to match a fixed spelling is the one of its kind. -/
private theorem find_fixed : ∀ k ∈ Kind.all, ∀ x ∈ k.fixedText?,
    (lexemes.find? fun l => l.pattern.accepts x).map (·.kind) = some k := by
  decide +kernel

private theorem ne_of_fixedText {k k' : Kind} {x : Text} (hx : k'.fixedText? = some x)
    (hk : k.fixedText? = none) : k ≠ k' := by
  rintro rfl
  rw [hk] at hx
  cases hx

/-- Where a fixed spelling begins, no literal with delimiters does. -/
private theorem take_ne_of_body {d : Delimited} (mem : d ∈ delimited) {s x : Text} {k : Kind}
    {m : Nat} (hx : k.fixedText? = some x) (body : d.body.longest s = some m) (n : Nat) :
    s.take n ≠ x := by
  rintro rfl
  have hany := (delimited_free d mem).2 k (mem_all k) _ hx
  obtain ⟨c, hc, hrefuse⟩ := (Option.any_eq_true _ _).mp hany
  obtain ⟨t, rfl⟩ : ∃ t, s = c :: t := by
    obtain ⟨u, hu⟩ := List.head?_eq_some_iff.mp hc
    refine ⟨u ++ s.drop n, ?_⟩
    rw [← List.cons_append, ← hu, List.take_append_drop]
  rw [longest_body_eq_none mem hrefuse] at body
  cases body

/-- What is read is of a kind with one spelling exactly if it is spelt so. -/
theorem Reading.kind_iff {s : Text} {k k' : Kind} {n : Nat} {x : Text} (h : Reading s k n)
    (hx : k'.fixedText? = some x) : k = k' ↔ s.take n = x := by
  cases h with
  | closed mem body _ _ =>
    exact iff_of_false (ne_of_fixedText hx (delimited_free _ mem).1)
      (take_ne_of_body mem hx body _)
  | broken mem body _ =>
    exact iff_of_false (ne_of_fixedText hx rfl) (take_ne_of_body mem hx body _)
  | @lexeme l n _ best =>
    constructor
    · rintro rfl
      have hmatch := best.matches
      rw [(mem_lexemes_iff hx).mp best.mem] at hmatch
      exact Pattern.matches_exactly_iff.mp hmatch
    · rintro rfl
      have hfind := find_fixed k' (mem_all k') _ hx
      rw [best.first] at hfind
      exact Option.some.inj hfind
  | bad _ none =>
    refine iff_of_false (ne_of_fixedText hx rfl) ?_
    rintro rfl
    have mem : (⟨k', .exactly (s.take 1)⟩ : Lexeme) ∈ lexemes := (mem_lexemes_iff hx).mpr rfl
    exact none _ mem 1 (Pattern.matches_exactly_iff.mpr rfl)

end CommandGrammar.Piece
