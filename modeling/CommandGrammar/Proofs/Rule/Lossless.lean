import CommandGrammar.Proofs.Rule.Coverage
import CommandGrammar.Proofs.Rule.Parse
import CommandGrammar.Proofs.Tree.Placement

/-! Reading a text with a rule loses nothing of it: the tree has the text that was consumed, its range
is where that text stands, and an error tells where the rest begins. -/
namespace CommandGrammar

namespace Source
variable {text : Text} {s : Source} {p q : Nat} {e : Element}

/-- The tree that a rule returns has the source text of the tokens that it consumed. -/
theorem fullText_eq_slice (o : Options) (r : Rule)
    (h : s.parse (o.rules.grammar r) p = some (e, q)) :
    e.fullText = (s.slice p q).flatMap Token.fullText := by
  rw [Element.fullText, Element.leaves_eq]
  rcases (ensures_keeps o r h).tokens with hcovers | rfl
  · rw [← Leaf.flatMap_fullText_filter hcovers.blank]
    exact (hcovers.tiling.mono fun _ _ _ => Cell.spells).flatMap_fullText.2
  · rw [Element.flatten, List.flatMap_singleton, fullText_reconstruct]

/-- The range of a tree, if it has one, is inside the text and is where the tree's text stands. -/
def Located (text : Text) (e : Element) : Prop :=
  ∀ range, e.range? = some range →
    range.start ≤ range.stop ∧ range.stop ≤ text.byteSize ∧ text.bytesIn range = e.text.utf8

/-- So it is if the leaves tile the beginning of the source and the first leaf is there. -/
private theorem located_of_tiling (hs : Lexed text s) (hq : q ≤ s.size) {l : Leaf} {ls : List Leaf}
    (he : e.leaves = l :: ls) (hl : l.missing = false)
    (htiling : Tiling s.Spells 0 q (e.leaves.filter (!·.missing)))
    (hfull : e.fullText = (s.slice 0 q).flatMap Token.fullText) : Located text e := by
  have hfilter : e.leaves.filter (!·.missing) = l :: ls.filter (!·.missing) := by
    rw [he, List.filter_cons_of_pos (by simp [hl])]
  rw [hfilter] at htiling
  obtain ⟨m, hlast⟩ := htiling.getLast_spells (List.cons_ne_nil _ _)
  have hsplit : e.fullText = l.trivia ++ e.text := by
    rw [Element.fullText, Element.text, he, List.flatMap_cons, Leaf.fullText, List.append_assoc]
  have hstart : l.offset = l.trivia.byteSize := by
    cases htiling with
    | cons head _ =>
      rw [head.offset, head.trivia, hs.offsetAt_eq (Nat.zero_le _), slice_self]
      exact Nat.zero_add _
  have hstop := hlast.stop hs hq
  rw [← hfull, hsplit] at hstop
  have hle : l.offset ≤ Text.byteSize (l.trivia ++ e.text) := by
    rw [hstart, Text.byteSize_append]
    exact Nat.le_add_right _ _
  obtain ⟨rest, htext⟩ := hs.text_eq hq
  rw [← hfull, hsplit] at htext
  intro range hrange
  rw [Element.range?_eq hfilter, hstop, Nat.max_eq_left hle] at hrange
  cases hrange
  refine ⟨hle, ?_, ?_⟩
  · rw [htext, Text.byteSize_append (l.trivia ++ e.text)]
    exact Nat.le_add_right _ _
  · rw [htext, hstart]
    exact Text.bytesIn_append _ _ _

/-- Raw text of no tokens is empty and stands at a point. -/
private theorem located_of_blank (hs : Lexed text s) {k : Kind}
    (he : e.leaves = [s.reconstruct k 0 0]) : Located text e := by
  have hleaf : s.reconstruct k 0 0 = ⟨k, [], [], s.offsetAt 0, false, false⟩ := by
    rw [reconstruct, slice_self]
    rfl
  rw [hleaf] at he
  have hrange : e.range? = some (.point (s.offsetAt 0)) := by
    rw [Element.range?, he]
    simp [Leaf.range, Range.point]
  have htext : e.text = [] := by
    rw [Element.text, he]
    rfl
  intro range h
  rw [hrange] at h
  cases h
  refine ⟨Nat.le_refl _, hs.offsetAt_le (Nat.zero_le _), ?_⟩
  rw [Text.bytesIn_point, htext]
  rfl

/-- What a rule returns for the beginning of a text is where its range says. -/
theorem located_of_parse (hs : Lexed text s) (o : Options) (r : Rule)
    (h : s.parse (o.rules.grammar r) 0 = some (e, q)) : Located text e := by
  have hq := parse_le_size h (Nat.zero_le _)
  have hfull := fullText_eq_slice o r h
  rcases (ensures_keeps o r h).tokens with hcovers | hraw
  · rw [← Element.leaves_eq] at hcovers
    cases he : e.leaves with
    | nil =>
      have hnone := (Element.range?_eq_none_iff e).mpr (by rw [he]; exact nofun)
      intro range hrange
      rw [hnone] at hrange
      cases hrange
    | cons l ls =>
      have hl : l.missing = false := by
        refine (ensures_keeps o r h).head l ?_
        rw [← Element.leaves_eq, he]
        rfl
      exact located_of_tiling hs hq he hl (hcovers.tiling.mono fun _ _ _ => Cell.spells) hfull
  · have he : e.leaves = [s.reconstruct .inputText 0 q] := by
      rw [Element.leaves_eq, hraw, Element.flatten]
    rcases Nat.eq_or_lt_of_le (Nat.zero_le q) with rfl | hlt
    · exact located_of_blank hs he
    · have hl := missing_reconstruct s .inputText 0 q
      refine located_of_tiling hs hq he hl ?_ hfull
      rw [he, List.filter_cons_of_pos (by simp [hl])]
      exact .cons (spells_reconstruct _ hlt) (.nil q)

/-- A match that reaches the end marker has all of the text but the trivia there. -/
private theorem fullText_append_trivia (hs : Lexed text s) (o : Options) (r : Rule)
    (h : s.parse (o.rules.grammar r) 0 = some (e, q)) (hend : s.isEnd q = true) :
    e.fullText ++ s.final.trivia = text := by
  have hq : q = s.size := Nat.le_antisymm (parse_le_size h (Nat.zero_le _)) (hs.isEnd_iff.mp hend)
  have hfront : s.slice 0 s.size = s.front := by
    rw [slice_zero (Nat.le_refl _), size, List.take_length]
  rw [fullText_eq_slice o r h, hq, hfront, ← hs.whole, tokens, List.flatMap_append,
    List.flatMap_singleton, Token.fullText, hs.blank, List.append_nil]

/-- A match that stops before the end marker leaves some text: the rest begins behind the trivia of
the first token left. -/
private theorem offsetAt_of_not_isEnd (hs : Lexed text s) (o : Options) (r : Rule)
    (h : s.parse (o.rules.grammar r) 0 = some (e, q)) (hend : s.isEnd q = false) :
    s.offsetAt q < text.byteSize ∧
      text.utf8.take (s.offsetAt q) = Text.utf8 (e.fullText ++ (s.peek q).trivia) := by
  have hq : q < s.size := by
    apply Nat.lt_of_not_le
    intro hle
    rw [hs.isEnd_iff.mpr hle] at hend
    cases hend
  obtain ⟨rest, htext⟩ := hs.text_eq (Nat.le_of_lt hq)
  have hoffset := hs.offsetAt_eq (Nat.le_of_lt hq)
  have hpos := Text.byteSize_pos (hs.peek_solid hq).ne_nil
  rw [← fullText_eq_slice o r h, ← Text.byteSize_append] at hoffset
  rw [← fullText_eq_slice o r h, ← List.append_assoc] at htext
  constructor
  · rw [hoffset, htext, Text.byteSize_append (e.fullText ++ _), Text.byteSize_append (s.peek q).text]
    omega
  · rw [hoffset, htext, Text.take_utf8_append]

end Source

/-- A text that a rule reads as a whole is the tree's text and what trivia is left at its end; the
rule fails on it only where it does not match; else the error tells how much of the text the match
and the trivia behind it take up. -/
theorem RuleSet.parse_lossless (o : Options) (r : Rule) (text : Text) :
    (o.rules.parse r text = .error (.noMatch r) ↔
      (Source.ofText text).parse (o.rules.grammar r) 0 = none) ∧
    match o.rules.parse r text with
    | .ok e =>
      (∃ q, (Source.ofText text).parse (o.rules.grammar r) 0 = some (e, q) ∧
        (Source.ofText text).isEnd q = true) ∧
      e.fullText ++ (Source.ofText text).final.trivia = text ∧
      (e.range? = none ↔ ∀ l ∈ e.leaves, l.missing = true) ∧
      Source.Located text e
    | .error (.noMatch r') => r' = r
    | .error (.unconsumed r' offset) =>
      r' = r ∧ ∃ e q, (Source.ofText text).parse (o.rules.grammar r) 0 = some (e, q) ∧
        (Source.ofText text).isEnd q = false ∧ offset < text.byteSize ∧
        text.utf8.take offset = Text.utf8 (e.fullText ++ ((Source.ofText text).peek q).trivia) := by
  have hs := Source.lexed_ofText text
  cases h : (Source.ofText text).parse (o.rules.grammar r) 0 with
  | none =>
    have hparse : o.rules.parse r text = .error (.noMatch r) := by rw [parse_eq, h]
    rw [hparse]
    exact ⟨⟨fun _ => rfl, fun _ => rfl⟩, rfl⟩
  | some x =>
    obtain ⟨e, q⟩ := x
    cases hend : (Source.ofText text).isEnd q with
    | true =>
      have hparse : o.rules.parse r text = .ok e := by
        rw [parse_eq, h]
        simp only [hend, if_true]
      rw [hparse]
      refine ⟨⟨nofun, nofun⟩, ⟨q, rfl, hend⟩, ?_, Element.range?_eq_none_iff e, ?_⟩
      · exact Source.fullText_append_trivia hs o r h hend
      · exact Source.located_of_parse hs o r h
    | false =>
      have hparse : o.rules.parse r text =
          .error (.unconsumed r ((Source.ofText text).offsetAt q)) := by
        rw [parse_eq, h]
        simp only [hend, Bool.false_eq_true, if_false]
      rw [hparse]
      refine ⟨⟨nofun, nofun⟩, rfl, e, q, rfl, hend, ?_⟩
      exact Source.offsetAt_of_not_isEnd hs o r h hend

end CommandGrammar
