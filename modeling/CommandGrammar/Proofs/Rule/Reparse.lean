import CommandGrammar.Proofs.Rule.Lossless
import CommandGrammar.Proofs.Rule.Parallel
import CommandGrammar.Proofs.Source.Trimmed

/-! Reading the text of a tree again gives the tree again, with places counted from its own
beginning. -/
namespace CommandGrammar

namespace Leaf

/-- The leaf with its place counted from `origin`, where the trivia of a leaf that stands there is left
out. A missing leaf has no place. -/
def rebase (origin : Nat) (l : Leaf) : Leaf :=
  if l.missing then l
  else { l with trivia := if l.offset = origin then [] else l.trivia, offset := l.offset - origin }

/-- The leaf so much nearer to the beginning. A missing leaf has no place. -/
def lower (distance : Nat) (l : Leaf) : Leaf :=
  if l.missing then l else { l with offset := l.offset - distance }

/-- The first leaf at the beginning and without its trivia, and the others as far behind it as they
were. -/
def rebased : List Leaf → List Leaf
  | [] => []
  | l :: ls => { l with trivia := [], offset := 0 } :: ls.map (lower l.offset)

private theorem rebase_of_ne {origin : Nat} {l : Leaf} (h : l.missing = false → l.offset ≠ origin) :
    l.rebase origin = l.lower origin := by
  unfold rebase lower
  split
  · rfl
  · next hm => rw [if_neg (h (Bool.eq_false_iff.mpr hm))]

private theorem rebase_self {l : Leaf} (h : l.missing = false) :
    l.rebase l.offset = { l with trivia := [], offset := 0 } := by
  rw [rebase, h, if_neg Bool.false_ne_true, if_pos rfl, Nat.sub_self]

end Leaf

/-- The tree with places counted from its first leaf, which loses its trivia. -/
def Element.rebased (e : Element) : Element :=
  match e.leaves with
  | [] => e
  | l :: _ => e.mapLeaves (Leaf.rebase l.offset)

namespace Correspondence

/-- Tokens and those with places counted from `origin`. -/
def rebasing (multiline : Bool) (origin : Nat) : Correspondence multiline where
  left := Leaf.rebase origin
  right := id
  First t t' := t' = t.rebase origin
  Later t t' := t' = t.rebase origin ∧ t.offset ≠ origin
  first_of_later h := h.1
  kind h := by rw [h]; rfl
  text h := by rw [h]; rfl
  leaf h _ := by rw [h]; rfl
  run {t t'} h := by
    have htrivia : t'.trivia = t.trivia := by
      rw [h.1]
      exact if_neg h.2
    have htext : t'.text = t.text := by rw [h.1]; rfl
    rw [Fragment.isRunToken, Fragment.isRunToken, htrivia, htext]
  captured {t t' ts ts'} h hlater k _ _ := by
    have htexts : ts'.flatMap Token.fullText = ts.flatMap Token.fullText := by
      induction hlater with
      | nil => rfl
      | cons hu _ ih =>
        rw [List.flatMap_cons, ih, List.flatMap_cons, hu.1, Token.fullText, Token.fullText,
          Token.rebase, if_neg hu.2]
    rw [h, Leaf.capture, Leaf.capture, htexts]
    rfl
  placeholder _ := rfl

/-- The source of a text and that of the trimmed text are parallel at the beginning. -/
private theorem parallel_trimmed (multiline : Bool) (text : Text) :
    (rebasing multiline ((Source.ofText text).offsetAt 0)).Parallel ((Source.ofText text).window 0)
      ((Source.ofText (Source.ofText text).trimmedText).window 0) := by
  have hs := Source.lexed_ofText text
  have hs' := Source.lexed_ofText (Source.ofText text).trimmedText
  rw [hs.window_zero, hs'.window_zero, (Source.front_trimmed text).1]
  refine ⟨rfl, ?_, ?_⟩
  · rw [List.forall₂_map_right_iff, List.forall₂_same]
    exact fun t _ => rfl
  · rw [← List.map_tail, List.forall₂_map_right_iff, List.forall₂_same]
    exact fun t ht => ⟨rfl, Nat.ne_of_gt (hs.offsetAt_zero_lt ht)⟩

end Correspondence

/-- Leaves that tile an interval begin where tokens of it do. -/
private theorem Tiling.offset_of_mem {s : Source} {p q : Nat} {ls : List Leaf}
    (h : Tiling s.Spells p q ls) {l : Leaf} (hl : l ∈ ls) :
    ∃ i, p ≤ i ∧ i < q ∧ l.offset = s.offsetAt i := by
  induction h with
  | nil => cases hl
  | cons head tail ih =>
    have hle := (flatMap_fullText tail).1
    rcases List.mem_cons.mp hl with rfl | hl
    · exact ⟨_, Nat.le_refl _, Nat.lt_of_lt_of_le head.lt hle, head.offset⟩
    · obtain ⟨i, hi, hiq, hoffset⟩ := ih hl
      exact ⟨i, Nat.le_trans (Nat.le_of_lt head.lt) hi, hiq, hoffset⟩

namespace Source
variable {s : Source} {p q : Nat} {e : Element} {l : Leaf} {ls : List Leaf}

/-- The first leaf of what a rule returns is there and stands at the first token, and every other one
that is there stands at a later token. -/
private theorem leaf_places (o : Options) (r : Rule)
    (h : s.parse (o.rules.grammar r) p = some (e, q)) (he : e.leaves = l :: ls) :
    l.missing = false ∧ l.offset = s.offsetAt p ∧ (p < q → l.trivia = (s.peek p).trivia) ∧
      ∀ l' ∈ ls, l'.missing = false → ∃ i, p < i ∧ i < q ∧ l'.offset = s.offsetAt i := by
  obtain ⟨htokens, hhead⟩ := ensures_keeps o r h
  rw [← Element.leaves_eq, he] at hhead
  have hl : l.missing = false := hhead l rfl
  refine ⟨hl, ?_⟩
  rcases htokens with hcovers | hraw
  · have htiling := hcovers.tiling.mono fun _ _ _ => Cell.spells
    rw [← Element.leaves_eq, he, List.filter_cons_of_pos (by simp [hl])] at htiling
    cases htiling with
    | cons head tail =>
      refine ⟨head.offset, fun _ => head.trivia, fun l' hl' hm => ?_⟩
      have hmem : l' ∈ ls.filter (!·.missing) := List.mem_filter.mpr ⟨hl', by simp [hm]⟩
      obtain ⟨i, hi, hiq, hoffset⟩ := tail.offset_of_mem hmem
      exact ⟨i, Nat.lt_of_lt_of_le head.lt hi, hiq, hoffset⟩
  · rw [hraw, Element.leaves_eq, Element.flatten] at he
    obtain ⟨rfl, rfl⟩ := List.cons.inj he
    refine ⟨?_, fun hlt => (spells_reconstruct _ hlt).trivia, nofun⟩
    rcases Nat.eq_or_lt_of_le (parse_le h) with rfl | hlt
    · rw [reconstruct, slice_self]
      rfl
    · exact (spells_reconstruct _ hlt).offset

/-- The tree of a whole text has the text from the first to the last token. -/
private theorem text_eq_trimmedText {text : Text} (hs : Lexed text s) (o : Options) (r : Rule)
    (h : s.parse (o.rules.grammar r) 0 = some (e, s.size)) : e.text = s.trimmedText := by
  have hfull := fullText_eq_slice o r h
  rw [slice_zero (Nat.le_refl _), size, List.take_length, Element.fullText] at hfull
  rw [Element.text, trimmedText]
  cases he : e.leaves with
  | nil =>
    rw [he, List.flatMap_nil] at hfull
    cases hfront : s.front with
    | nil => rfl
    | cons t ts =>
      have hsolid := hs.solid t (hfront ▸ List.mem_cons_self)
      rw [hfront, List.flatMap_cons, Token.fullText] at hfull
      simp only [List.nil_eq, List.append_eq_nil_iff] at hfull
      exact absurd hfull.1.2 hsolid.ne_nil
  | cons l ls =>
    obtain ⟨-, -, htrivia, -⟩ := leaf_places o r h he
    rw [he, List.flatMap_cons, Leaf.fullText, List.append_assoc] at hfull
    cases hfront : s.front with
    | nil =>
      rw [hfront] at hfull
      exact (List.append_eq_nil_iff.mp hfull).2
    | cons t ts =>
      have hpeek : s.peek 0 = t := peek_of_drop_cons (by rw [List.drop_zero, hfront])
      have hsize : 0 < s.size := by
        rw [size, hfront]
        exact Nat.succ_pos _
      rw [hfront, List.flatMap_cons, Token.fullText, List.append_assoc, htrivia hsize, hpeek] at hfull
      exact List.append_cancel_left hfull

/-- The leaves of the tree of a whole text, with places counted from the first token. -/
private theorem leaves_rebase {text : Text} (hs : Lexed text s) (o : Options) (r : Rule)
    (h : s.parse (o.rules.grammar r) 0 = some (e, s.size)) :
    e.leaves.map (Leaf.rebase (s.offsetAt 0)) = Leaf.rebased e.leaves := by
  cases he : e.leaves with
  | nil => rfl
  | cons l ls =>
    obtain ⟨hl, hoffset, -, hlater⟩ := leaf_places o r h he
    rw [List.map_cons, Leaf.rebased, ← hoffset, Leaf.rebase_self hl]
    refine congrArg _ (List.map_congr_left fun l' hl' => Leaf.rebase_of_ne fun hm => ?_)
    obtain ⟨i, hpos, hlt, hi⟩ := hlater l' hl' hm
    rw [hi, hoffset]
    exact Nat.ne_of_gt (hs.offsetAt_zero_lt_offsetAt hpos hlt)

/-- No leaf that is there stands before the first one. -/
private theorem offset_head_le {text : Text} (hs : Lexed text s) (o : Options) (r : Rule)
    (h : s.parse (o.rules.grammar r) 0 = some (e, s.size)) :
    ∀ l ∈ e.leaves.head?, ∀ l' ∈ e.leaves, l'.missing = false → l.offset ≤ l'.offset := by
  cases he : e.leaves with
  | nil => exact nofun
  | cons l ls =>
    obtain ⟨-, hoffset, -, hlater⟩ := leaf_places o r h he
    intro l₁ hl₁ l' hl' hm
    cases hl₁
    rcases List.mem_cons.mp hl' with rfl | hl'
    · exact Nat.le_refl _
    · obtain ⟨i, hpos, hlt, hi⟩ := hlater l' hl' hm
      rw [hoffset, hi]
      exact Nat.le_of_lt (hs.offsetAt_zero_lt_offsetAt hpos hlt)

end Source

namespace RuleSet

private theorem rebased_eq (o : Options) (r : Rule) {text : Text} {e : Element}
    (h : o.rules.parse r text = .ok e) :
    e.rebased = e.mapLeaves (Leaf.rebase ((Source.ofText text).offsetAt 0)) := by
  have hparse := parse_eq_ok_iff.mp h
  rw [Element.rebased]
  cases he : e.leaves with
  | nil =>
    rw [Element.leaves_eq] at he
    refine (Element.mapLeaves_eq_self fun l hl => ?_).symm
    rw [he] at hl
    cases hl
  | cons l ls =>
    obtain ⟨-, hoffset, -⟩ := Source.leaf_places o r hparse he
    simp only [hoffset]

/-- The trimmed text is read as the same tree with places counted from the first token. -/
private theorem parse_trimmedText (o : Options) (r : Rule) {text : Text} {e : Element}
    (h : o.rules.parse r text = .ok e) :
    o.rules.parse r (Source.ofText text).trimmedText =
      .ok (e.mapLeaves (Leaf.rebase ((Source.ofText text).offsetAt 0))) := by
  obtain ⟨hfront, horigin⟩ := Source.front_trimmed text
  have hsize : (Source.ofText (Source.ofText text).trimmedText).size = (Source.ofText text).size := by
    rw [Source.size, hfront, List.length_map, Source.size]
  obtain ⟨n, -, hrun, hn⟩ := Source.parse_eq_some_iff.mp (parse_eq_ok_iff.mp h)
  have hblank (origin : Nat) :
      (Leaf.capture .inputText origin []).rebase origin = .capture .inputText 0 [] :=
    Leaf.rebase_self (l := .capture .inputText origin []) rfl
  have hagree := Correspondence.rule_agree o (.rebasing o.multiline ((Source.ofText text).offsetAt 0)) r
    (Correspondence.parallel_trimmed o.multiline text) (by
      rw [Source.window_offset, Source.window_offset, horigin]
      exact hblank _)
  rcases (Outcome.map_eq_map_iff.mp hagree).2 with ⟨hnone, -⟩ | ⟨e₁, e', m, hrun₁, hrun', he⟩
  · rw [hrun] at hnone
    cases hnone
  · rw [hrun] at hrun₁
    cases hrun₁
    have he' : e' = e.mapLeaves (Leaf.rebase ((Source.ofText text).offsetAt 0)) :=
      (Element.mapLeaves_eq_self fun _ _ => rfl).symm.trans he.symm
    rw [parse_eq_ok_iff, hsize, hn, ← he', Source.parse, hrun']
    rfl

/-- The text of a tree that a rule returned is read again by the rule as that tree, with places counted
from its first leaf. Of its leaves the first one loses its trivia, those that are there lie nearer to
the beginning by as much as the first one was away from it, and nothing else changes. -/
theorem reparse_text (o : Options) (r : Rule) {text : Text} {e : Element}
    (h : o.rules.parse r text = .ok e) :
    o.rules.parse r e.text = .ok e.rebased ∧
      e.rebased.leaves = Leaf.rebased e.leaves ∧
      (∀ l ∈ e.leaves.head?, ∀ l' ∈ e.leaves, l'.missing = false → l.offset ≤ l'.offset) ∧
      (e.leaves = [] → e.rebased = e) := by
  have hs := Source.lexed_ofText text
  have hparse := parse_eq_ok_iff.mp h
  refine ⟨?_, ?_, Source.offset_head_le hs o r hparse, fun he => ?_⟩
  · rw [Source.text_eq_trimmedText hs o r hparse, rebased_eq o r h]
    exact parse_trimmedText o r h
  · rw [rebased_eq o r h, Element.leaves_mapLeaves, Source.leaves_rebase hs o r hparse]
  · rw [Element.rebased, he]

/-- A path with blanks before and behind it that breaks off at its dot. -/
def brokenPath : Element :=
  .path (.declaration (.bracketed ⟨.openBracket, [' '], ['['], 1, false, false⟩
      ⟨.stringLiteral, ['\n'], ['\'', 'a', '\''], 3, false, false⟩
      ⟨.closeBracket, [], [']'], 6, false, false⟩))
    ⟨.dot, ['\t'], ['.'], 8, false, true⟩ (.declaration .placeholder)

theorem reparse_brokenPath :
    standard.parse .qualifiedName
        [' ', '[', '\n', '\'', 'a', '\'', ']', '\t', '.', '/', '/'] = .ok brokenPath ∧
      standard.parse .qualifiedName ['[', '\n', '\'', 'a', '\'', ']', '\t', '.'] =
        .ok brokenPath.rebased := by
  have h : standard.parse .qualifiedName
      [' ', '[', '\n', '\'', 'a', '\'', ']', '\t', '.', '/', '/'] = .ok brokenPath := by
    decide +kernel
  have htext : brokenPath.text = ['[', '\n', '\'', 'a', '\'', ']', '\t', '.'] := by decide +kernel
  refine ⟨h, ?_⟩
  rw [← htext]
  exact (reparse_text {} .qualifiedName h).1

end RuleSet
end CommandGrammar
