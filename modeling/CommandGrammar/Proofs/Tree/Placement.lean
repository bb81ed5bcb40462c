import CommandGrammar.Proofs.Source.Lexed
import CommandGrammar.Proofs.Tree.Coverage

/-! Where the leaves of a tree lie in the text: a leaf has the source text of its tokens and begins
where the first of them does. -/
namespace CommandGrammar

namespace Source

/-- The leaf has the source text of the tokens of an interval and the place of the first of them. -/
structure Spells (s : Source) (p q : Nat) (l : Leaf) : Prop where
  lt : p < q
  trivia : l.trivia = (s.peek p).trivia
  offset : l.offset = s.offsetAt p
  fullText : l.fullText = (s.slice p q).flatMap Token.fullText

theorem spells_reconstruct {s : Source} {p q : Nat} (k : Kind) (h : p < q) :
    s.Spells p q (s.reconstruct k p q) := by
  rw [reconstruct, slice_succ h]
  refine ⟨h, rfl, rfl, ?_⟩
  rw [slice_succ h, List.flatMap_cons, Token.fullText, List.append_assoc]
  rfl

/-- A reconstruction has the full text of its tokens, of which there may be none. -/
theorem fullText_reconstruct (s : Source) (k : Kind) (p q : Nat) :
    (s.reconstruct k p q).fullText = (s.slice p q).flatMap Token.fullText := by
  rcases Nat.lt_or_ge p q with hlt | hle
  · exact (spells_reconstruct k hlt).fullText
  · have hnone : s.slice p q = [] := by
      rw [slice, Nat.sub_eq_zero_of_le hle, List.range'_zero, List.map_nil]
    rw [reconstruct, hnone]
    rfl

theorem Cell.spells {s : Source} {p q : Nat} {l : Leaf} (h : s.Cell p q l) : s.Spells p q l := by
  cases h with
  | token hidden =>
    refine ⟨Nat.lt_succ_self p, rfl, rfl, ?_⟩
    rw [slice_succ (Nat.lt_succ_self p), slice_self, List.flatMap_singleton]
    rfl
  | run h => exact spells_reconstruct _ h

/-- In a source that was read off a text, such a leaf ends where its last token does. -/
theorem Spells.stop {text : Text} {s : Source} {p q : Nat} {l : Leaf} (h : s.Spells p q l)
    (hs : Lexed text s) (hq : q ≤ s.size) :
    l.range.stop = Text.byteSize ((s.slice 0 q).flatMap Token.fullText) := by
  have hoffset := hs.offsetAt_eq (Nat.le_of_lt (Nat.lt_of_lt_of_le h.lt hq))
  have hsize := congrArg Text.byteSize h.fullText
  rw [Leaf.fullText, Text.byteSize_append, h.trivia] at hsize
  rw [Leaf.range, h.offset, hoffset, ← slice_append (Nat.zero_le p) (Nat.le_of_lt h.lt),
    List.flatMap_append, Text.byteSize_append, ← hsize, Nat.add_assoc]

end Source

namespace Tiling
variable {s : Source} {p q : Nat} {ls : List Leaf}

/-- Leaves that tile an interval have the source text of all its tokens. -/
theorem flatMap_fullText (h : Tiling s.Spells p q ls) :
    p ≤ q ∧ ls.flatMap Leaf.fullText = (s.slice p q).flatMap Token.fullText := by
  induction h with
  | nil p => exact ⟨Nat.le_refl p, by rw [Source.slice_self]; rfl⟩
  | cons head _ ih =>
    obtain ⟨hle, htext⟩ := ih
    have hlt := Nat.le_of_lt head.lt
    refine ⟨Nat.le_trans hlt hle, ?_⟩
    rw [List.flatMap_cons, htext, head.fullText, ← List.flatMap_append,
      Source.slice_append hlt hle]

/-- The last of several leaves ends where the interval does. -/
theorem getLast_spells (h : Tiling s.Spells p q ls) (hls : ls ≠ []) :
    ∃ m, s.Spells m q (ls.getLast hls) := by
  induction h with
  | nil => exact absurd rfl hls
  | cons head tail ih =>
    cases tail with
    | nil => exact ⟨_, head⟩
    | cons head' tail' =>
      rw [List.getLast_cons (List.cons_ne_nil _ _)]
      exact ih (List.cons_ne_nil _ _)

end Tiling

namespace Leaf

/-- Blank leaves add nothing to the source text. -/
theorem flatMap_fullText_filter {ls : List Leaf}
    (h : ∀ l ∈ ls, l.missing = true → l.trivia = [] ∧ l.text = []) :
    (ls.filter (!·.missing)).flatMap fullText = ls.flatMap fullText := by
  induction ls with
  | nil => rfl
  | cons l ls ih =>
    obtain ⟨hl, hls⟩ := List.forall_mem_cons.mp h
    cases hm : l.missing with
    | false =>
      rw [List.filter_cons_of_pos (by simp [hm]), List.flatMap_cons, ih hls, List.flatMap_cons]
    | true =>
      obtain ⟨htrivia, htext⟩ := hl hm
      rw [List.filter_cons_of_neg (by simp [hm]), ih hls, List.flatMap_cons, fullText, htrivia, htext,
        List.nil_append, List.nil_append]

end Leaf

namespace Element

/-- An element has a range unless all its leaves are missing. -/
theorem range?_eq_none_iff (e : Element) :
    e.range? = none ↔ ∀ l ∈ e.leaves, l.missing = true := by
  have hfilter : e.leaves.filter (!·.missing) = [] ↔ ∀ l ∈ e.leaves, l.missing = true := by
    simp [List.filter_eq_nil_iff]
  rw [← hfilter, range?]
  cases hp : e.leaves.filter (!·.missing) with
  | nil => simp
  | cons l ls => simp [List.getLast?_cons]

theorem range?_eq {e : Element} {l : Leaf} {ls : List Leaf}
    (h : e.leaves.filter (!·.missing) = l :: ls) :
    e.range? = some ⟨l.offset,
      max ((l :: ls).getLast (List.cons_ne_nil l ls)).range.stop l.offset⟩ := by
  rw [range?, h]
  simp only [List.head?_cons, List.getLast?_eq_some_getLast (List.cons_ne_nil l ls)]

end Element
end CommandGrammar
