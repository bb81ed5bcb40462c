import CommandGrammar.Proofs.Rule.Placeholders
import CommandGrammar.Proofs.Tree.Walk

/-! What is reported of a parsed tree: one message for each placeholder, where the last token before it
ends. -/
namespace CommandGrammar.Source
open Diagnostic

/-- What holds of the messages of a tree that was read from the tokens from `p` to `q`. -/
structure Diagnosed (s : Source) (p q : Nat) (e : Element) : Prop where
  /-- There are as many of them as leaves that are missing. -/
  count : (missing e).length = (e.leaves.filter (·.missing)).length
  codes : ∀ d ∈ missing e, d.code.name ∈ ["E0201", "E0301", "E0302", "E0404"]
  ascending : (missing e).Pairwise fun d d' => d.range.start ≤ d'.range.start
  within : ∀ d ∈ missing e, ∃ range, e.range? = some range ∧
    range.start ≤ d.range.start ∧ d.range.stop ≤ range.stop
  /-- The message for a missing leaf stands at the end of the token `m`. That was consumed, and the leaves
  before the missing one lie on the tokens up to it. -/
  behind : ∀ before l after, e.leaves = before ++ l :: after → l.missing = true →
    ∃ d m, (missing e)[(before.filter (·.missing)).length]? = some d ∧ p ≤ m ∧ m < q ∧
      Tiling s.Cell p (m + 1) (before.filter (!·.missing)) ∧
      d.range = .point (s.peek m).range.stop ∧ d.range.stop ≤ s.offsetAt (m + 1)
  /-- No message stands inside a token. -/
  outside : ∀ d ∈ missing e, ∀ i,
    ¬ ((s.peek i).range.start < d.range.start ∧ d.range.start < (s.peek i).range.stop)

variable {text : Text} {s : Source} {p q : Nat} {e : Element}

/-- Of a tree with all its leaves there is nothing to report. -/
private theorem diagnosed_of_present (h : Leaf.Present e.leaves) : s.Diagnosed p q e := by
  have hnone : missing e = [] := by
    rw [missing_eq_nil_iff, ← Element.leaves_eq]
    exact h
  have hfilter : e.leaves.filter (·.missing) = [] := by
    rw [List.filter_eq_nil_iff]
    exact fun l hl => Bool.eq_false_iff.mp (h l hl)
  have hnever (P : Diagnostic → Prop) : ∀ d ∈ missing e, P d := by
    rw [hnone]
    exact List.forall_mem_nil P
  refine ⟨?_, hnever _, ?_, hnever _, ?_, hnever _⟩
  · rw [hnone, hfilter]
    rfl
  · rw [hnone]
    exact .nil
  · intro before l after hsplit hl
    rw [hsplit] at h
    rw [h l (List.mem_append_right before List.mem_cons_self)] at hl
    cases hl

/-- A sparse tree on the tokens from `p` to `q`, with its first leaf there and with placeholders at the
positions `ms`. -/
structure Laid (s : Source) (p q : Nat) (e : Element) (ms : List Nat) : Prop where
  sparse : (Child.element e).Sparse
  head : ∃ l ls, e.leaves = l :: ls ∧ l.missing = false
  covers : s.Covers p q e.leaves
  walk : s.Walk p q e.leaves ms
  le_size : q ≤ s.size

namespace Laid
variable {ms : List Nat}

/-- Placeholders stand behind at least one of the tokens. -/
private theorem bounds (h : s.Laid p q e ms) {m : Nat} (hm : m ∈ ms) : p < m ∧ m ≤ q := by
  obtain ⟨l, ls, he, hl⟩ := h.head
  obtain ⟨first, hlt, hrest⟩ := (he ▸ h.walk).exists_rest hl
  obtain ⟨hfirst, hstop⟩ := hrest.bounds m hm
  exact ⟨Nat.lt_of_lt_of_le hlt hfirst, hstop⟩

/-- The messages stand where the tokens before the placeholders end. -/
private theorem ranges (h : s.Laid p q e ms) (hs : Lexed text s) :
    (missing e).map (·.range) = ms.map fun m => .point (s.reach m) := by
  obtain ⟨l, ls, he, hl⟩ := h.head
  -- the first leaf is there, so that it does not matter where reporting would start without it
  have hstart : Leaf.gaps 0 e.leaves = Leaf.gaps (s.reach p) e.leaves := by
    rw [he, Leaf.gaps_present hl, Leaf.gaps_present hl]
  rw [(missing_sparse h.sparse).1, hstart, h.walk.gaps_eq hs h.le_size, List.map_map]
  rfl

private theorem exists_position (h : s.Laid p q e ms) (hs : Lexed text s) {d : Diagnostic}
    (hd : d ∈ missing e) : ∃ m ∈ ms, d.range = .point (s.reach m) := by
  have hmem : d.range ∈ ms.map fun m => Range.point (s.reach m) := by
    rw [← h.ranges hs]
    exact List.mem_map_of_mem hd
  obtain ⟨m, hm, heq⟩ := List.mem_map.mp hmem
  exact ⟨m, hm, heq.symm⟩

/-- The range of the tree goes from its first token to the end of its last. -/
private theorem exists_range (h : s.Laid p q e ms) (hs : Lexed text s) :
    ∃ range, e.range? = some range ∧ range.start = s.offsetAt p ∧ s.reach q ≤ range.stop := by
  obtain ⟨l, ls, he, hl⟩ := h.head
  have hfilter : e.leaves.filter (!·.missing) = l :: ls.filter (!·.missing) := by
    rw [he, List.filter_cons_of_pos (by simp [hl])]
  have htiling := h.covers.tiling.mono fun _ _ _ => Cell.spells
  rw [hfilter] at htiling
  obtain ⟨m, hlast⟩ := htiling.getLast_spells (List.cons_ne_nil _ _)
  refine ⟨_, Element.range?_eq hfilter, ?_, ?_⟩
  · cases htiling with
    | cons first _ => exact first.offset
  · rw [hlast.stop hs h.le_size]
    exact Nat.le_max_left _ _

private theorem within (h : s.Laid p q e ms) (hs : Lexed text s) {d : Diagnostic}
    (hd : d ∈ missing e) :
    ∃ range, e.range? = some range ∧ range.start ≤ d.range.start ∧ d.range.stop ≤ range.stop := by
  obtain ⟨m, hm, hrange⟩ := h.exists_position hs hd
  obtain ⟨hpm, hmq⟩ := h.bounds hm
  obtain ⟨range, hsome, hstart, hstop⟩ := h.exists_range hs
  have hfirst : s.offsetAt p ≤ s.reach (p + 1) :=
    hs.offsetAt_le_reach (Nat.lt_of_lt_of_le hpm (Nat.le_trans hmq h.le_size))
  rw [hrange]
  refine ⟨range, hsome, ?_, Nat.le_trans (s.reach_mono hmq) hstop⟩
  rw [hstart]
  exact Nat.le_trans hfirst (s.reach_mono hpm)

private theorem behind (h : s.Laid p q e ms) (hs : Lexed text s) {before after : List Leaf}
    {l : Leaf} (hsplit : e.leaves = before ++ l :: after) (hl : l.missing = true) :
    ∃ d m, (missing e)[(before.filter (·.missing)).length]? = some d ∧ p ≤ m ∧ m < q ∧
      Tiling s.Cell p (m + 1) (before.filter (!·.missing)) ∧
      d.range = .point (s.peek m).range.stop ∧ d.range.stop ≤ s.offsetAt (m + 1) := by
  obtain ⟨m, hm, htiling⟩ := (hsplit ▸ h.walk).behind hl
  obtain ⟨hpm, hmq⟩ := h.bounds (List.mem_of_getElem? hm)
  have hget := congrArg (·[(before.filter (·.missing)).length]?) (h.ranges hs)
  simp only [List.getElem?_map, hm, Option.map_some] at hget
  obtain ⟨d, hd, hrange⟩ := Option.map_eq_some_iff.mp hget
  -- the last token before the placeholder is at the position before its own
  obtain ⟨m, rfl⟩ := Nat.exists_eq_succ_of_ne_zero (Nat.ne_zero_of_lt hpm)
  have hlast : m < s.size := Nat.lt_of_lt_of_le hmq h.le_size
  refine ⟨d, m, hd, Nat.le_of_lt_succ hpm, hmq, htiling, ?_, ?_⟩
  · rw [hrange, hs.stop_peek hlast]
  · rw [hrange]
    exact hs.reach_le_offsetAt hlast

private theorem diagnosed (h : s.Laid p q e ms) (hs : Lexed text s) : s.Diagnosed p q e where
  count := by
    have hlength := congrArg List.length (missing_sparse h.sparse).1
    rwa [List.length_map, List.length_map, Leaf.length_gaps] at hlength
  codes d hd := by
    have hnames : ∀ c ∈ Code.recovered, c.name ∈ ["E0201", "E0301", "E0302", "E0404"] := by decide
    exact hnames _ ((missing_sparse h.sparse).2 d hd)
  ascending := by
    have hpairwise : ((missing e).map (·.range)).Pairwise fun r r' => r.start ≤ r'.start := by
      rw [h.ranges hs, List.pairwise_map]
      exact h.walk.ascending.imp fun hle => s.reach_mono hle
    rwa [List.pairwise_map] at hpairwise
  within _ hd := h.within hs hd
  behind _ _ _ hsplit hl := h.behind hs hsplit hl
  outside d hd i := by
    obtain ⟨m, -, hrange⟩ := h.exists_position hs hd
    rw [hrange]
    exact hs.not_inside m i

end Laid
end CommandGrammar.Source

namespace CommandGrammar.RuleSet
open Source

/-- What is reported of a tree that a rule returned for a text: for each placeholder one message of one of
four codes, in the order of the source, and at the end of the last token that was consumed before the
placeholder. -/
theorem diagnosed_of_parse (o : Options) (r : Rule) (text : Text) {p q : Nat} {e : Element}
    (h : (ofText text).parse (o.rules.grammar r) p = some (e, q)) :
    (ofText text).Diagnosed p q e := by
  have hkeeps := ensures_keeps o r h
  rcases hkeeps.tokens with hcovers | hraw
  · rw [← Element.leaves_eq] at hcovers
    obtain ⟨ms, hwalk⟩ := hcovers.walk
    cases he : e.leaves with
    | nil => exact diagnosed_of_present (by rw [he]; exact Leaf.present_nil)
    | cons l ls =>
      have hl : l.missing = false := by
        refine hkeeps.head l ?_
        rw [← Element.leaves_eq, he]
        rfl
      -- as the first leaf is there, at least one token was consumed
      have hsize : q ≤ (ofText text).size := by
        obtain ⟨m, hlt, hrest⟩ := (he ▸ hwalk).exists_rest hl
        have hle := hrest.le
        have hlast := ((parse_tokens h).2 (q - 1) (by omega) (by omega)).1
        omega
      have hlaid : (ofText text).Laid p q e ms :=
        ⟨ensures_sparse o r h, ⟨l, ls, he, hl⟩, hcovers, hwalk, hsize⟩
      exact hlaid.diagnosed (lexed_ofText text)
  · refine diagnosed_of_present ?_
    rw [hraw, Element.leaves_eq, Element.flatten, Leaf.present_singleton]
    exact missing_reconstruct _ _ _ _

/-- A function in which much is missing. -/
def brokenFunction : Text := "(a, b: int \x7b let x = ; y. ".toList

theorem diagnosed_brokenFunction :
    ∃ e, (ofText brokenFunction).parse (standard.grammar .functionDeclaration) 0 = some (e, 13) ∧
      (ofText brokenFunction).Diagnosed 0 13 e ∧
      (Diagnostic.missing e).map (fun d => (d.code.name, d.range.start)) =
        [("E0201", 2), ("E0404", 2), ("E0201", 10), ("E0302", 20), ("E0302", 25), ("E0201", 25)] := by
  have hrun : ((ofText brokenFunction).parse (standard.grammar .functionDeclaration) 0).map
      (fun x => ((Diagnostic.missing x.1).map (fun d => (d.code.name, d.range.start)), x.2)) =
        some ([("E0201", 2), ("E0404", 2), ("E0201", 10), ("E0302", 20), ("E0302", 25),
          ("E0201", 25)], 13) := by
    decide +kernel
  obtain ⟨⟨e, q⟩, h, heq⟩ := Option.map_eq_some_iff.mp hrun
  obtain ⟨hmessages, rfl⟩ := Prod.mk.inj heq
  exact ⟨e, h, diagnosed_of_parse {} .functionDeclaration brokenFunction h, hmessages⟩

end CommandGrammar.RuleSet
