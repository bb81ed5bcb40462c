import CommandGrammar.Proofs.Tree.Placement
import CommandGrammar.Proofs.Tree.Sparse

/-! The leaves of a tree walked along the tokens that they cover. A missing leaf stands between two
tokens, and it is reported where the first of them ends. -/
namespace CommandGrammar.Source

/-- Where the tokens before a position end. -/
def reach (s : Source) (p : Nat) : Nat := Text.byteSize ((s.slice 0 p).flatMap Token.fullText)

private theorem reach_succ (s : Source) (p : Nat) :
    s.reach (p + 1) = s.reach p + (s.peek p).trivia.byteSize + (s.peek p).text.byteSize := by
  rw [reach, ← slice_append (Nat.zero_le p) (Nat.le_succ p), slice_succ (Nat.lt_succ_self p),
    slice_self, List.flatMap_append, List.flatMap_singleton, Text.byteSize_append, Token.fullText,
    Text.byteSize_append, reach, Nat.add_assoc]

theorem reach_mono (s : Source) {p q : Nat} (h : p ≤ q) : s.reach p ≤ s.reach q := by
  induction h with
  | refl => exact Nat.le_refl _
  | step _ ih =>
    rw [reach_succ]
    omega

namespace Lexed
variable {text : Text} {s : Source} {p : Nat}

/-- A token ends where the tokens up to it do. -/
theorem stop_peek (hs : Lexed text s) (hp : p < s.size) : (s.peek p).range.stop = s.reach (p + 1) := by
  have hoffset : (s.peek p).offset = _ := hs.offsetAt_eq (Nat.le_of_lt hp)
  rw [Token.range, hoffset, reach_succ, reach]

theorem reach_le_offsetAt (hs : Lexed text s) (hp : p ≤ s.size) : s.reach p ≤ s.offsetAt p := by
  rw [hs.offsetAt_eq hp]
  exact Nat.le_add_right _ _

theorem offsetAt_le_reach (hs : Lexed text s) (hp : p < s.size) : s.offsetAt p ≤ s.reach (p + 1) := by
  rw [hs.offsetAt_eq (Nat.le_of_lt hp), reach_succ, reach]
  exact Nat.le_add_right _ _

/-- Tokens end outside the text of every token. -/
theorem not_inside (hs : Lexed text s) (p i : Nat) :
    ¬ ((s.peek i).range.start < s.reach p ∧ s.reach p < (s.peek i).range.stop) := by
  rintro ⟨hstart, hstop⟩
  rcases Nat.lt_or_ge i s.size with hi | hi
  · have hoffset : s.reach i ≤ (s.peek i).range.start := hs.reach_le_offsetAt (Nat.le_of_lt hi)
    rw [hs.stop_peek hi] at hstop
    rcases Nat.lt_or_ge i p with hip | hip
    · have hle : s.reach (i + 1) ≤ s.reach p := s.reach_mono hip
      omega
    · have hle := s.reach_mono hip
      omega
  · -- behind all tokens there is nothing but the end marker
    rw [peek_of_drop_nil (List.drop_eq_nil_iff.mpr hi), Token.range, hs.blank, Text.byteSize_nil]
      at hstop
    rw [peek_of_drop_nil (List.drop_eq_nil_iff.mpr hi), Token.range] at hstart
    simp only [Nat.add_zero] at hstop hstart
    omega

end Lexed

/-- Leaves from one position to another, each on its tokens, and the positions where those that are
missing stand. -/
inductive Walk (s : Source) : Nat → Nat → List Leaf → List Nat → Prop
  | done (p : Nat) : Walk s p p [] []
  | found {p m q : Nat} {l : Leaf} {ls : List Leaf} {ms : List Nat} (cell : s.Cell p m l)
      (rest : Walk s m q ls ms) : Walk s p q (l :: ls) ms
  | absent {p q : Nat} {l : Leaf} {ls : List Leaf} {ms : List Nat} (missing : l.missing = true)
      (rest : Walk s p q ls ms) : Walk s p q (l :: ls) (p :: ms)

theorem Covers.walk {s : Source} {p q : Nat} {ls : List Leaf} (h : s.Covers p q ls) :
    ∃ ms, s.Walk p q ls ms := by
  have htiling := h.tiling
  clear h
  induction ls generalizing p with
  | nil =>
    cases htiling
    exact ⟨[], .done _⟩
  | cons l ls ih =>
    cases hl : l.missing with
    | true =>
      rw [List.filter_cons_of_neg (by simp [hl])] at htiling
      obtain ⟨ms, hms⟩ := ih htiling
      exact ⟨p :: ms, .absent hl hms⟩
    | false =>
      rw [List.filter_cons_of_pos (by simp [hl])] at htiling
      cases htiling with
      | cons head tail =>
        obtain ⟨ms, hms⟩ := ih tail
        exact ⟨ms, .found head hms⟩

namespace Walk
variable {s : Source} {p q : Nat} {l : Leaf} {ls : List Leaf} {ms : List Nat}

theorem le (h : s.Walk p q ls ms) : p ≤ q := by
  induction h with
  | done p => exact Nat.le_refl p
  | found cell _ ih => exact Nat.le_trans (Nat.le_of_lt cell.lt) ih
  | absent _ _ ih => exact ih

theorem bounds (h : s.Walk p q ls ms) : ∀ m ∈ ms, p ≤ m ∧ m ≤ q := by
  induction h with
  | done => exact nofun
  | found cell _ ih => exact fun m hm => ⟨Nat.le_trans (Nat.le_of_lt cell.lt) (ih m hm).1, (ih m hm).2⟩
  | @absent p q _ _ _ _ rest ih => exact List.forall_mem_cons.mpr ⟨⟨Nat.le_refl p, rest.le⟩, ih⟩

theorem ascending (h : s.Walk p q ls ms) : ms.Pairwise (· ≤ ·) := by
  induction h with
  | done => exact .nil
  | found _ _ ih => exact ih
  | absent _ rest ih => exact .cons (fun m hm => (rest.bounds m hm).1) ih

/-- A first leaf that is there takes up a token. -/
theorem exists_rest (h : s.Walk p q (l :: ls) ms) (hl : l.missing = false) :
    ∃ m, p < m ∧ s.Walk m q ls ms := by
  cases h with
  | found cell rest => exact ⟨_, cell.lt, rest⟩
  | absent missing _ =>
    rw [hl] at missing
    cases missing

/-- Missing leaves are reported where the tokens before them end. -/
theorem gaps_eq {text : Text} (hs : Lexed text s) (hq : q ≤ s.size) (h : s.Walk p q ls ms) :
    Leaf.gaps (s.reach p) ls = ms.map s.reach := by
  induction h with
  | done => rfl
  | found cell rest ih =>
    rw [Leaf.gaps_present cell.present, cell.spells.stop hs (Nat.le_trans rest.le hq)]
    exact ih hq
  | absent missing _ ih => rw [Leaf.gaps_missing missing, ih hq, List.map_cons]

/-- A placeholder stands behind the tokens of the leaves before it. -/
theorem behind {before after : List Leaf} (h : s.Walk p q (before ++ l :: after) ms)
    (hl : l.missing = true) : ∃ m, ms[(before.filter (·.missing)).length]? = some m ∧
      Tiling s.Cell p m (before.filter (!·.missing)) := by
  induction before generalizing p ms with
  | nil =>
    cases h with
    | found cell _ =>
      rw [cell.present] at hl
      cases hl
    | absent => exact ⟨p, rfl, .nil p⟩
  | cons b before ih =>
    cases h with
    | found cell rest =>
      obtain ⟨m, hm, htiling⟩ := ih rest
      rw [List.filter_cons_of_neg (by simp [cell.present]),
        List.filter_cons_of_pos (by simp [cell.present])]
      exact ⟨m, hm, .cons cell htiling⟩
    | absent missing rest =>
      obtain ⟨m, hm, htiling⟩ := ih rest
      rw [List.filter_cons_of_pos missing, List.filter_cons_of_neg (by simp [missing])]
      exact ⟨m, hm, htiling⟩

end Walk

/-- What begins with a leaf that is there takes up a token. -/
theorem Anchored.lt {α : Type} {s : Source} {g : Grammar α} {leaves : α → List Leaf}
    (hg : s.Anchored leaves g) : s.Ensures g fun p q _ => p < q := by
  refine hg.mono ?_
  rintro p q a ⟨hcovers, l, ls, ha, hl⟩
  obtain ⟨ms, hwalk⟩ := hcovers.walk
  rw [ha] at hwalk
  obtain ⟨m, hpm, hrest⟩ := hwalk.exists_rest hl
  exact Nat.lt_of_lt_of_le hpm hrest.le

end CommandGrammar.Source
