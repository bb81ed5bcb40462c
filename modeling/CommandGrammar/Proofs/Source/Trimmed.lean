import Mathlib.Data.List.TakeWhile
import CommandGrammar.Proofs.Source.Lexed
import CommandGrammar.Proofs.Token.Trimming

/-! The source of a text without the trivia at its ends. -/
namespace CommandGrammar

namespace Token

/-- The token with its place counted from `origin`, where the trivia of a token that stands there is
left out. -/
def rebase (origin : Nat) (t : Token) : Token :=
  { t with trivia := if t.offset = origin then [] else t.trivia, offset := t.offset - origin }

private theorem PlacedFrom.base_le {base : Nat} {ts : List Token} (h : PlacedFrom base ts)
    {t : Token} (ht : t ∈ ts) : base ≤ t.offset := by
  obtain ⟨before, after, rfl⟩ := List.append_of_mem ht
  rw [h.offset]
  exact Nat.le_add_right _ _

/-- Each token lies behind the first one. -/
private theorem PlacedFrom.lt {base : Nat} {t : Token} {ts : List Token}
    (h : PlacedFrom base (t :: ts)) (hne : t.text ≠ []) {u : Token} (hu : u ∈ ts) :
    t.offset < u.offset := by
  obtain ⟨hoffset, hrest⟩ := h
  have hle := hrest.base_le hu
  have hpos := Text.byteSize_pos hne
  rw [fullText, Text.byteSize_append] at hle
  omega

end Token

namespace Source

/-- The text from the first to the last token. -/
def trimmedText (s : Source) : Text :=
  match s.front with
  | [] => []
  | t :: ts => t.text ++ ts.flatMap Token.fullText

theorem front_ofText {text : Text} {front : List Token} {final : Token}
    (h : Token.ofText text = front ++ [final]) : (ofText text).front = front := by
  rw [← tokens_ofText, tokens] at h
  exact (List.append_inj_left' h rfl)

namespace Lexed
variable {text : Text} {s : Source} {p : Nat}

/-- The window at the beginning shows all tokens. -/
theorem window_zero (hs : Lexed text s) : s.window 0 = ⟨0, s.front, s.final.offset⟩ := by
  have hall : ∀ t ∈ s.front, (!t.isEnd) = true := by
    intro t ht
    rw [Bool.not_eq_true', Token.isEnd, beq_eq_false_iff_ne]
    exact (hs.solid t ht).ne_end
  rw [window, List.drop_zero, List.takeWhile_eq_self_iff.mpr hall,
    List.dropWhile_eq_nil_iff.mpr hall]
  rfl

/-- Each token lies behind the one at the beginning. -/
theorem offsetAt_zero_lt (hs : Lexed text s) {t : Token} (ht : t ∈ s.front.tail) :
    s.offsetAt 0 < t.offset := by
  have hplaced := hs.placed
  cases hfront : s.front with
  | nil =>
    rw [hfront] at ht
    cases ht
  | cons u ts =>
    have hu : u.text ≠ [] := (hs.solid u (hfront ▸ List.mem_cons_self)).ne_nil
    rw [tokens, hfront, List.cons_append] at hplaced
    rw [hfront] at ht
    rw [offsetAt, peek_of_drop_cons (by rw [List.drop_zero, hfront])]
    exact hplaced.lt hu (List.mem_append_left _ ht)

theorem offsetAt_zero_lt_offsetAt (hs : Lexed text s) (hpos : 0 < p) (hp : p < s.size) :
    s.offsetAt 0 < s.offsetAt p := by
  refine hs.offsetAt_zero_lt ?_
  obtain ⟨i, rfl⟩ := Nat.exists_eq_succ_of_ne_zero (Nat.ne_of_gt hpos)
  rw [peek, List.getD_eq_getElem?_getD, List.getElem?_eq_getElem hp, Option.getD_some]
  have hi : i < s.front.tail.length := by
    rw [List.length_tail]
    exact Nat.lt_sub_of_add_lt hp
  exact List.mem_of_getElem (List.getElem_tail hi)

end Lexed

/-- From the trimmed text the same tokens are read, with their places counted from the first one. -/
theorem front_trimmed (text : Text) :
    (ofText (ofText text).trimmedText).front =
        (ofText text).front.map (Token.rebase ((ofText text).offsetAt 0)) ∧
      (ofText (ofText text).trimmedText).offsetAt 0 = 0 := by
  have hs := lexed_ofText text
  have htokens := tokens_ofText text
  cases hfront : (ofText text).front with
  | nil =>
    have htrimmed : (ofText text).trimmedText = [] := by rw [trimmedText, hfront]
    have hempty : Token.ofText [] = [] ++ [.atEnd [] 0] := by
      rw [Token.ofText, Piece.cut]
      rfl
    rw [htrimmed, ofText, hempty, ofTokens_concat [] rfl]
    exact ⟨rfl, rfl⟩
  | cons t ts =>
    have htrimmed : (ofText text).trimmedText = t.text ++ ts.flatMap Token.fullText := by
      rw [trimmedText, hfront]
    have horigin : (ofText text).offsetAt 0 = t.offset := by
      rw [offsetAt, peek_of_drop_cons (by rw [List.drop_zero, hfront])]
    have hlater (u : Token) (hu : u ∈ ts) : u.lower t.offset = u.rebase t.offset := by
      have hlt := hs.offsetAt_zero_lt (hfront ▸ hu : u ∈ (ofText text).front.tail)
      rw [horigin] at hlt
      rw [Token.lower, Token.rebase, if_neg (Nat.ne_of_gt hlt)]
    rw [tokens, hfront, List.cons_append] at htokens
    obtain ⟨offset, hread⟩ := Token.ofText_trimmed htokens.symm
    rw [← htrimmed, ← List.cons_append] at hread
    have hfront' := front_ofText hread
    constructor
    · rw [hfront', horigin, List.map_cons, List.map_congr_left hlater, Token.rebase, if_pos rfl,
        Nat.sub_self]
    · rw [offsetAt, peek_of_drop_cons (by rw [List.drop_zero, hfront'])]

end Source
end CommandGrammar
