import CommandGrammar.Proofs.Source.Parse
import CommandGrammar.Proofs.Text.Bytes
import CommandGrammar.Proofs.Token.Tiling

/-! Sources that were read off a text: a position in the source is a position in the text. -/
namespace CommandGrammar.Source

/-- The tokens of the source lie on the text one behind the other, and the end marker stands last. -/
structure Lexed (text : Text) (s : Source) : Prop where
  whole : s.tokens.flatMap Token.fullText = text
  blank : s.final.text = []
  solid : ∀ t ∈ s.front, t.Solid
  placed : Token.PlacedFrom 0 s.tokens

/-- An end marker at the end of the tokens is taken over. -/
theorem ofTokens_concat (front : List Token) {t : Token} (h : t.isEnd = true) :
    ofTokens (front ++ [t]) = ⟨front, t, h⟩ := by
  unfold ofTokens
  split
  · next hlast =>
    rw [List.getLast?_concat] at hlast
    cases hlast
  · next u hlast =>
    rw [List.getLast?_concat] at hlast
    cases hlast
    rw [dif_pos h]
    simp only [List.dropLast_concat]

/-- The source of a text has the tokens of the text. -/
theorem tokens_ofText (text : Text) : (ofText text).tokens = Token.ofText text := by
  obtain ⟨front, final, heq, -, -⟩ := Token.ofText_eq text
  rw [ofText, heq, ofTokens_concat front rfl]
  rfl

theorem lexed_ofText (text : Text) : Lexed text (ofText text) := by
  obtain ⟨front, final, heq, hfront, -⟩ := Token.ofText_eq text
  have hwhole := Token.flatMap_fullText_ofText text
  have hplaced := Token.placedFrom_ofText text
  rw [← tokens_ofText] at hwhole hplaced
  rw [ofText, heq, ofTokens_concat front rfl] at hwhole hplaced ⊢
  exact ⟨hwhole, rfl, fun t ht => (hfront t ht).1, hplaced⟩

theorem slice_zero {s : Source} {p : Nat} (h : p ≤ s.size) : s.slice 0 p = s.front.take p := by
  apply List.ext_getElem
  · rw [length_slice, List.length_take]
    exact (Nat.min_eq_left h).symm
  · intro i hi hi'
    rw [List.length_take] at hi'
    have hfront : i < s.front.length := by omega
    simp only [slice, List.getElem_map, List.getElem_range', List.getElem_take, peek,
      List.getD_eq_getElem?_getD, Nat.zero_add, Nat.one_mul]
    rw [List.getElem?_eq_getElem hfront, Option.getD_some]

/-- A position divides the tokens into those before it, the one there and the others. -/
private theorem tokens_split {s : Source} {p : Nat} (h : p ≤ s.size) :
    ∃ rest, s.tokens = s.slice 0 p ++ s.peek p :: rest := by
  rw [slice_zero h, tokens]
  cases hd : s.front.drop p with
  | nil =>
    rw [peek_of_drop_nil hd, List.take_of_length_le (List.drop_eq_nil_iff.mp hd)]
    exact ⟨[], rfl⟩
  | cons t ts =>
    rw [peek_of_drop_cons hd]
    refine ⟨ts ++ [s.final], ?_⟩
    conv => lhs; rw [← List.take_append_drop p s.front, hd]
    rw [List.append_assoc, List.cons_append]

namespace Lexed
variable {text : Text} {s : Source} {p : Nat}

theorem peek_solid (h : Lexed text s) (hp : p < s.size) : (s.peek p).Solid := by
  rw [peek, List.getD_eq_getElem?_getD, List.getElem?_eq_getElem hp, Option.getD_some]
  exact h.solid _ (List.getElem_mem hp)

/-- Only the positions behind all tokens have the end marker. -/
theorem isEnd_iff (h : Lexed text s) : s.isEnd p = true ↔ s.size ≤ p := by
  constructor
  · intro he
    apply Nat.le_of_not_lt
    intro hp
    exact (h.peek_solid hp).ne_end (eq_of_beq he)
  · intro hp
    rw [isEnd, peek_of_drop_nil (List.drop_eq_nil_iff.mpr hp)]
    exact s.final_isEnd

theorem lt_size (h : Lexed text s) (hend : s.isEnd p = false) : p < s.size := by
  apply Nat.lt_of_not_le
  intro hle
  rw [h.isEnd_iff.mpr hle] at hend
  cases hend

/-- A mark may be looked for by its text or by its kind. -/
theorem parse_text (h : Lexed text s) {k : Kind} {x : Text} (hk : k.fixedText? = some x) :
    s.parse (.text x) p = s.parse (.kind k) p := by
  have hiff : (s.isEnd p = false ∧ ((s.peek p).text == x) = true) ↔
      (s.isEnd p = false ∧ ((s.peek p).kind == k) = true) := by
    refine and_congr_right fun hend => ?_
    rw [beq_iff_eq, beq_iff_eq, (h.peek_solid (h.lt_size hend)).spelling k x hk]
  simp only [Grammar.text, Grammar.kind, parse_satisfy, hiff]

/-- The text begins with the tokens before a position and goes on with the one there. -/
theorem text_eq (h : Lexed text s) (hp : p ≤ s.size) :
    ∃ rest, text =
      (s.slice 0 p).flatMap Token.fullText ++ ((s.peek p).trivia ++ ((s.peek p).text ++ rest)) := by
  obtain ⟨rest, hrest⟩ := tokens_split hp
  refine ⟨rest.flatMap Token.fullText, ?_⟩
  rw [← h.whole, hrest, List.flatMap_append, List.flatMap_cons, Token.fullText, List.append_assoc]

theorem offsetAt_eq (h : Lexed text s) (hp : p ≤ s.size) :
    s.offsetAt p =
      Text.byteSize ((s.slice 0 p).flatMap Token.fullText) + (s.peek p).trivia.byteSize := by
  obtain ⟨rest, hrest⟩ := tokens_split hp
  have hplaced := h.placed
  rw [hrest] at hplaced
  rw [offsetAt, hplaced.offset, Text.byteSize_append, Nat.zero_add]

theorem offsetAt_le (h : Lexed text s) (hp : p ≤ s.size) : s.offsetAt p ≤ text.byteSize := by
  obtain ⟨rest, hrest⟩ := h.text_eq hp
  have hsize := congrArg Text.byteSize hrest
  simp only [Text.byteSize_append] at hsize
  rw [h.offsetAt_eq hp]
  omega

end Lexed
end CommandGrammar.Source
