import CommandGrammar.Proofs.Source.Lexed
import CommandGrammar.Proofs.Token.Solids

/-! What a source shows from a position on, by kinds and texts of tokens. -/
namespace CommandGrammar.Source
open Piece
variable {s : Source} {p : Nat}

/-- From a position on the source has tokens of these kinds and texts. -/
def Shows (s : Source) : Nat → List Piece → Prop
  | _, [] => True
  | p, x :: xs =>
    (s.isEnd p = false ∧ (s.peek p).kind = x.kind ∧ (s.peek p).text = x.text) ∧ s.Shows (p + 1) xs

theorem shows_append {xs ys : List Piece} :
    s.Shows p (xs ++ ys) ↔ s.Shows p xs ∧ s.Shows (p + xs.length) ys := by
  induction xs generalizing p with
  | nil => simp only [List.nil_append, List.length_nil, Nat.add_zero, Shows, true_and]
  | cons x xs ih =>
    have hp : p + 1 + xs.length = p + (x :: xs).length := by
      rw [List.length_cons]
      omega
    rw [List.cons_append, Shows, Shows, ih, hp]
    exact and_assoc.symm

private theorem shows_of_drop {xs : List Piece} (hend : ∀ t ∈ s.front, t.isEnd = false)
    (h : (s.front.drop p).map (fun t => (t.kind, t.text)) = xs.map fun x => (x.kind, x.text)) :
    s.Shows p xs := by
  induction xs generalizing p with
  | nil => trivial
  | cons x xs ih =>
    cases hd : s.front.drop p with
    | nil =>
      rw [hd] at h
      cases h
    | cons t ts =>
      rw [hd, List.map_cons, List.map_cons] at h
      obtain ⟨hx, hxs⟩ := List.cons.inj h
      obtain ⟨hkind, htext⟩ := Prod.mk.inj hx
      have hmem : t ∈ s.front := List.mem_of_mem_drop (hd ▸ List.mem_cons_self)
      have hts : s.front.drop (p + 1) = ts := by
        rw [← List.drop_drop, hd, List.drop_one, List.tail_cons]
      have hpeek := peek_of_drop_cons hd
      refine ⟨⟨?_, ?_, ?_⟩, ih (by rw [hts, hxs])⟩
      · rw [isEnd, hpeek, hend t hmem]
      · rw [hpeek, hkind]
      · rw [hpeek, htext]

/-- The source of a text shows the pieces of the text that are no trivia, and then its end. -/
theorem shows_ofText {text : Text} {xs : List Piece} (h : solids (cut text) = xs) :
    (ofText text).Shows 0 xs ∧ (ofText text).size = xs.length := by
  subst h
  have hs := lexed_ofText text
  have hfront : (ofText text).front.map (fun t => (t.kind, t.text)) =
      (solids (cut text)).map fun x => (x.kind, x.text) := by
    rw [← Token.map_dropLast_ofText, ← tokens_ofText, tokens, List.dropLast_concat]
  constructor
  · refine shows_of_drop (fun t ht => ?_) hfront
    exact beq_eq_false_iff_ne.mpr (hs.solid t ht).ne_end
  · have hlen := congrArg List.length hfront
    rwa [List.length_map, List.length_map] at hlen

theorem parse_satisfy_of_accepts {accepts : Token → Bool} (hend : s.isEnd p = false)
    (h : accepts (s.peek p) = true) :
    s.parse (.satisfy accepts) p = some (.ofToken (s.peek p), p + 1) := by
  rw [parse_satisfy, if_pos ⟨hend, h⟩]

theorem parse_satisfy_of_refuses {accepts : Token → Bool} (h : accepts (s.peek p) = false) :
    s.parse (.satisfy accepts) p = none := by
  rw [parse_satisfy, h]
  exact if_neg fun hp => Bool.false_ne_true hp.2

end CommandGrammar.Source
