import CommandGrammar.Token.Piece

/-! The tokens of a text are its pieces that are no trivia. -/
namespace CommandGrammar

namespace Piece

/-- The pieces that are tokens. -/
def solids (ps : List Piece) : List Piece := ps.filter (!·.kind.isTrivia)

end Piece

namespace Token
open Piece

/-- Joining trivia to tokens changes neither kinds nor texts. -/
private theorem map_ofPieces (offset : Nat) (trivia : Text) (ps : List Piece) :
    (ofPieces offset trivia ps).map (fun t => (t.kind, t.text)) =
      (solids ps).map (fun p => (p.kind, p.text)) ++ [(.endOfText, [])] := by
  induction ps generalizing offset trivia with
  | nil => rfl
  | cons p ps ih =>
    rw [ofPieces]
    cases hk : p.kind.isTrivia with
    | true =>
      rw [if_pos rfl, ih, solids, solids, List.filter_cons_of_neg (by simp [hk])]
    | false =>
      rw [if_neg Bool.false_ne_true, List.map_cons, ih, solids, solids,
        List.filter_cons_of_pos (by simp [hk]), List.map_cons, List.cons_append]

theorem ofPieces_ne_nil (offset : Nat) (trivia : Text) (ps : List Piece) :
    ofPieces offset trivia ps ≠ [] := by
  intro h
  have hmap := map_ofPieces offset trivia ps
  rw [h] at hmap
  simp at hmap

/-- The tokens of a text are those of its pieces that are no trivia. -/
theorem map_ofText (text : Text) :
    (ofText text).map (fun t => (t.kind, t.text)) =
      (solids (cut text)).map (fun p => (p.kind, p.text)) ++ [(.endOfText, [])] :=
  map_ofPieces 0 [] (cut text)

theorem map_dropLast_ofText (text : Text) :
    (ofText text).dropLast.map (fun t => (t.kind, t.text)) =
      (solids (cut text)).map (fun p => (p.kind, p.text)) := by
  rw [List.map_dropLast, map_ofText, List.dropLast_concat]

end Token
end CommandGrammar
