import CommandGrammar.Token.Piece

/-! Nothing of a text is lost in its pieces or in its tokens. -/
namespace CommandGrammar

namespace Piece

theorem flatMap_text_cut (s : Text) : (cut s).flatMap Piece.text = s := by
  fun_induction cut s with
  | case1 => rfl
  | case2 c rest kind n h ih =>
    rw [List.flatMap_cons, ih, List.cons_append, List.take_append_drop]

/-- A piece is not empty. -/
theorem text_ne_nil_of_mem_cut {s : Text} {p : Piece} (h : p ∈ cut s) : p.text ≠ [] := by
  fun_induction cut s with
  | case1 => cases h
  | case2 c rest kind n _ ih =>
    rcases List.mem_cons.mp h with rfl | h
    · exact List.cons_ne_nil _ _
    · exact ih h

end Piece

namespace Token

theorem flatMap_fullText_ofPieces (offset : Nat) (trivia : Text) (ps : List Piece) :
    (ofPieces offset trivia ps).flatMap fullText = trivia ++ ps.flatMap Piece.text := by
  induction ps generalizing offset trivia with
  | nil =>
    rw [ofPieces, List.flatMap_cons, fullText, atEnd, List.flatMap_nil, List.append_nil,
      List.flatMap_nil]
  | cons p ps ih =>
    unfold ofPieces
    split
    · rw [ih, List.flatMap_cons, List.append_assoc]
    · rw [List.flatMap_cons, ih, fullText, List.flatMap_cons, List.append_assoc, List.nil_append]

/-- Trivia and text of all tokens give back what was read. -/
theorem flatMap_fullText_ofText (s : Text) : (ofText s).flatMap fullText = s := by
  rw [ofText, flatMap_fullText_ofPieces, Piece.flatMap_text_cut, List.nil_append]

end Token
end CommandGrammar
