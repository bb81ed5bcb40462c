import CommandGrammar.Proofs.Token.Locality
import CommandGrammar.Proofs.Token.Solids

/-! Trivia at the ends of a text has no part in its tokens: without it they are read as before and lie
so much nearer to the beginning. -/
namespace CommandGrammar

namespace Piece

private theorem Munches.flatMap_text {s : Text} {ps : List Piece} (h : Munches s ps) :
    ps.flatMap Piece.text = s := by
  rw [h.eq_cut, flatMap_text_cut]

/-- A run of pieces is what is read of its own text. -/
private theorem Munches.split {s : Text} {ps qs : List Piece} (h : Munches s (ps ++ qs)) :
    Munches (ps.flatMap Piece.text) ps ∧ Munches (qs.flatMap Piece.text) qs := by
  induction ps generalizing s with
  | nil =>
    rw [List.nil_append] at h
    refine ⟨.nil, ?_⟩
    rwa [h.flatMap_text]
  | cons p ps ih =>
    cases h with
    | @cons k t rest _ head tail =>
      obtain ⟨hps, hqs⟩ := ih tail
      have hrest : (ps ++ qs).flatMap Piece.text = rest := tail.flatMap_text
      have hshort : t ++ ps.flatMap Piece.text <+: t ++ rest := by
        rw [← hrest, List.flatMap_append, ← List.append_assoc]
        exact List.prefix_append _ _
      exact ⟨.cons (head.shorten hshort (List.prefix_append _ _)) hps, hqs⟩

end Piece

namespace Token
open Piece

/-- The token so much nearer to the beginning. -/
def lower (distance : Nat) (t : Token) : Token := { t with offset := t.offset - distance }

private theorem ofPieces_lower (distance offset : Nat) (trivia : Text) (ps : List Piece) :
    (ofPieces (distance + offset) trivia ps).map (lower distance) = ofPieces offset trivia ps := by
  induction ps generalizing offset trivia with
  | nil => simp only [ofPieces, List.map_cons, List.map_nil, lower, atEnd, Nat.add_sub_cancel_left]
  | cons p ps ih =>
    rw [ofPieces, ofPieces]
    split
    · rw [Nat.add_assoc, ih]
    · rw [List.map_cons, Nat.add_assoc, ih, lower, Nat.add_sub_cancel_left]

/-- The first token is a piece, and the others are made of the pieces behind it. -/
private theorem ofPieces_eq_cons {offset : Nat} {trivia : Text} {ps : List Piece} {t : Token}
    {ts : List Token} (h : ofPieces offset trivia ps = t :: ts) (hts : ts ≠ []) :
    ∃ lead rest, ps = lead ++ ⟨t.kind, t.text⟩ :: rest ∧ t.kind.isTrivia = false ∧
      ts = ofPieces (t.offset + t.text.byteSize) [] rest := by
  induction ps generalizing offset trivia with
  | nil =>
    cases h
    exact absurd rfl hts
  | cons p ps ih =>
    rw [ofPieces] at h
    cases hk : p.kind.isTrivia with
    | true =>
      rw [hk, if_pos rfl] at h
      obtain ⟨lead, rest, hps, hkind, hrest⟩ := ih h
      exact ⟨p :: lead, rest, by rw [hps, List.cons_append], hkind, hrest⟩
    | false =>
      rw [hk, if_neg Bool.false_ne_true] at h
      cases h
      exact ⟨[], ps, rfl, hk, rfl⟩

/-- Where no trivia was left over from before, there is none for the end marker. -/
private theorem ofPieces_nil_eq {offset : Nat} {mid : List Piece} {ts : List Token}
    (h : mid = [] ∧ ts = [] ∨ ∃ offset', ofPieces offset [] mid = ts ++ [.atEnd [] offset']) :
    ∃ offset', ofPieces offset [] mid = ts ++ [.atEnd [] offset'] := by
  rcases h with ⟨rfl, rfl⟩ | h
  · exact ⟨offset, rfl⟩
  · exact h

/-- Some of the pieces make the same tokens and leave no trivia for the end marker. Trivia from before
may be left over if there are no tokens. -/
private theorem exists_ofPieces_eq {offset : Nat} {trivia : Text} {ps : List Piece}
    {ts : List Token} {final : Token} (h : ofPieces offset trivia ps = ts ++ [final]) :
    ∃ mid trail, ps = mid ++ trail ∧
      (mid = [] ∧ ts = [] ∨ ∃ offset', ofPieces offset trivia mid = ts ++ [.atEnd [] offset']) := by
  induction ps generalizing offset trivia ts with
  | nil =>
    have hts : ts = [] := by
      have hlength := congrArg List.length h
      rw [List.length_append] at hlength
      exact List.eq_nil_of_length_eq_zero (Nat.succ.inj hlength).symm
    exact ⟨[], [], rfl, .inl ⟨rfl, hts⟩⟩
  | cons p ps ih =>
    rw [ofPieces] at h
    cases hk : p.kind.isTrivia with
    | true =>
      rw [hk, if_pos rfl] at h
      obtain ⟨mid, trail, hps, ⟨-, hts⟩ | ⟨offset', hmid⟩⟩ := ih h
      · exact ⟨[], p :: ps, rfl, .inl ⟨rfl, hts⟩⟩
      · refine ⟨p :: mid, trail, by rw [hps, List.cons_append], .inr ⟨offset', ?_⟩⟩
        rw [ofPieces, if_pos hk, hmid]
    | false =>
      rw [hk, if_neg Bool.false_ne_true] at h
      cases ts with
      | nil => exact absurd (List.cons.inj h).2 (ofPieces_ne_nil _ _ _)
      | cons t ts =>
        obtain ⟨ht, hrest⟩ := List.cons.inj h
        obtain ⟨mid, trail, hps, hmid⟩ := ih hrest
        obtain ⟨offset', hmid⟩ := ofPieces_nil_eq hmid
        refine ⟨p :: mid, trail, by rw [hps, List.cons_append], .inr ⟨offset', ?_⟩⟩
        rw [ofPieces, if_neg (by simp [hk]), hmid, ht, List.cons_append]

/-- Without the trivia at its ends a text has the same tokens, the first one at the beginning. -/
theorem ofText_trimmed {text : Text} {t final : Token} {ts : List Token}
    (h : ofText text = t :: (ts ++ [final])) :
    ∃ offset, ofText (t.text ++ ts.flatMap fullText) =
      ⟨t.kind, [], t.text, 0⟩ :: (ts.map (lower t.offset) ++ [.atEnd [] offset]) := by
  obtain ⟨lead, rest, hcut, hkind, hrest⟩ := ofPieces_eq_cons h (by simp)
  obtain ⟨mid, trail, hsplit, hmid⟩ := exists_ofPieces_eq hrest.symm
  obtain ⟨offset', hmid⟩ := ofPieces_nil_eq hmid
  have hread : Munches ((⟨t.kind, t.text⟩ :: mid).flatMap Piece.text) (⟨t.kind, t.text⟩ :: mid) := by
    have hall := munches_cut text
    rw [hcut, hsplit] at hall
    have hbehind : Munches _ ((⟨t.kind, t.text⟩ :: mid) ++ trail) := hall.split.2
    exact hbehind.split.1
  have htext : (⟨t.kind, t.text⟩ :: mid).flatMap Piece.text = t.text ++ ts.flatMap fullText := by
    have hfull := flatMap_fullText_ofPieces (t.offset + t.text.byteSize) [] mid
    rw [hmid, List.flatMap_append, List.flatMap_singleton, fullText, atEnd, List.append_nil,
      List.append_nil, List.nil_append] at hfull
    rw [List.flatMap_cons, hfull]
  rw [htext] at hread
  refine ⟨offset' - t.offset, ?_⟩
  rw [ofText, ← hread.eq_cut, ofPieces, if_neg (by simp [hkind]), Nat.zero_add,
    ← ofPieces_lower t.offset, hmid, List.map_append]
  rfl

end Token
end CommandGrammar
