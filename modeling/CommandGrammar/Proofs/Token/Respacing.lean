import CommandGrammar.Proofs.Token.Locality
import CommandGrammar.Proofs.Token.Solids
import CommandGrammar.Proofs.Token.Tiling

/-! The tokens of a text do not depend on what stands between them: written one below the other they
are read again as they were. -/
namespace CommandGrammar

namespace Piece
open Token.Lexicon

/-- A line feed between two tokens. -/
def newline : Piece := ⟨.whitespace, ['\n']⟩

/-- Tokens, each of which is what is to be read before some rest; that is there if another token comes
behind. -/
inductive Standing : List Piece → Prop
  | nil : Standing []
  | cons {p : Piece} {ps : List Piece} {u : Text} (head : Munch (p.text ++ u) p.kind p.text)
      (kind : p.kind.isTrivia = false) (start : ∀ c ∈ p.text.head?, isSpace c = false)
      (rest : ps ≠ [] → u ≠ []) (tail : Standing ps) : Standing (p :: ps)

private theorem Munches.standing {s : Text} {ps : List Piece} (h : Munches s ps)
    (tidy : ∀ p ∈ ps, p.Tidy) : Standing (solids ps) := by
  induction h with
  | nil => exact .nil
  | @cons k t rest ps head tail ih =>
    obtain ⟨hp, hps⟩ := List.forall_mem_cons.mp tidy
    cases hk : k.isTrivia with
    | true =>
      rw [solids, List.filter_cons_of_neg (by simp [hk])]
      exact ih hps
    | false =>
      rw [solids, List.filter_cons_of_pos (by simp [hk])]
      refine .cons head hk (fun c hc => ?_) (fun hne => ?_) (ih hps)
      · rw [Bool.eq_false_iff]
        intro hspace
        exact (hp.token hk).1 c hc (mem_spaces_of_isSpace hspace)
      · rintro rfl
        rw [tail.eq_cut, cut] at hne
        exact hne rfl

/-- What is read of a text as a whole is its only piece. -/
private theorem Munch.munches {t : Text} {k : Kind} (h : Munch t k t) : Munches t [⟨k, t⟩] := by
  have hone : Munches (t ++ []) [⟨k, t⟩] := .cons (by rwa [List.append_nil]) .nil
  rwa [List.append_nil] at hone

private theorem head?_intercalate {t : Text} (ht : t ≠ []) (sep : Text) (ts : List Text) :
    (sep.intercalate (t :: ts)).head? = t.head? := by
  cases ts with
  | nil => rw [List.intercalate_singleton]
  | cons t' ts =>
    obtain ⟨c, t, rfl⟩ := List.exists_cons_of_ne_nil ht
    rw [List.intercalate_cons_cons, List.append_assoc]
    rfl

/-- Each of the tokens is what is read of its text alone. -/
private theorem Standing.alone {ps : List Piece} (h : Standing ps) {p : Piece} (hp : p ∈ ps) :
    Munch p.text p.kind p.text ∧ p.kind.isTrivia = false := by
  induction h with
  | nil => cases hp
  | @cons q ps u head kind _ _ _ ih =>
    rcases List.mem_cons.mp hp with rfl | hp
    · exact ⟨head.shorten (List.prefix_append p.text u) (List.prefix_refl _), kind⟩
    · exact ih hp

/-- Tokens are what is read of their texts with line feeds between them. -/
private theorem Standing.munches {ps : List Piece} (h : Standing ps) :
    Munches (['\n'].intercalate (ps.map Piece.text)) (ps.intersperse newline) := by
  induction h with
  | nil => exact .nil
  | @cons p ps u head kind _ rest tail ih =>
    cases tail with
    | nil =>
      have halone := head.shorten (List.prefix_append p.text u) (List.prefix_refl _)
      rw [List.map_singleton, List.intercalate_singleton]
      exact halone.munches
    | @cons q ps u' head' _ start' _ _ =>
      rw [List.map_cons, List.map_cons, List.intercalate_cons_cons, List.intersperse_cons_cons,
        List.append_assoc]
      refine .cons (head.before_newline (rest (List.cons_ne_nil _ _)) kind _)
        (.cons (munch_newline fun c hc => start' c ?_) ih)
      rwa [head?_intercalate head'.ne_nil] at hc

private theorem solids_intersperse {ps : List Piece} (h : Standing ps) :
    solids (ps.intersperse newline) = ps := by
  induction h with
  | nil => rfl
  | @cons p ps _ _ kind _ _ tail ih =>
    have hp : solids (p :: ps.intersperse newline) = p :: ps := by
      rw [solids, List.filter_cons_of_pos (by simp [kind]), ← solids, ih]
    cases tail with
    | nil => exact hp
    | cons =>
      rw [List.intersperse_cons_cons, solids, List.filter_cons_of_pos (by simp [kind]),
        List.filter_cons_of_neg (by decide), ← solids, ih]

end Piece

namespace Token
open Piece

/-- The tokens before the end marker, one below the other. -/
def respaced (ts : List Token) : Text := ['\n'].intercalate (ts.dropLast.map Token.text)

/-- With line feeds between the pieces, each token but the first has one before it, and the end marker
has none. -/
private theorem trivia_ofPieces {p : Piece} {ps : List Piece} (h : Standing (p :: ps))
    (offset : Nat) (trivia : Text) {before after : List Token} {t : Token}
    (ht : ofPieces offset trivia ((p :: ps).intersperse newline) = before ++ t :: after) :
    t.trivia = if after = [] then [] else if before = [] then trivia else ['\n'] := by
  induction ps generalizing p offset trivia before with
  | nil =>
    cases h with
    | cons _ kind _ _ _ =>
      simp only [List.intersperse_singleton, ofPieces, kind, Bool.false_eq_true, if_false] at ht
      rcases before with _ | ⟨b, _ | ⟨b', before⟩⟩
      · cases ht
        rfl
      · cases ht
        rfl
      · simp at ht
  | cons q ps ih =>
    cases h with
    | cons _ kind _ _ tail =>
      simp only [List.intersperse_cons_cons, ofPieces, kind, Bool.false_eq_true, if_false,
        show newline.kind.isTrivia = true from rfl, if_true, List.nil_append] at ht
      cases before with
      | nil =>
        obtain ⟨rfl, rfl⟩ := List.cons.inj ht
        rw [if_neg (ofPieces_ne_nil _ _ _), if_pos rfl]
      | cons b before =>
        have hrest := ih tail _ _ (List.cons.inj ht).2
        rw [hrest, show newline.text = ['\n'] from rfl, ite_self, if_neg (List.cons_ne_nil b before)]

private theorem standing_cut (text : Text) : Standing (solids (cut text)) :=
  (munches_cut text).standing fun _ => tidy_of_mem_cut

/-- With each on a line of its own the tokens are the pieces that they were. -/
private theorem cut_respaced (text : Text) :
    cut (respaced (ofText text)) = (solids (cut text)).intersperse newline := by
  have htexts : (ofText text).dropLast.map Token.text = (solids (cut text)).map Piece.text := by
    have hsnd := congrArg (List.map Prod.snd) (map_dropLast_ofText text)
    rwa [List.map_map, List.map_map] at hsnd
  rw [respaced, htexts]
  exact (standing_cut text).munches.eq_cut.symm

/-- A text that is read as a whole is one token. -/
theorem ofText_of_munch {t : Text} {k : Kind} (h : Munch t k t) (hk : k.isTrivia = false) :
    ofText t = [⟨k, [], t, 0⟩, .atEnd [] t.byteSize] := by
  rw [ofText, ← h.munches.eq_cut, ofPieces, if_neg (by simp [hk]), ofPieces, Nat.zero_add]

/-- A token is what is to be read of its own text. -/
theorem munch_text {text : Text} {t : Token} (h : t ∈ (ofText text).dropLast) :
    Munch t.text t.kind t.text ∧ t.kind.isTrivia = false := by
  have hmem : (t.kind, t.text) ∈ (solids (cut text)).map (fun p => (p.kind, p.text)) := by
    rw [← map_dropLast_ofText]
    exact List.mem_map_of_mem h
  obtain ⟨p, hp, heq⟩ := List.mem_map.mp hmem
  obtain ⟨hkind, htext⟩ := Prod.mk.inj heq
  rw [← hkind, ← htext]
  exact (standing_cut text).alone hp

/-- A token is read again from its own text. -/
theorem ofText_text {text : Text} {t : Token} (h : t ∈ (ofText text).dropLast) :
    ofText t.text = [⟨t.kind, [], t.text, 0⟩, .atEnd [] t.text.byteSize] :=
  ofText_of_munch (munch_text h).1 (munch_text h).2

/-- Reading the tokens of a text again, each on a line of its own, gives the same kinds and texts. Of
the tokens read again only the first and the end marker have no line feed before them. The text of
each token by itself is read as that token. -/
theorem ofText_respaced (text : Text) :
    (ofText (respaced (ofText text))).map (fun t => (t.kind, t.text)) =
      (ofText text).map (fun t => (t.kind, t.text)) ∧
    (∀ before t after, ofText (respaced (ofText text)) = before ++ t :: after →
      t.trivia = if before = [] ∨ after = [] then [] else ['\n']) ∧
    ∀ t ∈ (ofText text).dropLast,
      ofText t.text = [⟨t.kind, [], t.text, 0⟩, .atEnd [] t.text.byteSize] := by
  refine ⟨?_, ?_, fun t ht => ofText_text ht⟩
  · rw [map_ofText, cut_respaced, solids_intersperse (standing_cut text), map_ofText]
  · intro before t after h
    rw [ofText, cut_respaced] at h
    have hstanding := standing_cut text
    cases hps : solids (cut text) with
    | nil =>
      rw [hps] at h
      cases before with
      | nil =>
        cases h
        rfl
      | cons b before => simp [ofPieces] at h
    | cons p ps =>
      rw [hps] at h hstanding
      rw [trivia_ofPieces hstanding 0 [] h]
      by_cases hafter : after = []
      · rw [if_pos hafter, if_pos (.inr hafter)]
      · simp only [hafter, if_false, or_false]

end Token
end CommandGrammar
