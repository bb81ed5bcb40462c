import CommandGrammar.Proofs.Grammar.Decided
import CommandGrammar.Proofs.Rule.Coverage

/-! Bracketed strings on any source. A run goes on from its opening bracket for as long as the tokens
allow it, and takes in a closing bracket if one stands where it ends. -/
namespace CommandGrammar

/-- A repetition of single tokens takes all of them up to the first that is not wanted. -/
theorem Source.Ensures.many_satisfy {s : Source} (accepts : Token → Bool) :
    s.Ensures (Grammar.many (.satisfy accepts)) fun p q _ => p ≤ q ∧
      (∀ i, p ≤ i → i < q → s.isEnd i = false ∧ accepts (s.peek i) = true) ∧
      ¬ (s.isEnd q = false ∧ accepts (s.peek q) = true) := by
  intro p q ls h
  refine ⟨parse_le h, ?_, ?_⟩
  · refine (Ensures.many (Ensures.satisfy accepts) (Q := fun p q _ => ∀ i, p ≤ i → i < q →
      s.isEnd i = false ∧ accepts (s.peek i) = true) (fun p i hp hq => by omega) ?_) h
    rintro p m q l ls ⟨hend, haccepts, rfl, -⟩ hrest i hp hq
    rcases Nat.eq_or_lt_of_le hp with rfl | hlt
    · exact ⟨hend, haccepts⟩
    · exact hrest i hlt hq
  · intro hq
    have hone : s.parse (.satisfy accepts) q = some (.ofToken (s.peek q), q + 1) := by
      rw [parse_satisfy, if_pos hq]
    exact Nat.succ_ne_self q (parse_many_rests h hone)

/-- No token of a run is a bracket, nor has any a line break unless the run may go over several lines. -/
theorem Fragment.isRunToken_iff {multiline : Bool} {t : Token} :
    isRunToken multiline t = true ↔ (t.text ≠ [']'] ∧ t.text ≠ ['[']) ∧
      (multiline = true ∨ t.fullText.hasLineBreak = false) := by
  rw [isRunToken, Token.fullText, Text.hasLineBreak_append, Bool.and_eq_true, Bool.and_eq_true,
    Bool.or_eq_true, Bool.not_eq_true', bne_iff_ne, bne_iff_ne]

namespace Source
open Fragment

/-- Wherever there is an opening bracket a run begins. -/
theorem isSome_parse_bracketedRun {s : Source} {multiline : Bool} {p : Nat} :
    (s.parse (bracketedRun multiline) p).isSome = true ↔
      s.isEnd p = false ∧ (s.peek p).text = ['['] := by
  have hbehind : ((Grammar.many (.satisfy (isRunToken multiline))).seq
      (.optional (.text [']']))).Unfailing := .seq (.many _) (.optional _)
  rw [bracketedRun, parse_withLabel, captured, isSome_parse_capture, Grammar.seq3,
    hbehind.isSome_parse_seq, isSome_parse_text]

/-- A bracketed string on the tokens from `p` up to `q`, whose run ends in front of the token `m`. -/
structure BracketRun (s : Source) (multiline : Bool) (p m q : Nat) : Prop where
  opening : (s.peek p).text = ['[']
  lt : p < m
  inner : ∀ i, p < i → i < m → s.isEnd i = false ∧ isRunToken multiline (s.peek i) = true
  stops : ¬ (s.isEnd m = false ∧ isRunToken multiline (s.peek m) = true)
  closing : q = if s.isEnd m = false ∧ (s.peek m).text = [']'] then m + 1 else m

theorem ensures_bracketedRun (s : Source) (multiline : Bool) :
    s.Ensures (bracketedRun multiline) fun p q l =>
      (∃ m, s.BracketRun multiline p m q) ∧ l = s.reconstruct .stringLiteral p q := by
  have hclosing : s.Ensures (Grammar.text [']']).optional fun p q _ =>
      q = if s.isEnd p = false ∧ (s.peek p).text = [']'] then p + 1 else p := by
    intro p q l h
    rw [parse_optional, Grammar.text, parse_satisfy] at h
    by_cases hbracket : s.isEnd p = false ∧ (s.peek p).text = [']']
    · rw [if_pos (by rw [beq_iff_eq]; exact hbracket)] at h
      rw [if_pos hbracket]
      cases h
      rfl
    · rw [if_neg (by rw [beq_iff_eq]; exact hbracket)] at h
      rw [if_neg hbracket]
      cases h
      rfl
  have hbehind : s.Ensures ((Grammar.many (.satisfy (isRunToken multiline))).seq
      (.optional (.text [']']))) fun p q _ => ∃ m, p ≤ m ∧
        (∀ i, p ≤ i → i < m → s.isEnd i = false ∧ isRunToken multiline (s.peek i) = true) ∧
        ¬ (s.isEnd m = false ∧ isRunToken multiline (s.peek m) = true) ∧
        q = if s.isEnd m = false ∧ (s.peek m).text = [']'] then m + 1 else m := by
    refine .seq (.many_satisfy _) hclosing ?_
    intro p m q _ _ hmany hbracket
    exact ⟨m, hmany.1, hmany.2.1, hmany.2.2, hbracket⟩
  have hrun : s.Ensures (.seq3 (.text ['[']) (Grammar.many (.satisfy (isRunToken multiline)))
      (.optional (.text [']']))) fun p q _ => ∃ m, s.BracketRun multiline p m q := by
    refine .seq (Ensures.satisfy _) hbehind ?_
    rintro p _ q _ _ ⟨-, hopening, rfl, -⟩ ⟨m, hle, hinner, hstops, hbracket⟩
    exact ⟨m, eq_of_beq hopening, hle, hinner, hstops, hbracket⟩
  exact .withLabel _ (ensures_captured hrun)

theorem BracketRun.lt_stop {s : Source} {multiline : Bool} {p m q : Nat}
    (h : s.BracketRun multiline p m q) : p < q := by
  rw [h.closing]
  split
  · exact Nat.lt_succ_of_lt h.lt
  · exact h.lt

/-- One more token goes to the end of a reconstruction. -/
theorem text_reconstruct_succ (s : Source) (k : Kind) {p m : Nat} (h : p < m) :
    (s.reconstruct k p (m + 1)).text = (s.reconstruct k p m).text ++ (s.peek m).fullText := by
  have hlast : s.slice m (m + 1) = [s.peek m] := by
    rw [slice_succ (Nat.lt_succ_self m), slice_self]
  rw [reconstruct, reconstruct, slice_succ h, slice_succ (Nat.lt_succ_of_lt h),
    ← slice_append (Nat.succ_le_of_lt h) (Nat.le_succ m), hlast]
  simp only [Leaf.capture, List.flatMap_append, List.flatMap_singleton, List.append_assoc]

/-- A run on a single line has no line break in it. -/
theorem BracketRun.hasLineBreak {s : Source} {p m q : Nat} (h : s.BracketRun false p m q) :
    (s.reconstruct .stringLiteral p m).text.hasLineBreak = false := by
  have hpart : ∀ n, p < n → n ≤ m →
      (s.reconstruct .stringLiteral p n).text.hasLineBreak = false := by
    intro n hn
    induction hn with
    | refl =>
      intro _
      rw [reconstruct, slice_succ (Nat.lt_succ_self p), slice_self, Leaf.capture, h.opening]
      rfl
    | @step n hn ih =>
      intro hm
      obtain ⟨-, htoken⟩ := h.inner n hn hm
      rw [text_reconstruct_succ s _ hn, Text.hasLineBreak_append, ih (Nat.le_of_succ_le hm),
        (isRunToken_iff.mp htoken).2.resolve_left Bool.false_ne_true, Bool.or_false]
  exact hpart m h.lt (Nat.le_refl m)

end Source
end CommandGrammar
