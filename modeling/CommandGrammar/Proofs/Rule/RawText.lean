import CommandGrammar.Proofs.Fragment.BracketRun
import CommandGrammar.Proofs.Rule.Tolerance
import CommandGrammar.Proofs.Tree.Walk
import Mathlib.Order.Bounds.Defs

/-! Raw text is the source as it stands, from the first token that was taken over to the last, with all
that is between them. -/
namespace CommandGrammar.Source
open Fragment

/-- A leaf with the raw text of the tokens from `p` up to `q`. -/
structure Verbatim (text : Text) (s : Source) (p q : Nat) (l : Leaf) : Prop where
  kind : l.kind = .inputText
  present : l.missing = false
  /-- The leaf begins where its first token does, ends where its last does, and has all bytes between. -/
  taken : p < q → l.trivia = (s.peek p).trivia ∧
    l.range = ⟨s.offsetAt p, (s.peek (q - 1)).range.stop⟩ ∧ l.range.stop ≤ text.byteSize ∧
    text.bytesIn l.range = l.text.utf8
  /-- Without a token it is empty and stands where the next token does. -/
  blank : p = q → l.trivia = [] ∧ l.text = [] ∧ l.range = .point (s.offsetAt p)

private theorem verbatim_reconstruct {text : Text} {s : Source} (hs : Lexed text s) {p q : Nat}
    (hq : p < q → q ≤ s.size) : Verbatim text s p q (s.reconstruct .inputText p q) where
  kind := by
    rw [reconstruct]
    cases s.slice p q with
    | nil => rfl
    | cons t ts => rfl
  present := missing_reconstruct s .inputText p q
  taken hlt := by
    have hspells := spells_reconstruct (s := s) .inputText hlt
    obtain ⟨n, rfl⟩ := Nat.exists_eq_succ_of_ne_zero (Nat.ne_zero_of_lt hlt)
    obtain ⟨rest, htext⟩ := hs.text_eq (hq hlt)
    -- the text before the leaf ends with the leaf's own trivia
    have hsplit : (s.slice 0 (n + 1)).flatMap Token.fullText =
        (s.slice 0 p).flatMap Token.fullText ++ (s.peek p).trivia ++
          (s.reconstruct .inputText p (n + 1)).text := by
      rw [← slice_append (Nat.zero_le p) (Nat.le_of_lt hlt), List.flatMap_append, ← hspells.fullText,
        Leaf.fullText, hspells.trivia, List.append_assoc]
    have hstart : (s.reconstruct .inputText p (n + 1)).offset =
        Text.byteSize ((s.slice 0 p).flatMap Token.fullText ++ (s.peek p).trivia) := by
      rw [hspells.offset, hs.offsetAt_eq (Nat.le_of_lt (Nat.lt_of_lt_of_le hlt (hq hlt))),
        Text.byteSize_append]
    have hrange : (s.reconstruct .inputText p (n + 1)).range =
        ⟨s.offsetAt p, s.reach (n + 1)⟩ := by
      rw [reach, ← hspells.stop hs (hq hlt), ← hspells.offset]
      rfl
    refine ⟨hspells.trivia, ?_, ?_, ?_⟩
    · rw [Nat.succ_eq_add_one, Nat.add_sub_cancel, hs.stop_peek (hq hlt), hrange]
    · rw [hrange, reach, htext, Text.byteSize_append]
      exact Nat.le_add_right _ _
    · rw [hrange, reach, htext, hsplit, ← hspells.offset, hstart]
      exact Text.bytesIn_append _ _ _
  blank heq := by
    subst heq
    rw [reconstruct, slice_self]
    exact ⟨rfl, rfl, rfl⟩

/-- Raw text goes up to the first token that is not wanted or marks the end. -/
private theorem ensures_rawText {s : Source} {accepts : Token → Bool} {stops : Nat → Prop}
    (hstops : ∀ i, stops i ↔ ¬ (s.isEnd i = false ∧ accepts (s.peek i) = true)) (label : String) :
    s.Ensures (((captured .inputText (Grammar.many (.satisfy accepts))).map Element.token).withLabel label)
      fun p q e => IsLeast {i | p ≤ i ∧ stops i} q ∧ e = .token (s.reconstruct .inputText p q) := by
  have hrun : s.Ensures (Grammar.many (.satisfy accepts)) fun p q _ =>
      IsLeast {i | p ≤ i ∧ stops i} q := by
    refine (Ensures.many_satisfy accepts).mono ?_
    rintro p q _ ⟨hle, htaken, hstop⟩
    refine ⟨⟨hle, (hstops q).mpr hstop⟩, ?_⟩
    rintro i ⟨hi, hstop⟩
    apply Nat.le_of_not_lt
    intro hlt
    exact (hstops i).mp hstop (htaken i hi hlt)
  refine .withLabel _ (.map ((ensures_captured hrun).mono ?_))
  rintro p q l ⟨hleast, rfl⟩
  exact ⟨hleast, rfl⟩

/-- A rule for raw text always matches, and what it returns is verbatim. -/
private theorem exists_rawText {text : Text} {g : Grammar Element} {stops : Nat → Prop}
    (hg : g.Unfailing)
    (hensures : (ofText text).Ensures g fun p q e => IsLeast {i | p ≤ i ∧ stops i} q ∧
      e = .token ((ofText text).reconstruct .inputText p q)) (p : Nat) :
    ∃ q l, (ofText text).parse g p = some (.token l, q) ∧ IsLeast {i | p ≤ i ∧ stops i} q ∧
      Verbatim text (ofText text) p q l := by
  obtain ⟨⟨e, q⟩, h⟩ := Option.isSome_iff_exists.mp (hg (ofText text) p)
  obtain ⟨hleast, rfl⟩ := hensures h
  refine ⟨q, _, h, hleast, verbatim_reconstruct (lexed_ofText text) fun hlt => ?_⟩
  -- the last token that was taken over is one of the source
  obtain ⟨n, rfl⟩ := Nat.exists_eq_succ_of_ne_zero (Nat.ne_zero_of_lt hlt)
  exact ((parse_tokens h).2 n (Nat.le_of_lt_succ hlt) (Nat.lt_succ_self n)).1

/-- The full text of a reconstruction is that of its parts, wherever it is divided. Raw text goes from any
token of a text to the end, or to a closing bracket before it, and is exactly the stretch of the text
between them. -/
theorem rawText_exact :
    (∀ (s : Source) (k : Kind) (a b c : Nat), a ≤ b → b ≤ c → (s.reconstruct k a c).fullText =
      (s.reconstruct k a b).fullText ++ (s.reconstruct k b c).fullText) ∧
    ∀ (text : Text) (o : Options) (p : Nat),
      (∃ q l, (ofText text).parse (o.rules.grammar .inputText) p = some (.token l, q) ∧
        IsLeast {i | p ≤ i ∧ (ofText text).isEnd i = true} q ∧ Verbatim text (ofText text) p q l) ∧
      ∃ q l, (ofText text).parse (o.rules.grammar .bracketedInputText) p = some (.token l, q) ∧
        IsLeast {i | p ≤ i ∧ ((ofText text).isEnd i = true ∨ ((ofText text).peek i).text = [']'])} q ∧
        Verbatim text (ofText text) p q l := by
  refine ⟨fun s k a b c hab hbc => ?_, fun text o p => ⟨?_, ?_⟩⟩
  · rw [fullText_reconstruct, fullText_reconstruct, fullText_reconstruct, ← slice_append hab hbc,
      List.flatMap_append]
  · refine exists_rawText Grammar.unfailing_inputText (ensures_rawText (fun i => ?_) _) p
    simp
  · refine exists_rawText Grammar.unfailing_bracketedInputText (ensures_rawText (fun i => ?_) _) p
    cases (ofText text).isEnd i with
    | true => simp
    | false => simp

/-- A comment between two words, a closing bracket and a word behind it. -/
def commentedArgument : Text := "é // x\n b] c".toList

/-- The comment is taken over, and the bracket is not. -/
theorem rawText_commentedArgument :
    ((ofText commentedArgument).reconstruct .inputText 0 3).fullText =
      ((ofText commentedArgument).reconstruct .inputText 0 1).fullText ++
        ((ofText commentedArgument).reconstruct .inputText 1 3).fullText ∧
    ∃ l, (ofText commentedArgument).parse (RuleSet.standard.grammar .bracketedInputText) 0 =
        some (.token l, 2) ∧
      Verbatim commentedArgument (ofText commentedArgument) 0 2 l ∧ l.text = "é // x\n b".toList := by
  obtain ⟨hsplit, hraw⟩ := rawText_exact
  obtain ⟨-, q, l, h, -, hl⟩ := hraw commentedArgument {} 0
  have hrun : (ofText commentedArgument).parse (RuleSet.standard.grammar .bracketedInputText) 0 =
      some (.token ⟨.inputText, [], "é // x\n b".toList, 0, false, false⟩, 2) := by decide +kernel
  refine ⟨hsplit _ _ 0 1 3 (by decide) (by decide), _, hrun, ?_, rfl⟩
  have hsame : some (Element.token l, q) = _ := h.symm.trans hrun
  cases hsame
  exact hl

end CommandGrammar.Source
