import CommandGrammar.Proofs.Fragment.BracketRun
import CommandGrammar.Proofs.Rule.Names

/-! Bracketed strings that may not go over several lines. No token of the run has a line break, nor is
there one in front of it. That is not asked of the closing bracket, so that a string with nothing but line
breaks left before its bracket still goes on to the next line. -/
namespace CommandGrammar.Source
open Fragment

/-- A leaf is the bracketed string on the tokens from `p` up to `q`, on one line as far as its run goes. -/
inductive OneLine (s : Source) (p : Nat) : Nat → Leaf → Prop
  /-- Without a closing bracket there is no line break. -/
  | unclosed {q : Nat} {l : Leaf} (leaf : l = s.reconstruct .stringLiteral p q)
      (line : l.text.hasLineBreak = false) : OneLine s p q l
  /-- All line breaks are in front of the closing bracket. -/
  | closed {m : Nat} {l : Leaf} (leaf : l = s.reconstruct .stringLiteral p (m + 1))
      (bracket : (s.peek m).text = [']'])
      (line : (s.reconstruct .stringLiteral p m).text.hasLineBreak = false)
      (text : l.text = (s.reconstruct .stringLiteral p m).text ++ (s.peek m).trivia ++ [']'])
      (breaks : l.text.hasLineBreak = (s.peek m).trivia.hasLineBreak) : OneLine s p (m + 1) l

private theorem BracketRun.oneLine {s : Source} {p m q : Nat} (h : s.BracketRun false p m q) :
    s.OneLine p q (s.reconstruct .stringLiteral p q) := by
  have hline := h.hasLineBreak
  have hq := h.closing
  by_cases hbracket : s.isEnd m = false ∧ (s.peek m).text = [']']
  · rw [if_pos hbracket] at hq
    subst hq
    have htext := text_reconstruct_succ s .stringLiteral h.lt
    rw [Token.fullText, hbracket.2, ← List.append_assoc] at htext
    refine .closed rfl hbracket.2 hline htext ?_
    rw [htext, Text.hasLineBreak_append, Text.hasLineBreak_append, hline, Bool.false_or]
    exact Bool.or_false _
  · rw [if_neg hbracket] at hq
    subst hq
    exact .unclosed rfl hline

private theorem oneLine_of_parse {s : Source} {p q : Nat} {l : Leaf}
    (h : s.parse (bracketedRun false) p = some (l, q)) : s.OneLine p q l := by
  obtain ⟨⟨m, hrun⟩, rfl⟩ := ensures_bracketedRun s false h
  exact hrun.oneLine

/-- Where bracketed strings may not go over several lines, all line breaks of one are in front of its
closing bracket, and there are none without it. This goes for the strings that are literals and for those
that are names anywhere in a tree. -/
theorem bracketed_oneLine (s : Source) (separator : Text) :
    (∀ p q l, s.parse (bracketedRun false) p = some (l, q) → s.OneLine p q l) ∧
    (∀ p q e, s.parse (RuleSet.grammar (Options.rules ⟨separator, false⟩) .bracketedStringLiteral) p =
        some (e, q) → ∃ l, e = .literal .string l ∧ s.OneLine p q l) ∧
    ∀ r p q e, s.parse (RuleSet.grammar (Options.rules ⟨separator, false⟩) r) p = some (e, q) →
      ∀ x ∈ e.outline, ∀ l, x.2.name? = some (.bracketedString l) → ∃ a b, s.OneLine a b l := by
  refine ⟨fun p q l h => oneLine_of_parse h, fun p q e h => ?_, fun r p q e h x hx l hl => ?_⟩
  · have hliteral : s.Ensures (Options.bracketedString ⟨separator, false⟩) fun p q e =>
        ∃ l, e = .literal .string l ∧ s.OneLine p q l :=
      .withLabel _ (.map fun p q l hl => ⟨l, rfl, oneLine_of_parse hl⟩)
    exact hliteral h
  · have hrun : s.Ensures (bracketedRun false) fun _ _ l => ∃ a b, s.OneLine a b l :=
      fun p q l hl => ⟨p, q, oneLine_of_parse hl⟩
    exact forall_bracketedString (o := ⟨separator, false⟩) hrun r h x hx l hl

/-- A bracket that is not closed before the next line. -/
def unclosedBracket : Source := ofText ['[', 'a', '\n', 'b']

/-- An unclosed bracket leaves the next line alone. -/
theorem bracketed_unclosed :
    unclosedBracket.OneLine 0 2 ⟨.stringLiteral, [], ['[', 'a'], 0, false, false⟩ ∧
    (∃ l, unclosedBracket.parse (RuleSet.standard.grammar .bracketedStringLiteral) 0 =
      some (.literal .string l, 2) ∧ unclosedBracket.OneLine 0 2 l) ∧
    ∃ l, unclosedBracket.parse (RuleSet.standard.grammar .nameDeclaration) 0 =
      some (.declaration (.bracketedString l), 2) ∧ ∃ a b, unclosedBracket.OneLine a b l := by
  obtain ⟨hrun, hliteral, hname⟩ := bracketed_oneLine unclosedBracket ['.']
  refine ⟨hrun 0 2 _ (by decide +kernel), ?_, ?_⟩
  · have h : unclosedBracket.parse (RuleSet.standard.grammar .bracketedStringLiteral) 0 =
        some (.literal .string ⟨.stringLiteral, [], ['[', 'a'], 0, false, false⟩, 2) := by
      decide +kernel
    obtain ⟨l, he, hl⟩ := hliteral 0 2 _ h
    cases he
    exact ⟨_, h, hl⟩
  · have h : unclosedBracket.parse (RuleSet.standard.grammar .nameDeclaration) 0 =
        some (.declaration (.bracketedString ⟨.stringLiteral, [], ['[', 'a'], 0, false, false⟩), 2) := by
      decide +kernel
    have hplace := hname .nameDeclaration 0 2 _ h (1, .declaration (.bracketedString
      ⟨.stringLiteral, [], ['[', 'a'], 0, false, false⟩)) (by decide +kernel) _ rfl
    exact ⟨_, h, hplace⟩

/-- A bracket that closes on the next line takes the line break in. -/
theorem bracketed_lineBreak :
    ∃ l, (ofText ['[', 'a', '\n', ']']).parse (bracketedRun false) 0 = some (l, 3) ∧
      l.text.hasLineBreak = true := by
  have h : (ofText ['[', 'a', '\n', ']']).parse (bracketedRun false) 0 =
      some (⟨.stringLiteral, [], ['[', 'a', '\n', ']'], 0, false, false⟩, 3) := by decide +kernel
  exact ⟨_, h, by decide⟩

end CommandGrammar.Source
