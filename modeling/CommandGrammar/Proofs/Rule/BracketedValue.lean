import CommandGrammar.Proofs.Fragment.BracketRun
import CommandGrammar.Proofs.Rule.Names
import CommandGrammar.Proofs.Source.Trimmed
import CommandGrammar.Proofs.Token.Respacing

/-! The values of bracketed strings. A value is made from the text of the whole string, which does not say
whether it ends with a closing bracket: where there is none, a literal that breaks off in the string may end
like one, and then it loses its last character. -/
namespace CommandGrammar

namespace Text

private theorem dropClosing_concat (c : Char) (t : Text) : dropClosing c (t ++ [c]) = t := by
  rw [dropClosing, List.reverse_concat, dropOpening, if_pos rfl, List.reverse_reverse]

private theorem dropClosing_append {c : Char} (t : Text) {u : Text} (hne : u ≠ [])
    (h : u.getLast? ≠ some c) : dropClosing c (t ++ u) = t ++ u := by
  obtain ⟨v, d, rfl⟩ : ∃ v d, u = v ++ [d] :=
    ⟨u.dropLast, u.getLast hne, (List.dropLast_concat_getLast hne).symm⟩
  have hd : d ≠ c := by
    rintro rfl
    exact h List.getLast?_concat
  rw [dropClosing, ← List.append_assoc, List.reverse_concat, dropOpening, if_neg hd,
    ← List.reverse_concat, List.reverse_reverse]

private theorem bracketedContent_cons (t : Text) :
    bracketedContent ('[' :: t) = trim (dropClosing ']' t) := by
  rw [bracketedContent, dropOpening, if_pos rfl]

end Text

namespace Piece
open Token.Lexicon

/-- What is read as a token and ends with a closing bracket is that bracket, or a literal that breaks off. -/
private theorem Munch.of_getLast_bracket {s t : Text} {k : Kind} (h : Munch s k t)
    (hk : k.isTrivia = false) (hlast : t.getLast? = some ']') :
    t = [']'] ∨ k = .badToken ∧ ∃ x ∈ openings, x.1 <+: t := by
  have hclosing : ∀ x ∈ openings, x.2.closing ≠ ']' := by decide
  have hlexemes : ∀ l ∈ lexemes, l.kind.isTrivia = true ∨ l.kind = .closeBracket ∨
      l.pattern.mentions ']' = false := by decide +kernel
  cases h with
  | closed opens _ _ _ _ =>
    rw [List.getLast?_concat] at hlast
    exact absurd (Option.some.inj hlast) (hclosing _ opens)
  | broken opens start body _ =>
    exact .inr ⟨rfl, _, opens, Munch.opening_prefix_body opens start body⟩
  | @lexeme l _ _ mem matched _ _ =>
    rcases hlexemes l mem with htrivia | hbracket | hfree
    · rw [htrivia] at hk
      cases hk
    · have hfixed : l.kind.fixedText? = some [']'] := by
        rw [hbracket]
        rfl
      rw [(mem_lexemes_iff hfixed).mp mem] at matched
      exact .inl (Pattern.matches_exactly_iff.mp matched)
    · exact absurd (List.mem_of_getLast? hlast) (Pattern.not_mem_of_mentions hfree matched)
  | bad =>
    cases hlast
    exact .inl rfl

end Piece

/-- The token begins as a literal does and is none: it has no end. -/
def Token.BreaksOff (t : Token) : Prop :=
  t.kind = .badToken ∧ ∃ x ∈ Lexicon.openings, x.1 <+: t.text

namespace Source
open Fragment
variable {s : Source} {p m q : Nat}

/-- The text of a bracketed string behind its opening bracket. -/
def inside (s : Source) (p q : Nat) : Text := (s.slice (p + 1) q).flatMap Token.fullText

private theorem inside_succ (h : p < m) :
    s.inside p (m + 1) = s.inside p m ++ (s.peek m).trivia ++ (s.peek m).text := by
  rw [inside, inside, ← slice_append (Nat.succ_le_of_lt h) (Nat.le_succ m),
    slice_succ (Nat.lt_succ_self m), slice_self, List.flatMap_append, List.flatMap_singleton,
    Token.fullText, List.append_assoc]

/-- The value of a bracketed string on the tokens from `p` up to `q`, whose run ends in front of the token
`m`. -/
inductive Content (s : Source) (p : Nat) : Nat → Nat → Text → Prop
  /-- A closing bracket ends the value, and what is in front of it belongs to the value. -/
  | closed {m : Nat} (bracket : (s.peek m).text = [']']) :
      Content s p m (m + 1) (Text.trim (s.inside p m ++ (s.peek m).trivia))
  /-- Without a closing bracket the value is all that the tokens of the run have. -/
  | unclosed {m : Nat} (last : ∀ i, p < i → i + 1 = m → (s.peek i).text.getLast? ≠ some ']') :
      Content s p m m (Text.trim (s.inside p m))
  /-- But a last token that ends like a bracket, which only a literal that breaks off can do, loses that
  character. -/
  | cut {i : Nat} {u : Text} (lt : p < i) (literal : (s.peek i).BreaksOff)
      (last : (s.peek i).text = u ++ [']']) :
      Content s p (i + 1) (i + 1) (Text.trim (s.inside p i ++ (s.peek i).trivia ++ u))

private theorem bracketedContent_reconstruct (k : Kind)
    (hopening : (s.peek p).text = ['[']) (h : p < q) :
    (s.reconstruct k p q).text.bracketedContent = Text.trim (Text.dropClosing ']' (s.inside p q)) := by
  rw [reconstruct, slice_succ h, Leaf.capture, hopening, List.singleton_append,
    Text.bracketedContent_cons, inside]

/-- Only a literal that breaks off ends like a closing bracket and is none. -/
private theorem breaksOff_of_getLast {text : Text} {i : Nat} (hi : i < (ofText text).size)
    (hlast : ((ofText text).peek i).text.getLast? = some ']')
    (hne : ((ofText text).peek i).text ≠ [']']) : ((ofText text).peek i).BreaksOff := by
  have hmem : (ofText text).peek i ∈ (Token.ofText text).dropLast := by
    obtain ⟨front, final, heq, -, -⟩ := Token.ofText_eq text
    rw [heq, List.dropLast_concat, ← front_ofText heq, peek, List.getD_eq_getElem?_getD,
      List.getElem?_eq_getElem hi, Option.getD_some]
    exact List.getElem_mem hi
  obtain ⟨hmunch, hkind⟩ := Token.munch_text hmem
  exact (hmunch.of_getLast_bracket hkind hlast).resolve_left hne

/-- An opening bracket alone has no value. -/
private theorem content_of_opening (s : Source) (p : Nat) :
    s.Content p (p + 1) (p + 1) (Text.trim (Text.dropClosing ']' (s.inside p (p + 1)))) := by
  have hvalue : Text.dropClosing ']' (s.inside p (p + 1)) = s.inside p (p + 1) := by
    rw [inside, slice_self]
    rfl
  rw [hvalue]
  exact .unclosed fun i hi hm => by omega

/-- Without a closing bracket the last token decides. -/
private theorem content_of_token {text : Text} {i : Nat} (hp : p < i) (hi : i < (ofText text).size)
    (hne : ((ofText text).peek i).text ≠ [']']) :
    (ofText text).Content p (i + 1) (i + 1)
      (Text.trim (Text.dropClosing ']' ((ofText text).inside p (i + 1)))) := by
  by_cases hlast : ((ofText text).peek i).text.getLast? = some ']'
  · obtain ⟨u, hu⟩ := List.getLast?_eq_some_iff.mp hlast
    rw [inside_succ hp, hu, ← List.append_assoc, Text.dropClosing_concat]
    exact .cut hp (breaksOff_of_getLast hi hlast hne) hu
  · have hvalue : Text.dropClosing ']' ((ofText text).inside p (i + 1)) =
        (ofText text).inside p (i + 1) := by
      rw [inside_succ hp]
      exact Text.dropClosing_append _ ((lexed_ofText text).peek_solid hi).ne_nil hlast
    rw [hvalue]
    refine .unclosed fun j _ hj => ?_
    cases hj
    exact hlast

private theorem BracketRun.content {text : Text} {multiline : Bool}
    (h : (ofText text).BracketRun multiline p m q) :
    (ofText text).Content p m q
      ((ofText text).reconstruct .stringLiteral p q).text.bracketedContent := by
  rw [bracketedContent_reconstruct _ h.opening h.lt_stop]
  have hq := h.closing
  by_cases hbracket : (ofText text).isEnd m = false ∧ ((ofText text).peek m).text = [']']
  · rw [if_pos hbracket] at hq
    subst hq
    rw [inside_succ h.lt, hbracket.2, Text.dropClosing_concat]
    exact .closed hbracket.2
  · rw [if_neg hbracket] at hq
    subst hq
    obtain ⟨i, rfl⟩ := Nat.exists_eq_succ_of_ne_zero (Nat.ne_zero_of_lt h.lt)
    rcases Nat.eq_or_lt_of_le (Nat.le_of_lt_succ h.lt) with rfl | hlt
    · exact content_of_opening _ p
    · obtain ⟨hend, htoken⟩ := h.inner i hlt (Nat.lt_succ_self i)
      rw [isRunToken, Bool.and_eq_true, Bool.and_eq_true, bne_iff_ne] at htoken
      exact content_of_token hlt ((lexed_ofText text).lt_size hend) htoken.1.1

/-- A leaf is a bracketed string of the source, and its value is the content of the string. -/
def Valued (s : Source) (multiline : Bool) (p q : Nat) (l : Leaf) (value : Text) : Prop :=
  ∃ m, s.BracketRun multiline p m q ∧ l = s.reconstruct .stringLiteral p q ∧ s.Content p m q value

private theorem valued_of_parse {text : Text} {multiline : Bool} {l : Leaf}
    (h : (ofText text).parse (bracketedRun multiline) p = some (l, q)) :
    (ofText text).Valued multiline p q l l.text.bracketedContent := by
  obtain ⟨⟨m, hrun⟩, rfl⟩ := ensures_bracketedRun _ multiline h
  exact ⟨m, hrun, rfl, hrun.content⟩

/-- The value of a literal that is a bracketed string is its content too. -/
private theorem Valued.string {multiline : Bool} {l : Leaf}
    (h : s.Valued multiline p q l l.text.bracketedContent) :
    s.Valued multiline p q l (LiteralSort.string.value l.text) := by
  obtain ⟨m, hrun, hl, hcontent⟩ := h
  have hhead : l.text.head? = some '[' := by
    rw [hl, reconstruct, slice_succ hrun.lt_stop, Leaf.capture, hrun.opening]
    rfl
  refine ⟨m, hrun, hl, ?_⟩
  rw [LiteralSort.value, if_pos hhead]
  exact hcontent

/-- The value of a bracketed string is what stands between the brackets, or behind the opening one, without
blanks at either end; but in a string without a closing bracket a literal that breaks off and ends like one
is cut short. This goes for the strings that are literals and for those that are names anywhere in a
tree. -/
theorem bracketed_value (text : Text) (o : Options) :
    (∀ p q e, (ofText text).parse (o.rules.grammar .bracketedStringLiteral) p = some (e, q) →
      ∃ l, e = .literal .string l ∧
        (ofText text).Valued o.multiline p q l (LiteralSort.string.value l.text)) ∧
    ∀ r p q e, (ofText text).parse (o.rules.grammar r) p = some (e, q) →
      ∀ x ∈ e.outline, ∀ l, x.2.name? = some (.bracketedString l) →
        ∃ a b, (ofText text).Valued o.multiline a b l (Name.bracketedString l).simple := by
  constructor
  · have hliteral : (ofText text).Ensures o.bracketedString fun p q e => ∃ l,
        e = .literal .string l ∧
          (ofText text).Valued o.multiline p q l (LiteralSort.string.value l.text) :=
      .withLabel _ (.map fun p q l hl => ⟨l, rfl, (valued_of_parse hl).string⟩)
    exact fun p q e h => hliteral h
  · intro r p q e h
    have hrun : (ofText text).Ensures (bracketedRun o.multiline) fun _ _ l =>
        ∃ a b, (ofText text).Valued o.multiline a b l (Name.bracketedString l).simple :=
      fun p q l hl => ⟨p, q, valued_of_parse hl⟩
    exact forall_bracketedString hrun r h

/-- A name of several words in brackets with blanks inside. -/
def spacedName : Text := "[ a.b c ]".toList

/-- The blanks inside the brackets are no part of the value, and those between the words are. -/
theorem bracketed_value_spacedName :
    ∃ l, (ofText spacedName).parse (RuleSet.standard.grammar .bracketedStringLiteral) 0 =
        some (.literal .string l, 6) ∧
      (ofText spacedName).Valued false 0 6 l (LiteralSort.string.value l.text) ∧
      (ofText spacedName).parse (RuleSet.standard.grammar .nameDeclaration) 0 =
        some (.declaration (.bracketedString l), 6) ∧
      (∃ a b, (ofText spacedName).Valued false a b l (Name.bracketedString l).simple) ∧
      (Name.bracketedString l).simple = "a.b c".toList := by
  obtain ⟨hliteral, hname⟩ := bracketed_value spacedName {}
  have h : (ofText spacedName).parse (RuleSet.standard.grammar .bracketedStringLiteral) 0 =
      some (.literal .string ⟨.stringLiteral, [], spacedName, 0, false, false⟩, 6) := by
    decide +kernel
  have h' : (ofText spacedName).parse (RuleSet.standard.grammar .nameDeclaration) 0 =
      some (.declaration (.bracketedString ⟨.stringLiteral, [], spacedName, 0, false, false⟩), 6) := by
    decide +kernel
  obtain ⟨l, he, hl⟩ := hliteral 0 6 _ h
  cases he
  have hplace := hname .nameDeclaration 0 6 _ h' (1, .declaration (.bracketedString
    ⟨.stringLiteral, [], spacedName, 0, false, false⟩)) (by decide +kernel) _ rfl
  exact ⟨_, h, hl, h', hplace, by decide +kernel⟩

/-- A bracket that is not closed, with a quote behind it that is not closed either. -/
def unclosedQuote : Text := "['a]".toList

/-- The last character belongs to the literal, and the value goes without it. -/
theorem bracketed_value_unclosedQuote :
    ∃ l, (ofText unclosedQuote).parse (RuleSet.standard.grammar .bracketedStringLiteral) 0 =
        some (.literal .string l, 2) ∧
      (ofText unclosedQuote).isEnd 2 = true ∧ ((ofText unclosedQuote).peek 1).text = "'a]".toList ∧
      LiteralSort.string.value l.text ≠ Text.trim ((ofText unclosedQuote).inside 0 2) := by
  have h : (ofText unclosedQuote).parse (RuleSet.standard.grammar .bracketedStringLiteral) 0 =
      some (.literal .string ⟨.stringLiteral, [], unclosedQuote, 0, false, false⟩, 2) := by
    decide +kernel
  exact ⟨_, h, by decide +kernel, by decide +kernel, by decide +kernel⟩

end Source
end CommandGrammar
