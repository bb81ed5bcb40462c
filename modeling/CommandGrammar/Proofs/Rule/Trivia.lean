import CommandGrammar.Proofs.Rule.Parallel

/-! Trivia and places do not steer a parse. Sources whose tokens differ in nothing else are read alike
by every rule, except that a line break may end a bracketed string. -/
namespace CommandGrammar

namespace Leaf

/-- Without trivia and place. -/
def bare (l : Leaf) : Leaf := { l with trivia := [], offset := 0 }

/-- Without trivia, place and text. -/
def blank (l : Leaf) : Leaf := { l with trivia := [], text := [], offset := 0 }

end Leaf

/-- A tree of the rule without trivia and places, and without the texts of captured leaves. These are
raw text, bracketed strings as names, and what the rule for bracketed strings returns. -/
def Rule.erase : Rule → Element → Element
  | .bracketedStringLiteral => Element.mapLeaves Leaf.blank
  | _ => Element.mapParts Leaf.bare Leaf.blank

/-- Tokens of the same kind and with the same text. Where bracketed strings end at line breaks, the one
has a line break in its trivia if the other has. -/
structure Token.Twins (multiline : Bool) (t t' : Token) : Prop where
  kind : t.kind = t'.kind
  text : t.text = t'.text
  lineBreak : multiline = false → t.trivia.hasLineBreak = t'.trivia.hasLineBreak

namespace Token.Twins
variable {multiline : Bool}

instance (t t' : Token) : Decidable (Twins multiline t t') :=
  decidable_of_iff (t.kind = t'.kind ∧ t.text = t'.text ∧
      (multiline = false → t.trivia.hasLineBreak = t'.trivia.hasLineBreak))
    ⟨fun ⟨hk, ht, hb⟩ => ⟨hk, ht, hb⟩, fun h => ⟨h.kind, h.text, h.lineBreak⟩⟩

variable {t t' : Token}

private theorem isRunToken_eq (h : Twins multiline t t') :
    Fragment.isRunToken multiline t = Fragment.isRunToken multiline t' := by
  rw [Fragment.isRunToken, Fragment.isRunToken, h.text]
  cases multiline with
  | true => rfl
  | false => rw [h.lineBreak rfl]

/-- Twins come before the end together. -/
private theorem takeWhile {ts ts' : List Token} (h : List.Forall₂ (Twins multiline) ts ts') :
    List.Forall₂ (Twins multiline) (ts.takeWhile (!·.isEnd)) (ts'.takeWhile (!·.isEnd)) := by
  induction h with
  | nil => exact .nil
  | @cons t t' ts ts' ht _ ih =>
    have hend : t.isEnd = t'.isEnd := by rw [isEnd, isEnd, ht.kind]
    rw [List.takeWhile_cons, List.takeWhile_cons, hend]
    split
    · exact .cons ht ih
    · exact .nil

end Token.Twins

namespace Correspondence

/-- Twins, looked at without their trivia, places and texts. -/
def erasing (multiline : Bool) : Correspondence multiline where
  left := Leaf.blank
  right := Leaf.blank
  First := Token.Twins multiline
  Later := Token.Twins multiline
  first_of_later := id
  kind h := h.kind
  text h := h.text
  leaf h _ := by simp only [Leaf.blank, Leaf.ofToken, h.kind]
  run h := h.isRunToken_eq
  captured _ _ _ _ _ := rfl
  placeholder _ := rfl

/-- Of a leaf that is one token the text is seen as well. -/
def erasingParts (multiline : Bool) : (erasing multiline).View where
  copy _ := Leaf.bare
  leaf h _ := by simp only [Leaf.bare, Leaf.ofToken, h.kind, h.text]
  placeholder _ := rfl

private theorem parallel_twins {multiline : Bool} {s s' : Source}
    (h : List.Forall₂ (Token.Twins multiline) s.tokens s'.tokens) (p : Nat) :
    (erasing multiline).Parallel (s.window p) (s'.window p) := by
  have hsize : s.front.length = s'.front.length := by
    have hlength := h.length_eq
    simp only [Source.tokens, List.length_append, List.length_singleton] at hlength
    omega
  have hfront : List.Forall₂ (Token.Twins multiline) s.front s'.front := by
    have htake := List.forall₂_take s.front.length h
    rwa [Source.tokens, Source.tokens, List.take_left, hsize, List.take_left] at htake
  have htokens := Token.Twins.takeWhile (List.forall₂_drop p hfront)
  refine ⟨rfl, htokens, ?_⟩
  rw [← List.drop_one, ← List.drop_one]
  exact List.forall₂_drop 1 htokens

end Correspondence

namespace RuleSet

/-- Trivia and places do not steer a rule. On sources whose tokens are twins it matches the same tokens or
none on either and makes the same log, and the trees differ in nothing but trivia, places and the texts of
captured leaves. -/
theorem parse_ignores_trivia (o : Options) (r : Rule) {s s' : Source}
    (h : List.Forall₂ (Token.Twins o.multiline) s.tokens s'.tokens) (p : Nat) :
    ((o.rules.grammar r).run (s.window p)).log = ((o.rules.grammar r).run (s'.window p)).log ∧
      (s.parse (o.rules.grammar r) p).map (fun (e, q) => (r.erase e, q)) =
        (s'.parse (o.rules.grammar r) p).map (fun (e, q) => (r.erase e, q)) := by
  have hw := Correspondence.parallel_twins h p
  have hrun : ((o.rules.grammar r).run (s.window p)).map r.erase =
      ((o.rules.grammar r).run (s'.window p)).map r.erase := by
    by_cases hr : r = .bracketedStringLiteral
    · subst hr
      exact Correspondence.agrees_bracketedString o hw
    · have herase : r.erase = Element.mapParts Leaf.bare Leaf.blank := by
        cases r <;> first | rfl | exact absurd rfl hr
      rw [herase]
      exact Correspondence.rule_agree_parts o (Correspondence.erasingParts o.multiline) r hr hw rfl
  obtain ⟨hlog, ⟨hn, hn'⟩ | ⟨e, e', n, he, he', herase⟩⟩ := Outcome.map_eq_map_iff.mp hrun
  · refine ⟨hlog, ?_⟩
    rw [Source.parse, Source.parse, hn, hn']
  · refine ⟨hlog, ?_⟩
    simp only [Source.parse, he, he', Option.map_some, herase]

/-- A path that ends in a bracketed string, on one line. -/
def oneLine : Source := .ofText "a.[b c]".toList

/-- The same path with a comment in it and on three lines. -/
def threeLines : Source := .ofText "a // x\n . [b\n c ]".toList

/-- Paths, with bracketed strings over several lines. -/
def spreadPath : Grammar Element := (Options.rules { multiline := true }).grammar .qualifiedName

theorem parse_threeLines :
    List.Forall₂ (Token.Twins true) oneLine.tokens threeLines.tokens ∧
      (oneLine.parse spreadPath 0).map Prod.snd = some 6 ∧
      (oneLine.parse spreadPath 0).map (fun (e, q) => (Rule.qualifiedName.erase e, q)) =
        (threeLines.parse spreadPath 0).map (fun (e, q) => (Rule.qualifiedName.erase e, q)) := by
  have htwins : List.Forall₂ (Token.Twins true) oneLine.tokens threeLines.tokens := by
    decide +kernel
  exact ⟨htwins, by decide +kernel,
    (parse_ignores_trivia { multiline := true } .qualifiedName htwins 0).2⟩

end RuleSet
end CommandGrammar
