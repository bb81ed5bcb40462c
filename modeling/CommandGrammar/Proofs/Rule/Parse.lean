import CommandGrammar.Proofs.Source.Lexed
import CommandGrammar.Rule.Parse

/-! Reading a whole text with a rule, in terms of the rule's match at the first token. -/
namespace CommandGrammar.RuleSet

/-- Reading a text is a match at its first token that has to reach the end marker. -/
theorem parse_eq (rs : RuleSet) (r : Rule) (text : Text) :
    rs.parse r text =
      match (Source.ofText text).parse (rs.grammar r) 0 with
      | none => .error (.noMatch r)
      | some (e, q) =>
        if (Source.ofText text).isEnd q then .ok e
        else .error (.unconsumed r ((Source.ofText text).offsetAt q)) := by
  simp only [parse, parseLogged, Source.parse]
  cases ((rs.grammar r).run ((Source.ofText text).window 0)).result with
  | none => rfl
  | some x =>
    obtain ⟨e, n⟩ := x
    simp only [Option.map_some, Nat.zero_add]
    split
    · rfl
    · rfl

/-- A text is read if the match takes all of its tokens. -/
theorem parse_eq_ok_iff {rs : RuleSet} {r : Rule} {text : Text} {e : Element} :
    rs.parse r text = .ok e ↔
      (Source.ofText text).parse (rs.grammar r) 0 = some (e, (Source.ofText text).size) := by
  have hs := Source.lexed_ofText text
  rw [parse_eq]
  constructor
  · intro h
    split at h
    · cases h
    · next e' q hq =>
      split at h
      · next hend =>
        cases h
        have hsize : q = (Source.ofText text).size :=
          Nat.le_antisymm (Source.parse_le_size hq (Nat.zero_le _)) (hs.isEnd_iff.mp hend)
        rw [hq, hsize]
      · cases h
  · intro h
    rw [h]
    simp only [hs.isEnd_iff.mpr (Nat.le_refl _), if_true]

end CommandGrammar.RuleSet
