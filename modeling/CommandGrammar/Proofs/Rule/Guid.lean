import CommandGrammar.Proofs.Grammar.Finds
import CommandGrammar.Proofs.Rule.Parse
import CommandGrammar.Proofs.Source.Trimmed
import CommandGrammar.Proofs.Token.Guid

/-! Guid literals. Both spellings of a guid are read by the rules that admit guids, with the guid as value,
and every literal of either kind among the tokens of a text has a guid as value. -/
namespace CommandGrammar

namespace Source
open Fragment
variable {s : Source} {p : Nat}

/-- A literal is read where its token stands. -/
private theorem parse_literalOf (sort : LiteralSort) (k : Kind) (hk : k ≠ .endOfText)
    (label : String) : s.parse ((literalOf sort k).withLabel label) p =
      if (s.peek p).kind = k then some (.literal sort (.ofToken (s.peek p)), p + 1) else none := by
  rw [parse_withLabel, literalOf, parse_map, parse_kind hk]
  split
  · rfl
  · rfl

private theorem parse_guid : s.parse guid p =
    if (s.peek p).kind = .guidLiteral then some (.literal .guid (.ofToken (s.peek p)), p + 1)
    else none :=
  parse_literalOf .guid .guidLiteral (by decide) "<guid>"

private theorem parse_rawGuid : s.parse rawGuid p =
    if (s.peek p).kind = .rawGuidLiteral then some (.literal .guid (.ofToken (s.peek p)), p + 1)
    else none :=
  parse_literalOf .guid .rawGuidLiteral (by decide) "<guid>"

private theorem parse_string : s.parse string p =
    if (s.peek p).kind = .stringLiteral then some (.literal .string (.ofToken (s.peek p)), p + 1)
    else none :=
  parse_literalOf .string .stringLiteral (by decide) "<string>"

/-- The rules that admit guids of both kinds read either of them. -/
private theorem parse_anyGuid {rs : RuleSet} {r : Rule} (hr : r ∈ [.value, .guidOrString])
    (hk : (s.peek p).kind = .guidLiteral ∨ (s.peek p).kind = .rawGuidLiteral) :
    s.parse (rs.grammar r) p = some (.literal .guid (.ofToken (s.peek p)), p + 1) := by
  have hvalue : s.parse value p = some (.literal .guid (.ofToken (s.peek p)), p + 1) := by
    rw [value, parse_withLabel, Grammar.first, Grammar.first, parse_orElse, parse_orElse, parse_guid,
      parse_rawGuid]
    rcases hk with hk | hk
    · rw [hk, if_pos rfl, Option.some_or]
    · rw [hk, if_neg (by decide), if_pos rfl, Option.none_or, Option.some_or]
  have hguidOrString : s.parse guidOrString p =
      some (.literal .guid (.ofToken (s.peek p)), p + 1) := by
    rw [guidOrString, Grammar.first, Grammar.first, Grammar.first, parse_orElse, parse_orElse,
      parse_orElse, parse_guid, parse_string, parse_rawGuid]
    rcases hk with hk | hk
    · rw [hk, if_pos rfl, Option.some_or]
    · rw [hk, if_neg (by decide), if_neg (by decide), if_pos rfl, Option.none_or, Option.none_or, Option.some_or]
  simp only [List.mem_cons, List.not_mem_nil, or_false] at hr
  rcases hr with rfl | rfl
  · exact hvalue
  · exact hguidOrString

end Source

namespace RuleSet
open Token.Lexicon

/-- A guid written alone or in its wrapper is read as one literal, and its value is the guid. And every
token of these kinds that a text has holds a guid, which is its value as a literal. -/
theorem guid_spellings (rs : RuleSet) :
    (∀ g k t, IsGuid g → WritesGuid g k t → ∀ r ∈ [Rule.value, .guidOrString],
      rs.parse r t = .ok (.literal .guid (.ofToken ⟨k, [], t, 0⟩)) ∧ LiteralSort.guid.value t = g) ∧
    ∀ text, ∀ t ∈ Token.ofText text, t.kind = .guidLiteral ∨ t.kind = .rawGuidLiteral →
      IsGuid (LiteralSort.guid.value t.text) ∧ (LiteralSort.guid.value t.text).length = 36 ∧
        LiteralSort.guid.value t.text <:+: t.text := by
  constructor
  · intro g k t hg hwrites r hr
    have hk : k = .guidLiteral ∨ k = .rawGuidLiteral := by
      cases hwrites with
      | alone => exact .inr rfl
      | wrapped => exact .inl rfl
    have htokens : Token.ofText t = [⟨k, [], t, 0⟩] ++ [.atEnd [] t.byteSize] :=
      Token.ofText_of_munch (Piece.munch_guid hg hwrites) (by rcases hk with rfl | rfl <;> rfl)
    have hfront := Source.front_ofText htokens
    have hpeek : (Source.ofText t).peek 0 = ⟨k, [], t, 0⟩ := by
      rw [Source.peek, hfront]
      rfl
    have hsize : (Source.ofText t).size = 1 := by
      rw [Source.size, hfront]
      rfl
    refine ⟨parse_eq_ok_iff.mpr ?_, (hwrites.value hg).1⟩
    rw [Source.parse_anyGuid hr (by rwa [hpeek]), hpeek, hsize]
  · intro text t ht hk
    have hmem := Token.mem_dropLast ht (by rcases hk with hk | hk <;> rw [hk] <;> decide)
    obtain ⟨g, hg, hwrites⟩ := (Token.munch_text hmem).1.exists_guid hk
    obtain ⟨hvalue, hinfix⟩ := hwrites.value hg
    rw [LiteralSort.value, hvalue]
    exact ⟨hg, length_of_isGuid hg, hinfix⟩

/-- A guid that begins like a number. -/
def numberLikeGuid : Text := "12e45678-0aB0-4000-8000-00000000000f".toList

/-- The guid is the value of its spelling with blanks, and of the token behind a name. -/
theorem guid_spellings_numberLike :
    IsGuid numberLikeGuid ∧
    standard.parse .value ("guid(".toList ++ ['\t', ' '] ++ numberLikeGuid ++ [' '] ++ [')']) =
      .ok (.literal .guid (.ofToken ⟨.guidLiteral, [],
        "guid(".toList ++ ['\t', ' '] ++ numberLikeGuid ++ [' '] ++ [')'], 0⟩)) ∧
    ∃ t ∈ Token.ofText ("x ".toList ++ numberLikeGuid), t.kind = .rawGuidLiteral ∧
      IsGuid (LiteralSort.guid.value t.text) := by
  obtain ⟨hread, htokens⟩ := guid_spellings standard
  have hguid : IsGuid numberLikeGuid :=
    matches_guid_iff.mp ((Pattern.accepts_iff _ _).mp (by decide +kernel))
  have hbefore : IsBlanks ['\t', ' '] := by simp [IsBlanks]
  have hbehind : IsBlanks [' '] := by simp [IsBlanks]
  have hmem : (⟨.rawGuidLiteral, [' '], numberLikeGuid, 2⟩ : Token) ∈
      Token.ofText ("x ".toList ++ numberLikeGuid) := by decide +kernel
  refine ⟨hguid, ?_, _, hmem, rfl, (htokens _ _ hmem (.inr rfl)).1⟩
  exact (hread _ _ _ hguid (.wrapped hbefore hbehind) .value List.mem_cons_self).1

end RuleSet
end CommandGrammar
