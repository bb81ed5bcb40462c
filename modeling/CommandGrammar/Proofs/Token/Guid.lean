import CommandGrammar.Proofs.Token.Quotation
import CommandGrammar.Tree.Name

/-! Guids. A guid is written alone or in a wrapper, and either spelling is one token from which the guid is
read back; and there are no other tokens of these kinds. -/
namespace CommandGrammar

namespace Text
variable {b t b' : Text}

private theorem trimLeft_append (hb : ∀ c ∈ b, isBlank c = true)
    (ht : ∀ c ∈ t.head?, isBlank c = false) : trimLeft (b ++ t) = t := by
  rw [trimLeft, List.dropWhile_append_of_pos hb]
  cases t with
  | nil => rfl
  | cons c t => exact List.dropWhile_cons_of_neg (Bool.eq_false_iff.mp (ht c rfl))

/-- Blanks around a text that has none are taken away. -/
private theorem trim_append (hb : ∀ c ∈ b, isBlank c = true) (hb' : ∀ c ∈ b', isBlank c = true)
    (hne : t ≠ []) (ht : ∀ c ∈ t, isBlank c = false) : trim (b ++ t ++ b') = t := by
  have hleft : trimLeft (b ++ (t ++ b')) = t ++ b' := by
    refine trimLeft_append hb fun c hc => ht c ?_
    rw [List.head?_append, List.head?_eq_some_head hne, Option.some_or] at hc
    exact Option.some.inj hc ▸ List.head_mem hne
  have hright : trimLeft (b'.reverse ++ t.reverse) = t.reverse :=
    trimLeft_append (fun c hc => hb' c (List.mem_reverse.mp hc)) fun c hc =>
      ht c (List.mem_reverse.mp (List.mem_of_mem_head? hc))
  rw [List.append_assoc, trim, hleft, trimRight, List.reverse_append, hright, List.reverse_reverse]

private theorem guidDigits_of_not_prefix (h : ¬ "guid(".toList <+: t) : guidDigits t = t := by
  rw [guidDigits, between?, if_neg fun hstart => h (List.isPrefixOf_iff_prefix.mp hstart)]
  rfl

private theorem guidDigits_wrapped (t : Text) :
    guidDigits ("guid(".toList ++ t ++ [')']) = trim t := by
  have hstart : "guid(".toList.isPrefixOf ("guid(".toList ++ (t ++ [')'])) = true :=
    List.isPrefixOf_iff_prefix.mpr (List.prefix_append _ _)
  rw [guidDigits, between?, List.append_assoc, if_pos hstart, List.drop_left,
    if_pos List.getLast?_concat, List.dropLast_concat]
  rfl

end Text

namespace Token.Lexicon
open Pattern

/-- Groups of hexadecimal digits of these sizes, joined by dashes. -/
def IsGroups (sizes : List Nat) (t : Text) : Prop :=
  ∃ groups : List Text, groups.map List.length = sizes ∧
    (∀ x ∈ groups, ∀ c ∈ x, isHexDigit c = true) ∧ t = ['-'].intercalate groups

def IsGuid (t : Text) : Prop := IsGroups [8, 4, 4, 4, 12] t

section Groups
variable {m n : Nat} {sizes : List Nat} {t : Text}

private theorem isGroups_singleton :
    IsGroups [n] t ↔ t.length = n ∧ ∀ c ∈ t, isHexDigit c = true := by
  constructor
  · rintro ⟨groups, hsizes, hdigits, rfl⟩
    obtain ⟨x, rfl, hx⟩ := List.map_eq_singleton_iff.mp hsizes
    rw [List.intercalate_singleton]
    exact ⟨hx, hdigits x List.mem_cons_self⟩
  · rintro ⟨hsize, hdigits⟩
    exact ⟨[t], by rw [List.map_singleton, hsize], by simpa using hdigits,
      List.intercalate_singleton.symm⟩

private theorem isGroups_cons : IsGroups (m :: n :: sizes) t ↔
    ∃ u v, t = u ++ '-' :: v ∧ IsGroups [m] u ∧ IsGroups (n :: sizes) v := by
  constructor
  · rintro ⟨groups, hsizes, hdigits, rfl⟩
    obtain ⟨x, rest, rfl, hx, hrest⟩ := List.map_eq_cons_iff.mp hsizes
    obtain ⟨y, rest, rfl, -, -⟩ := List.map_eq_cons_iff.mp hrest
    obtain ⟨hxdigits, hdigits⟩ := List.forall_mem_cons.mp hdigits
    refine ⟨x, ['-'].intercalate (y :: rest), ?_, isGroups_singleton.mpr ⟨hx, hxdigits⟩, y :: rest, hrest,
      hdigits, rfl⟩
    rw [List.intercalate_cons_cons, List.append_assoc, List.singleton_append]
  · rintro ⟨u, v, rfl, hu, groups, hsizes, hdigits, rfl⟩
    obtain ⟨y, rest, rfl, -, -⟩ := List.map_eq_cons_iff.mp hsizes
    obtain ⟨hsize, hudigits⟩ := isGroups_singleton.mp hu
    refine ⟨u :: y :: rest, by rw [List.map_cons, hsize, hsizes],
      List.forall_mem_cons.mpr ⟨hudigits, hdigits⟩, ?_⟩
    rw [List.intercalate_cons_cons, List.append_assoc, List.singleton_append]

private theorem matches_hexDigits_iff : (hexDigits n).Matches t ↔ IsGroups [n] t :=
  matches_times_one_iff.trans isGroups_singleton.symm

/-- The pattern of groups has a dash and a group for each size behind the first. -/
private theorem matches_groups_iff :
    (inOrder (hexDigits n :: sizes.flatMap fun m => [char '-', hexDigits m])).Matches t ↔
      IsGroups (n :: sizes) t := by
  induction sizes generalizing n t with
  | nil => exact matches_inOrder_singleton.trans matches_hexDigits_iff
  | cons m sizes ih =>
    rw [List.flatMap_cons, matches_inOrder_cons, isGroups_cons]
    constructor
    · rintro ⟨u, _, rfl, hu, hrest⟩
      obtain ⟨v, rfl, hv⟩ := matches_inOrder_char.mp hrest
      exact ⟨u, v, rfl, matches_hexDigits_iff.mp hu, ih.mp hv⟩
    · rintro ⟨u, v, rfl, hu, hv⟩
      exact ⟨u, _, rfl, matches_hexDigits_iff.mpr hu, matches_inOrder_char.mpr ⟨v, rfl, ih.mpr hv⟩⟩

/-- Each group but the last has a dash behind it. -/
private theorem length_of_isGroups (h : IsGroups (n :: sizes) t) :
    t.length + 1 = (n :: sizes).foldr (fun size rest => size + 1 + rest) 0 := by
  induction sizes generalizing n t with
  | nil => exact congrArg (· + 1) (isGroups_singleton.mp h).1
  | cons m sizes ih =>
    obtain ⟨u, v, rfl, hu, hv⟩ := isGroups_cons.mp h
    rw [List.foldr_cons, ← ih hv, List.length_append, List.length_cons, (isGroups_singleton.mp hu).1]
    omega

private theorem isHexDigit_or_dash (h : IsGroups (n :: sizes) t) :
    ∀ c ∈ t, isHexDigit c = true ∨ c = '-' := by
  induction sizes generalizing n t with
  | nil => exact fun c hc => .inl ((isGroups_singleton.mp h).2 c hc)
  | cons m sizes ih =>
    obtain ⟨u, v, rfl, hu, hv⟩ := isGroups_cons.mp h
    intro c hc
    rcases List.mem_append.mp hc with hc | hc
    · exact .inl ((isGroups_singleton.mp hu).2 c hc)
    · rcases List.mem_cons.mp hc with rfl | hc
      · exact .inr rfl
      · exact ih hv c hc

end Groups

section Guid
variable {t : Text}

theorem matches_guid_iff : guid.Matches t ↔ IsGuid t := by
  have hguid : guid =
      inOrder (hexDigits 8 :: [4, 4, 4, 12].flatMap fun m => [char '-', hexDigits m]) := rfl
  rw [hguid, matches_groups_iff, IsGuid]

theorem length_of_isGuid (h : IsGuid t) : t.length = 36 :=
  Nat.succ.inj (length_of_isGroups h)

/-- A guid begins with a digit. -/
private theorem exists_cons_of_isGuid (h : IsGuid t) : ∃ c r, t = c :: r ∧ isHexDigit c = true := by
  obtain ⟨u, v, rfl, hu, -⟩ := isGroups_cons.mp h
  obtain ⟨hsize, hdigits⟩ := isGroups_singleton.mp hu
  obtain ⟨c, u, rfl⟩ := List.exists_cons_of_length_eq_add_one hsize
  exact ⟨c, u ++ '-' :: v, rfl, hdigits c List.mem_cons_self⟩

/-- Spaces and tabs. -/
def IsBlanks (t : Text) : Prop := ∀ c ∈ t, c = ' ' ∨ c = '\t'

private theorem matches_blanks_iff : blanks.Matches t ↔ IsBlanks t := by
  simp only [blanks, matches_star_one_iff, Bool.or_eq_true, beq_iff_eq, IsBlanks]

private theorem matches_wrapped_iff : wrappedGuid.complete.Matches t ↔
    ∃ b g b', t = "guid(".toList ++ (b ++ (g ++ b')) ∧ IsBlanks b ∧ IsGuid g ∧ IsBlanks b' := by
  have hcomplete : wrappedGuid.complete = inOrder [exactly "guid(".toList, blanks, guid, blanks] := rfl
  rw [hcomplete, matches_inOrder_cons]
  constructor
  · rintro ⟨o, _, rfl, ho, hrest⟩
    obtain ⟨b, _, rfl, hb, hrest⟩ := matches_inOrder_cons.mp hrest
    obtain ⟨g, b', rfl, hg, hb'⟩ := matches_inOrder_cons.mp hrest
    rw [matches_exactly_iff.mp ho]
    exact ⟨b, g, b', rfl, matches_blanks_iff.mp hb, matches_guid_iff.mp hg,
      matches_blanks_iff.mp (matches_inOrder_singleton.mp hb')⟩
  · rintro ⟨b, g, b', rfl, hb, hg, hb'⟩
    exact ⟨_, _, rfl, matches_exactly_iff.mpr rfl, matches_inOrder_cons.mpr ⟨b, _, rfl,
      matches_blanks_iff.mpr hb, matches_inOrder_cons.mpr ⟨g, b', rfl, matches_guid_iff.mpr hg,
        matches_inOrder_singleton.mpr (matches_blanks_iff.mpr hb')⟩⟩⟩

/-- What completes a wrapped guid is read as its body. -/
private theorem matches_body_of_complete (h : wrappedGuid.complete.Matches t) :
    wrappedGuid.body.Matches t := by
  have hbody : wrappedGuid.body =
      inOrder [exactly "guid(".toList, blanks, optional (.seq guid blanks)] := rfl
  obtain ⟨b, g, b', rfl, hb, hg, hb'⟩ := matches_wrapped_iff.mp h
  have hrest : (optional (.seq guid blanks)).Matches (g ++ b') :=
    matches_optional_iff.mpr (.inl (.seq (matches_guid_iff.mpr hg) (matches_blanks_iff.mpr hb')))
  rw [hbody]
  exact matches_inOrder_cons.mpr ⟨_, _, rfl, matches_exactly_iff.mpr rfl, matches_inOrder_cons.mpr
    ⟨b, _, rfl, matches_blanks_iff.mpr hb, matches_inOrder_singleton.mpr hrest⟩⟩

/-- The spellings of a guid and their kinds: alone, or in a wrapper with blanks around it. -/
inductive WritesGuid (g : Text) : Kind → Text → Prop
  | alone : WritesGuid g .rawGuidLiteral g
  | wrapped {b b' : Text} (before : IsBlanks b) (behind : IsBlanks b') :
      WritesGuid g .guidLiteral ("guid(".toList ++ b ++ g ++ b' ++ [')'])

private theorem not_isBlank_of_isHexDigit {c : Char} (h : isHexDigit c = true) :
    Text.isBlank c = false := by
  have hrange : 48 ≤ c.toNat ∧ c.toNat ≤ 102 := by
    simp only [isHexDigit, isDigit, Char.isDigit, Bool.or_eq_true, Bool.and_eq_true, decide_eq_true_eq,
      Char.le_def, ge_iff_le, UInt32.le_iff_toNat_le, Char.reduceVal, UInt32.reduceToNat] at h
    rw [Char.toNat]
    omega
  simp only [Text.isBlank, Bool.or_eq_false_iff, Bool.and_eq_false_iff, decide_eq_false_iff_not,
    beq_eq_false_iff_ne]
  omega

/-- The guid is read back from each of its spellings, in which it occurs. -/
theorem WritesGuid.value {g : Text} {k : Kind} (h : WritesGuid g k t) (hg : IsGuid g) :
    t.guidDigits = g ∧ g <:+: t := by
  obtain ⟨c, r, hstart, hc⟩ := exists_cons_of_isGuid hg
  cases h with
  | alone =>
    refine ⟨Text.guidDigits_of_not_prefix fun hprefix => ?_, List.infix_refl _⟩
    rw [hstart] at hprefix
    obtain ⟨rfl, -⟩ := List.cons_prefix_cons.mp hprefix
    cases hc
  | @wrapped b b' before behind =>
    have hblank {b : Text} (hb : IsBlanks b) : ∀ c ∈ b, Text.isBlank c = true := by
      intro c hc
      rcases hb c hc with rfl | rfl
      · rfl
      · rfl
    have hsolid : ∀ c ∈ g, Text.isBlank c = false := by
      intro c hc
      rcases isHexDigit_or_dash hg c hc with hc | rfl
      · exact not_isBlank_of_isHexDigit hc
      · rfl
    have hwhole : "guid(".toList ++ b ++ g ++ b' ++ [')'] =
        "guid(".toList ++ (b ++ g ++ b') ++ [')'] := by simp only [List.append_assoc]
    refine ⟨?_, "guid(".toList ++ b, b' ++ [')'], by simp only [List.append_assoc]⟩
    rw [hwhole, Text.guidDigits_wrapped]
    exact Text.trim_append (hblank before) (hblank behind) (hstart ▸ List.cons_ne_nil c r) hsolid

end Guid
end Token.Lexicon

namespace Piece
open Token.Lexicon
variable {s t g : Text} {k : Kind}

private def rawGuid : Lexeme := ⟨.rawGuidLiteral, guid⟩

private theorem rawGuid_mem : rawGuid ∈ lexemes := by
  simp [rawGuid, lexemes]

/-- A guid is read as a whole however it is written. -/
theorem munch_guid (hg : IsGuid g) (h : WritesGuid g k t) : Munch t k t := by
  cases h with
  | alone =>
    have hmatch := matches_guid_iff.mpr hg
    have hopenings : ∀ x ∈ openings, x.1.head?.any isHexDigit = false := by decide
    refine .lexeme (l := rawGuid) ?_ rawGuid_mem hmatch
      ⟨List.prefix_refl _, ⟨rawGuid, rawGuid_mem, hmatch⟩, fun u hu _ => hu.length_le⟩
      fun l' mem' hmatch' => kind_eq_of_matches rawGuid_mem mem' hmatch hmatch' (.inl (by decide))
    rintro x opens hstart
    obtain ⟨c, r, rfl, hc⟩ := exists_cons_of_isGuid hg
    obtain ⟨d, o, ho⟩ := List.exists_cons_of_ne_nil (opening_ne_nil x opens)
    have hd := hopenings x opens
    rw [ho, List.cons_prefix_cons] at hstart
    rw [ho, List.head?_cons, Option.any_some, hstart.1, hc] at hd
    cases hd
  | @wrapped b b' before behind =>
    have opens : ("guid(".toList, wrappedGuid) ∈ openings := by simp [openings]
    have hcomplete : wrappedGuid.complete.Matches ("guid(".toList ++ b ++ g ++ b') :=
      matches_wrapped_iff.mpr ⟨b, g, b', by simp only [List.append_assoc], before, hg, behind⟩
    exact .of_closing opens ⟨b ++ g ++ b', by simp only [List.append_assoc]⟩
      (matches_body_of_complete hcomplete) hcomplete (r := []) (by decide)

/-- What is read as a guid is one. -/
theorem Munch.exists_guid (h : Munch s k t) (hk : k = .guidLiteral ∨ k = .rawGuidLiteral) :
    ∃ g, IsGuid g ∧ WritesGuid g k t := by
  have hlexemes : ∀ l ∈ lexemes, l.kind ≠ .guidLiteral := by decide +kernel
  cases h with
  | @closed o d b opens start body complete closing =>
    obtain ⟨mem, -⟩ := matches_opening opens
    simp only [delimited, List.mem_cons, List.not_mem_nil, or_false] at mem
    rcases mem with rfl | rfl | rfl | rfl | rfl
    · exact absurd hk (by decide)
    · exact absurd hk (by decide)
    · exact absurd hk (by decide)
    · exact absurd hk (by decide)
    · obtain ⟨b, g, b', rfl, before, hg, behind⟩ := matches_wrapped_iff.mp complete
      have hwrites : WritesGuid g .guidLiteral ("guid(".toList ++ b ++ g ++ b' ++ [')']) :=
        .wrapped before behind
      simp only [List.append_assoc] at hwrites ⊢
      exact ⟨g, hg, hwrites⟩
  | broken => exact absurd hk (by decide)
  | lexeme _ mem matched _ _ =>
    rcases hk with hk | hk
    · exact absurd hk (hlexemes _ mem)
    · cases eq_of_kind_eq rawGuid_mem mem hk (by decide +kernel)
      exact ⟨t, matches_guid_iff.mp matched, .alone⟩
  | bad => exact absurd hk (by decide)

end Piece
end CommandGrammar
