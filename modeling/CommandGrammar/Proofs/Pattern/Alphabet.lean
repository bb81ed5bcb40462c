import CommandGrammar.Proofs.Pattern.Shape

/-! The characters that a pattern can read, and repetitions of a body whose texts cannot be confused:
none of them begins another. -/
namespace CommandGrammar.Pattern

/-- Some part of the pattern reads the character. -/
def mentions (c : Char) : Pattern → Bool
  | .never => false
  | .empty => false
  | .one accepts => accepts c
  | .seq p q => p.mentions c || q.mentions c
  | .alt p q => p.mentions c || q.mentions c
  | .star p => p.mentions c

/-- A match has only characters that the pattern mentions. -/
private theorem mentions_of_mem {p : Pattern} {s : Text} (h : Matches p s) {c : Char} (hc : c ∈ s) :
    p.mentions c = true := by
  induction h with
  | empty => cases hc
  | one h =>
    rw [List.mem_singleton.mp hc]
    exact h
  | seq _ _ hp hq =>
    rw [mentions, Bool.or_eq_true]
    exact (List.mem_append.mp hc).imp hp hq
  | left _ h =>
    rw [mentions, h hc, Bool.true_or]
  | right _ h =>
    rw [mentions, h hc, Bool.or_true]
  | stop => cases hc
  | more _ _ hs ht => exact (List.mem_append.mp hc).elim hs ht

theorem not_mem_of_mentions {p : Pattern} {s : Text} {c : Char} (hp : p.mentions c = false)
    (h : Matches p s) : c ∉ s := by
  intro hc
  rw [mentions_of_mem h hc] at hp
  cases hp

theorem matches_empty_iff {s : Text} : Matches .empty s ↔ s = [] := by
  constructor
  · intro h
    cases h
    rfl
  · rintro rfl
    exact .empty

theorem matches_char_iff {c : Char} {s : Text} : Matches (char c) s ↔ s = [c] := by
  rw [char, matches_one_iff]
  constructor
  · rintro ⟨d, rfl, hd⟩
    rw [eq_of_beq hd]
  · rintro rfl
    exact ⟨c, rfl, beq_self_eq_true c⟩

theorem matches_optional_iff {p : Pattern} {s : Text} :
    Matches (optional p) s ↔ Matches p s ∨ s = [] := by
  rw [optional, matches_alt_iff, matches_empty_iff]

theorem matches_inOrder_cons {p : Pattern} {ps : List Pattern} {s : Text} :
    Matches (inOrder (p :: ps)) s ↔ ∃ u v, s = u ++ v ∧ Matches p u ∧ Matches (inOrder ps) v :=
  matches_seq_iff

/-- A fixed character at the head of a sequence. -/
theorem matches_inOrder_char {c : Char} {ps : List Pattern} {s : Text} :
    Matches (inOrder (char c :: ps)) s ↔ ∃ v, s = c :: v ∧ Matches (inOrder ps) v := by
  rw [matches_inOrder_cons]
  constructor
  · rintro ⟨u, v, rfl, hu, hv⟩
    rw [matches_char_iff.mp hu]
    exact ⟨v, rfl, hv⟩
  · rintro ⟨v, rfl, hv⟩
    exact ⟨[c], v, rfl, matches_char_iff.mpr rfl, hv⟩

theorem matches_inOrder_singleton {p : Pattern} {s : Text} :
    Matches (inOrder [p]) s ↔ Matches p s := by
  rw [matches_inOrder_cons]
  constructor
  · rintro ⟨u, v, rfl, hu, hv⟩
    rw [matches_empty_iff.mp hv, List.append_nil]
    exact hu
  · intro h
    exact ⟨s, [], (List.append_nil s).symm, h, .empty⟩

theorem matches_times_one_iff {accepts : Char → Bool} {n : Nat} {s : Text} :
    Matches (times n (.one accepts)) s ↔ s.length = n ∧ ∀ c ∈ s, accepts c = true := by
  induction n generalizing s with
  | zero =>
    rw [times, matches_empty_iff, List.length_eq_zero_iff]
    exact ⟨fun h => ⟨h, h ▸ nofun⟩, And.left⟩
  | succ n ih =>
    rw [times, matches_seq_iff]
    constructor
    · rintro ⟨u, v, rfl, hu, hv⟩
      obtain ⟨c, rfl, hc⟩ := matches_one_iff.mp hu
      obtain ⟨hlen, hall⟩ := ih.mp hv
      exact ⟨congrArg (· + 1) hlen, List.forall_mem_cons.mpr ⟨hc, hall⟩⟩
    · rintro ⟨hlen, hall⟩
      obtain ⟨c, v, rfl⟩ := List.exists_cons_of_length_eq_add_one hlen
      obtain ⟨hc, hv⟩ := List.forall_mem_cons.mp hall
      exact ⟨[c], v, rfl, .one hc, ih.mpr ⟨Nat.succ.inj hlen, hv⟩⟩

theorem Matches.star_append {p : Pattern} {s t : Text} (hs : Matches (.star p) s)
    (ht : Matches (.star p) t) : Matches (.star p) (s ++ t) := by
  generalize hq : Pattern.star p = q at hs
  induction hs with
  | stop =>
    cases hq
    exact ht
  | more hu _ _ ih =>
    cases hq
    rw [List.append_assoc]
    exact .more hu (ih rfl)
  | _ => cases hq

theorem Matches.star_singleton {p : Pattern} {s : Text} (h : Matches p s) :
    Matches (.star p) s := by
  have hs := Matches.more h .stop
  rwa [List.append_nil] at hs

/-- No text of the pattern begins another one, and the empty text is none. -/
structure IsCode (p : Pattern) : Prop where
  nonempty : ¬ Matches p []
  separate : ∀ u v, Matches p u → Matches p (u ++ v) → v = []

/-- Of two texts of a code that begin the same text, neither is longer. -/
private theorem IsCode.eq_of_append {p : Pattern} (hp : p.IsCode) {u v x y : Text}
    (hu : Matches p u) (hv : Matches p v) (h : u ++ x = v ++ y) : u = v ∧ x = y := by
  rcases List.append_eq_append_iff.mp h with ⟨w, rfl, rfl⟩ | ⟨w, rfl, rfl⟩
  · rw [hp.separate u w hu hv]
    exact ⟨(List.append_nil u).symm, rfl⟩
  · rw [hp.separate v w hv hu]
    exact ⟨List.append_nil v, rfl⟩

/-- A repetition of a code goes on where a shorter one ends. -/
theorem IsCode.star_cancel {p : Pattern} (hp : p.IsCode) {s t : Text} (hs : Matches (.star p) s)
    (h : Matches (.star p) (s ++ t)) : Matches (.star p) t := by
  generalize hq : Pattern.star p = q at hs
  induction hs with
  | stop =>
    cases hq
    exact h
  | @more p' u v hu hv _ ih =>
    cases hq
    -- The first text of the longer repetition is that of the shorter one.
    cases u with
    | nil => exact absurd hu hp.nonempty
    | cons c u =>
      obtain ⟨u', v', hsplit, hu', hv'⟩ := matches_star_cons h
      have hsame : (c :: u) ++ (v ++ t) = (c :: u') ++ v' := by
        rw [← List.append_assoc]
        exact congrArg (c :: ·) hsplit
      obtain ⟨-, hrest⟩ := hp.eq_of_append hu hu' hsame
      exact ih (hrest ▸ hv') rfl
  | _ => cases hq

end CommandGrammar.Pattern
