import CommandGrammar.Pattern.Basic

/-! `accepts` decides `Matches`, and `longest` finds the greatest length of a matching beginning. -/
namespace CommandGrammar.Pattern

theorem nullable_iff (p : Pattern) : p.nullable = true ↔ Matches p [] := by
  constructor
  · intro h
    induction p with
    | never => cases h
    | empty => exact .empty
    | one a => cases h
    | seq p q hp hq =>
      rw [nullable, Bool.and_eq_true] at h
      exact .seq (hp h.1) (hq h.2)
    | alt p q hp hq =>
      rw [nullable, Bool.or_eq_true] at h
      exact h.elim (fun h => .left (hp h)) (fun h => .right (hq h))
    | star p _ => exact .stop
  · intro h
    generalize hs : ([] : Text) = s at h
    induction h with
    | empty => rfl
    | one h => cases hs
    | seq _ _ hp hq =>
      obtain ⟨rfl, rfl⟩ := List.append_eq_nil_iff.mp hs.symm
      rw [nullable, hp rfl, hq rfl, Bool.and_self]
    | left _ h => rw [nullable, h hs, Bool.true_or]
    | right _ h => rw [nullable, h hs, Bool.or_true]
    | stop => rfl
    | more _ _ _ _ => rfl

theorem matches_seq_iff {p q : Pattern} {s : Text} :
    Matches (.seq p q) s ↔ ∃ u v, s = u ++ v ∧ Matches p u ∧ Matches q v := by
  constructor
  · intro h
    cases h with
    | seq hp hq => exact ⟨_, _, rfl, hp, hq⟩
  · rintro ⟨u, v, rfl, hp, hq⟩
    exact .seq hp hq

theorem matches_alt_iff {p q : Pattern} {s : Text} :
    Matches (.alt p q) s ↔ Matches p s ∨ Matches q s := by
  constructor
  · intro h
    cases h with
    | left h => exact .inl h
    | right h => exact .inr h
  · exact fun h => h.elim .left .right

private theorem matches_andThen (p q : Pattern) (s : Text) :
    Matches (andThen p q) s ↔ Matches (.seq p q) s := by
  unfold andThen
  split
  · constructor
    · intro h
      cases h
    · intro h
      cases h with
      | seq hp _ => cases hp
  · constructor
    · exact fun h => .seq .empty h
    · intro h
      cases h with
      | seq hp hq =>
        cases hp
        exact hq
  · rfl

private theorem matches_either (p q : Pattern) (s : Text) :
    Matches (either p q) s ↔ Matches (.alt p q) s := by
  unfold either
  split
  · refine ⟨.right, fun h => ?_⟩
    cases h with
    | left h => cases h
    | right h => exact h
  · refine ⟨.left, fun h => ?_⟩
    cases h with
    | left h => exact h
    | right h => cases h
  · rfl

/-- A non-empty text of a repetition starts with a non-empty text of the body. -/
theorem matches_star_cons {p : Pattern} {c : Char} {s : Text} (h : Matches (.star p) (c :: s)) :
    ∃ u v, s = u ++ v ∧ Matches p (c :: u) ∧ Matches (.star p) v := by
  generalize hq : Pattern.star p = q at h
  generalize hs : c :: s = t at h
  induction h with
  | stop => cases hs
  | @more p' u v hu hv _ ih =>
    cases hq
    cases u with
    | nil => exact ih rfl hs
    | cons d u =>
      obtain ⟨rfl, rfl⟩ := List.cons.inj hs
      exact ⟨u, v, rfl, hu, hv⟩
  | _ => cases hq

private theorem matches_seq_cons (p q : Pattern) (c : Char) (s : Text) :
    Matches (.seq p q) (c :: s) ↔
      (∃ u v, s = u ++ v ∧ Matches p (c :: u) ∧ Matches q v) ∨
        (p.nullable = true ∧ Matches q (c :: s)) := by
  rw [matches_seq_iff, nullable_iff]
  constructor
  · rintro ⟨u, v, huv, hu, hv⟩
    cases u with
    | nil => exact .inr ⟨hu, huv ▸ hv⟩
    | cons d u =>
      obtain ⟨rfl, rfl⟩ := List.cons.inj huv
      exact .inl ⟨u, v, rfl, hu, hv⟩
  · rintro (⟨u, v, rfl, hu, hv⟩ | ⟨hp, hv⟩)
    · exact ⟨c :: u, v, rfl, hu, hv⟩
    · exact ⟨[], c :: s, rfl, hp, hv⟩

/-- What is left after a character matches exactly what may follow the character. -/
theorem matches_after (c : Char) (p : Pattern) (s : Text) :
    Matches (p.after c) s ↔ Matches p (c :: s) := by
  induction p generalizing s with
  | never => exact ⟨nofun, nofun⟩
  | empty => exact ⟨nofun, nofun⟩
  | one a =>
    by_cases h : a c = true
    · rw [after, if_pos h]
      constructor
      · intro h'
        cases h'
        exact .one h
      · intro h'
        cases h'
        exact .empty
    · rw [after, if_neg h]
      constructor
      · exact nofun
      · intro h'
        cases h' with
        | one h' => exact absurd h' h
  | seq p q hp hq =>
    have hs : Matches (.seq (p.after c) q) s ↔
        ∃ u v, s = u ++ v ∧ Matches p (c :: u) ∧ Matches q v := by
      simp only [matches_seq_iff, hp]
    by_cases h : p.nullable = true
    · rw [after, if_pos h, matches_either, matches_alt_iff, matches_andThen, matches_seq_cons, hs,
        hq]
      simp only [h, true_and]
    · rw [after, if_neg h, matches_andThen, matches_seq_cons, hs]
      exact ⟨.inl, fun h' => h'.elim id (fun h' => absurd h'.1 h)⟩
  | alt p q hp hq => rw [after, matches_either, matches_alt_iff, matches_alt_iff, hp, hq]
  | star p hp =>
    rw [after, matches_andThen, matches_seq_iff]
    constructor
    · rintro ⟨u, v, rfl, hu, hv⟩
      exact .more ((hp u).mp hu) hv
    · intro h
      obtain ⟨u, v, rfl, hu, hv⟩ := matches_star_cons h
      exact ⟨u, v, rfl, (hp u).mpr hu, hv⟩

theorem accepts_iff (p : Pattern) (s : Text) : p.accepts s = true ↔ Matches p s := by
  induction s generalizing p with
  | nil => exact nullable_iff p
  | cons c s ih => rw [accepts, ih, matches_after]

private theorem longest_nil (p : Pattern) :
    p.longest [] = if p.nullable then some 0 else none := by
  cases p <;> rfl

private theorem longest_cons (p : Pattern) (c : Char) (s : Text) :
    p.longest (c :: s) =
      match (p.after c).longest s with
      | some n => some (n + 1)
      | none => if p.nullable then some 0 else none := by
  cases p with
  | never => cases s <;> rfl
  | _ => rfl

/-- Nothing is found exactly if no beginning matches. -/
theorem longest_eq_none_iff (p : Pattern) (s : Text) :
    p.longest s = none ↔ ∀ m, ¬ Matches p (s.take m) := by
  induction s generalizing p with
  | nil =>
    simp only [longest_nil, List.take_nil, ← nullable_iff]
    cases p.nullable <;> simp
  | cons c s ih =>
    rw [longest_cons]
    cases hl : (p.after c).longest s with
    | some n =>
      have h : ¬ ∀ m, ¬ Matches (p.after c) (s.take m) := by
        rw [← ih, hl]
        exact nofun
      simp only [matches_after] at h
      exact ⟨nofun, fun h' => absurd (fun m => h' (m + 1)) h⟩
    | none =>
      have h := (ih _).mp hl
      simp only [matches_after] at h
      cases hn : p.nullable with
      | true => exact ⟨nofun, fun h' => absurd ((nullable_iff p).mp hn) (h' 0)⟩
      | false =>
        refine ⟨fun _ m => ?_, fun _ => rfl⟩
        cases m with
        | zero => exact fun h' => by simp [(nullable_iff p).mpr h'] at hn
        | succ m => exact h m

/-- The length found matches, and no greater length does. -/
theorem longest_eq_some_iff (p : Pattern) (s : Text) (n : Nat) :
    p.longest s = some n ↔
      n ≤ s.length ∧ Matches p (s.take n) ∧
        ∀ m, n < m → m ≤ s.length → ¬ Matches p (s.take m) := by
  induction s generalizing p n with
  | nil =>
    rw [longest_nil]
    cases hn : p.nullable with
    | true =>
      have h := (nullable_iff p).mp hn
      constructor
      · rintro h'
        cases h'
        exact ⟨Nat.le_refl 0, h, fun m h1 h2 => absurd h2 (Nat.not_le.mpr h1)⟩
      · rintro ⟨h', _⟩
        rw [Nat.le_zero.mp h']
        rfl
    | false =>
      refine ⟨nofun, fun ⟨_, h, _⟩ => ?_⟩
      rw [List.take_nil, ← nullable_iff, hn] at h
      cases h
  | cons c s ih =>
    rw [longest_cons]
    cases hl : (p.after c).longest s with
    | some k =>
      obtain ⟨hk, hm, hmax⟩ := (ih _ _).mp hl
      have hk' : Matches p ((c :: s).take (k + 1)) := (matches_after c p _).mp hm
      have hmax' (m : Nat) (h : k < m) (h' : m ≤ s.length) : ¬ Matches p ((c :: s).take (m + 1)) :=
        fun h'' => hmax m h h' ((matches_after c p _).mpr h'')
      constructor
      · intro h
        cases h
        refine ⟨Nat.succ_le_succ hk, hk', fun m h1 h2 => ?_⟩
        cases m with
        | zero => omega
        | succ m => exact hmax' m (Nat.lt_of_succ_lt_succ h1) (Nat.le_of_succ_le_succ h2)
      · rintro ⟨hn, hn', hnmax⟩
        have h1 : ¬ n < k + 1 := fun h => hnmax (k + 1) h (Nat.succ_le_succ hk) hk'
        cases n with
        | zero => omega
        | succ n =>
          have h2 : ¬ k < n := fun h => hmax' n h (Nat.le_of_succ_le_succ hn) hn'
          rw [show k = n by omega]
    | none =>
      have h := (longest_eq_none_iff _ _).mp hl
      simp only [matches_after] at h
      cases hn : p.nullable with
      | true =>
        constructor
        · intro h'
          cases h'
          refine ⟨Nat.zero_le _, (nullable_iff p).mp hn, fun m h1 _ => ?_⟩
          cases m with
          | zero => omega
          | succ m => exact h m
        · rintro ⟨_, hm, _⟩
          cases n with
          | zero => rfl
          | succ n => exact absurd hm (h n)
      | false =>
        refine ⟨nofun, fun ⟨_, hm, _⟩ => ?_⟩
        cases n with
        | zero =>
          rw [List.take_zero, ← nullable_iff, hn] at hm
          cases hm
        | succ n => exact absurd hm (h n)

end CommandGrammar.Pattern
