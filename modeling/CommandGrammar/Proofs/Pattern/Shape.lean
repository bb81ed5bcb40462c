import CommandGrammar.Pattern.Lemmas

/-! What simple patterns stand for, and a test that rules out a pattern by how a text begins. -/
namespace CommandGrammar.Pattern

theorem matches_one_iff {accepts : Char → Bool} {s : Text} :
    Matches (.one accepts) s ↔ ∃ c, s = [c] ∧ accepts c = true := by
  constructor
  · intro h
    cases h with
    | one h => exact ⟨_, rfl, h⟩
  · rintro ⟨c, rfl, h⟩
    exact .one h

theorem matches_exactly_iff {t s : Text} : Matches (exactly t) s ↔ s = t := by
  induction t generalizing s with
  | nil =>
    constructor
    · intro h
      cases h
      rfl
    · rintro rfl
      exact .empty
  | cons c t ih =>
    rw [exactly, matches_seq_iff]
    constructor
    · rintro ⟨u, v, rfl, hu, hv⟩
      obtain ⟨d, rfl, hd⟩ := matches_one_iff.mp hu
      rw [ih.mp hv, eq_of_beq hd, List.singleton_append]
    · rintro rfl
      exact ⟨[c], t, rfl, .one (beq_self_eq_true c), ih.mpr rfl⟩

theorem matches_star_one_iff {accepts : Char → Bool} {s : Text} :
    Matches (.star (.one accepts)) s ↔ ∀ c ∈ s, accepts c = true := by
  induction s with
  | nil => exact ⟨fun _ => nofun, fun _ => .stop⟩
  | cons c s ih =>
    rw [List.forall_mem_cons, ← ih]
    constructor
    · intro h
      obtain ⟨u, v, rfl, hu, hv⟩ := matches_star_cons h
      obtain ⟨d, hd, ha⟩ := matches_one_iff.mp hu
      cases hd
      exact ⟨ha, hv⟩
    · rintro ⟨hc, hs⟩
      exact .more (.one hc) hs

theorem matches_plus_one_iff {accepts : Char → Bool} {s : Text} :
    Matches (plus (.one accepts)) s ↔ s ≠ [] ∧ ∀ c ∈ s, accepts c = true := by
  rw [plus, matches_seq_iff]
  constructor
  · rintro ⟨u, v, rfl, hu, hv⟩
    obtain ⟨c, rfl, hc⟩ := matches_one_iff.mp hu
    exact ⟨List.cons_ne_nil _ _, List.forall_mem_cons.mpr ⟨hc, matches_star_one_iff.mp hv⟩⟩
  · rintro ⟨hne, h⟩
    obtain ⟨c, t, rfl⟩ := List.exists_cons_of_ne_nil hne
    obtain ⟨hc, ht⟩ := List.forall_mem_cons.mp h
    exact ⟨[c], t, rfl, .one hc, matches_star_one_iff.mpr ht⟩

theorem matches_take_of_longest {p : Pattern} {s : Text} {n : Nat} (h : p.longest s = some n) :
    n ≤ s.length ∧ Matches p (s.take n) :=
  let ⟨hn, hm, _⟩ := (longest_eq_some_iff p s n).mp h
  ⟨hn, hm⟩

theorem le_of_longest {p : Pattern} {s : Text} {m n : Nat} (h : p.longest s = some n)
    (hm : m ≤ s.length) (hs : Matches p (s.take m)) : m ≤ n :=
  Nat.le_of_not_lt fun hlt => ((longest_eq_some_iff p s n).mp h).2.2 m hlt hm hs

/-- The pattern has nothing left once the text has been read. -/
def refuses (p : Pattern) (t : Text) : Bool :=
  match t.foldl (fun q c => q.after c) p with
  | .never => true
  | _ => false

/-- A pattern that refuses a text matches nothing that begins with it. -/
theorem not_matches_of_refuses {p : Pattern} {t : Text} (h : p.refuses t = true) (s : Text) :
    ¬ Matches p (t ++ s) := by
  have never : t.foldl (fun q c => q.after c) p = .never := by
    unfold refuses at h
    split at h
    · assumption
    · cases h
  clear h
  induction t generalizing p with
  | nil =>
    rw [List.foldl_nil] at never
    subst never
    exact nofun
  | cons c t ih =>
    rw [List.cons_append, ← matches_after]
    exact ih never

end CommandGrammar.Pattern
