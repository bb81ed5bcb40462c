import CommandGrammar.Proofs.Source.Window

/-! What each way of building a grammar means for a source and a position, with no window in sight:
a match is a value and the position behind it. -/
namespace CommandGrammar.Source
open Grammar
variable {α β γ : Type} {s : Source} {p q : Nat}

/-- A match is a run on the window that consumes tokens the window has. -/
theorem parse_eq_some_iff {g : Grammar α} {a : α} :
    s.parse g p = some (a, q) ↔
      ∃ n ≤ (s.window p).tokens.length, (g.run (s.window p)).result = some (a, n) ∧ q = p + n := by
  constructor
  · intro h
    obtain ⟨⟨b, n⟩, hr, he⟩ := Option.map_eq_some_iff.mp h
    cases he
    exact ⟨n, run_within g _ _ _ hr, hr, rfl⟩
  · rintro ⟨n, -, hr, rfl⟩
    rw [parse, hr, Option.map_some]

/-- Every token that a match steps over is one of the source and no end marker. -/
theorem parse_tokens {g : Grammar α} {a : α} (h : s.parse g p = some (a, q)) :
    p ≤ q ∧ ∀ i, p ≤ i → i < q → i < s.size ∧ s.isEnd i = false := by
  obtain ⟨n, hn, _, rfl⟩ := parse_eq_some_iff.mp h
  refine ⟨Nat.le_add_right p n, fun i hp hi => ?_⟩
  obtain ⟨j, rfl⟩ := Nat.exists_eq_add_of_le hp
  obtain ⟨hs, _, he⟩ := window_tokens s p j (by omega)
  exact ⟨hs, he⟩

theorem parse_le {g : Grammar α} {a : α} (h : s.parse g p = some (a, q)) : p ≤ q :=
  (parse_tokens h).1

/-- No match goes on behind the final end marker. -/
theorem parse_le_size {g : Grammar α} {a : α} (h : s.parse g p = some (a, q)) (hp : p ≤ s.size) :
    q ≤ s.size := by
  apply Nat.le_of_not_lt
  intro hq
  exact Nat.lt_irrefl _ ((parse_tokens h).2 s.size hp hq).1

/-- One token is read unless it is an end marker or not wanted. -/
theorem parse_satisfy (accepts : Token → Bool) :
    s.parse (.satisfy accepts) p =
      if s.isEnd p = false ∧ accepts (s.peek p) = true
      then some (.ofToken (s.peek p), p + 1) else none := by
  cases he : s.isEnd p with
  | true => simp only [parse, run, window_tokens_of_isEnd he, Outcome.failure, Option.map_none,
      Bool.true_eq_false, false_and, if_false]
  | false =>
    simp only [parse, run, window_tokens_of_not_isEnd he, true_and]
    split
    · rfl
    · rfl

theorem parse_pure (a : α) : s.parse (.pure a) p = some (a, p) := rfl

theorem parse_supply (label : String) (a : α) : s.parse (.supply label a) p = some (a, p) := rfl

theorem parse_map (f : α → β) (g : Grammar α) :
    s.parse (g.map f) p = (s.parse g p).map fun (a, m) => (f a, m) := by
  simp only [parse, run, Outcome.map, Option.map_map]
  rfl

theorem parse_seq (g : Grammar α) (h : Grammar β) :
    s.parse (g.seq h) p =
      (s.parse g p).bind fun (a, m) => (s.parse h m).map fun (b, r) => ((a, b), r) := by
  cases hr : (g.run (s.window p)).result with
  | none => simp only [parse, run, Outcome.andThen, hr, Option.map_none, Option.bind_none]
  | some x =>
    obtain ⟨a, n⟩ := x
    have hn := run_within g _ _ _ hr
    simp only [parse, run, Outcome.andThen, hr, Option.map_some, Option.bind_some,
      window_advance s p n hn, Outcome.map, Option.map_map]
    congr 1
    funext y
    simp only [Function.comp_apply, Nat.add_assoc]

theorem parse_orElse (g h : Grammar α) :
    s.parse (g.orElse h) p = (s.parse g p).or (s.parse h p) := by
  cases hr : (g.run (s.window p)).result with
  | none => simp only [parse, run, Outcome.orElse, hr, Option.map_none, Option.none_or]
  | some x => simp only [parse, run, Outcome.orElse, hr, Option.map_some, Option.some_or]

/-- A repetition ends where its body fails or stands still. -/
theorem parse_many (g : Grammar α) :
    s.parse g.many p =
      match s.parse g p with
      | none => some ([], p)
      | some (a, m) =>
        if p < m then (s.parse g.many m).map fun (as, r) => (a :: as, r) else some ([], p) := by
  simp only [parse, run]
  rw [Outcome.repeated]
  cases hr : (g.run (s.window p)).result with
  | none => simp only [Option.map_none, Option.map_some, Nat.add_zero]
  | some x =>
    obtain ⟨a, n⟩ := x
    have hn := run_within g _ _ _ hr
    simp only [Option.map_some]
    by_cases h0 : 0 < n
    · rw [if_pos ⟨h0, hn⟩, if_pos (by omega), window_advance s p n hn]
      simp only [Option.map_map]
      congr 1
      funext y
      simp only [Function.comp_apply, Nat.add_assoc]
    · rw [if_neg (fun h => h0 h.1), if_neg (by omega), Option.map_some, Nat.add_zero]

/-- What holds wherever it holds behind the next step of a repetition holds everywhere: each step
brings the repetition nearer to the end. -/
theorem repetition_induction (g : Grammar α) {motive : Nat → Prop}
    (step : ∀ p, (∀ a m, s.parse g p = some (a, m) → p < m → motive m) → motive p) (p : Nat) :
    motive p := by
  induction hleft : s.size - p using Nat.strongRecOn generalizing p with
  | ind left ih =>
    subst hleft
    refine step p fun a m ha hm => ih (s.size - m) ?_ m rfl
    have hp := ((parse_tokens ha).2 p (Nat.le_refl p) hm).1
    omega

theorem isSome_parse_many (g : Grammar α) (p : Nat) : (s.parse g.many p).isSome = true := by
  induction p using repetition_induction (s := s) g with
  | step p rest =>
    rw [parse_many]
    split
    · rfl
    · next a m ha =>
      split
      · next hm => rw [Option.isSome_map, rest a m ha hm]
      · rfl

/-- Where a repetition ended its body fails or stands still. -/
theorem parse_many_stops {g : Grammar α} {as : List α} (h : s.parse g.many p = some (as, q)) :
    s.parse g q = none ∨ ∃ a, s.parse g q = some (a, q) := by
  induction p using repetition_induction (s := s) g generalizing as with
  | step p ih =>
    rw [parse_many] at h
    split at h
    · next hnone =>
      cases h
      exact .inl hnone
    · next a m ha =>
      split at h
      · next hm =>
        obtain ⟨⟨bs, r⟩, hr, he⟩ := Option.map_eq_some_iff.mp h
        cases he
        exact ih a m ha hm hr
      · next hm =>
        obtain rfl : m = p := Nat.le_antisymm (Nat.le_of_not_lt hm) (parse_le ha)
        cases h
        exact .inr ⟨a, ha⟩

/-- The body of a repetition does not go on from where the repetition ended. -/
theorem parse_many_rests {g : Grammar α} {as : List α} (h : s.parse g.many p = some (as, q)) {a : α}
    {n : Nat} (ha : s.parse g q = some (a, n)) : n = q := by
  rcases parse_many_stops h with hnone | ⟨b, hstill⟩
  · rw [ha] at hnone
    cases hnone
  · rw [ha] at hstill
    cases hstill
    rfl

theorem parse_lookahead (g : Grammar α) :
    s.parse g.lookahead p = (s.parse g p).map fun _ => ((), p) := by
  simp only [parse, run, Option.map_map]
  rfl

theorem parse_capture (f : Span → β) (g : Grammar α) :
    s.parse (.capture f g) p =
      (s.parse g p).map fun (_, m) => (f ⟨p, m, s.slice p m, s.offsetAt p⟩, m) := by
  cases hr : (g.run (s.window p)).result with
  | none => simp only [parse, run, hr, Option.map_none]
  | some x =>
    obtain ⟨a, n⟩ := x
    have hn := run_within g _ _ _ hr
    simp only [parse, run, hr, Option.map_some, take_window_tokens s p n hn, window_offset]
    rfl

/-- A note changes nothing about a match. -/
theorem parse_annotate (note : Note) (g : Grammar α) :
    s.parse (.annotate note g) p = s.parse g p := by
  simp only [parse, run, Outcome.report_result]

theorem parse_withNote (note : Note) (g : Grammar α) : s.parse (g.withNote note) p = s.parse g p := by
  unfold withNote
  split
  · rw [parse_annotate, parse_annotate]
  · rw [parse_annotate]

theorem parse_withLabel (label : String) (g : Grammar α) :
    s.parse (g.withLabel label) p = s.parse g p :=
  parse_withNote _ g

theorem parse_withHint (hint : SymbolSet) (g : Grammar α) :
    s.parse (g.withHint hint) p = s.parse g p :=
  parse_withNote _ g

theorem parse_optional (g : Grammar α) :
    s.parse g.optional p =
      ((s.parse g p).map fun (a, m) => (some a, m)).or (some (none, p)) := by
  rw [Grammar.optional, parse_orElse, parse_map, parse_pure]

theorem parse_required (g : Grammar α) (placeholder : α) :
    s.parse (g.required placeholder) p = (s.parse g p).or (some (placeholder, p)) := by
  rw [required, parse_annotate, parse_orElse, parse_supply]

/-- The steps of a repetition, each of which consumes something. -/
inductive Steps (s : Source) (g : Grammar α) : Nat → List α → Nat → Prop
  | done (p : Nat) : Steps s g p [] p
  | more {p m q : Nat} {a : α} {as : List α} (head : s.parse g p = some (a, m)) (progress : p < m)
      (tail : Steps s g m as q) : Steps s g p (a :: as) q

theorem parse_many_eq_some {g : Grammar α} {as : List α} (h : s.parse g.many p = some (as, q)) :
    Steps s g p as q := by
  induction as generalizing p with
  | nil =>
    rw [parse_many] at h
    split at h
    · cases h
      exact .done _
    · split at h
      · obtain ⟨⟨bs, r⟩, _, he⟩ := Option.map_eq_some_iff.mp h
        cases he
      · cases h
        exact .done _
  | cons a as ih =>
    rw [parse_many] at h
    split at h
    · cases h
    · next b m hb =>
      split at h
      · next hm =>
        obtain ⟨⟨bs, r⟩, hr, he⟩ := Option.map_eq_some_iff.mp h
        cases he
        exact .more hb hm (ih hr)
      · cases h

end CommandGrammar.Source
