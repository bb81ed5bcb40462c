import CommandGrammar.Proofs.Source.Parse

/-! How a grammar comes to its result, rule by rule. A repetition goes on for as long as its body ends
elsewhere than it began, and no rule says that this has an end: that every grammar has a result at
every position is a fact about all the rules together. -/
namespace CommandGrammar.Source
variable {α : Type} {s : Source}

/-- At a position a grammar comes to a result: none, or a value and the position behind it. -/
inductive Evaluates (s : Source) : {α : Type} → Grammar α → Nat → Option (α × Nat) → Prop
  | accept {accepts : Token → Bool} {p : Nat} (inside : s.isEnd p = false)
      (accepted : accepts (s.peek p) = true) :
      Evaluates s (.satisfy accepts) p (some (.ofToken (s.peek p), p + 1))
  | refuse {accepts : Token → Bool} {p : Nat}
      (refused : ¬ (s.isEnd p = false ∧ accepts (s.peek p) = true)) :
      Evaluates s (.satisfy accepts) p none
  | fail {α : Type} {p : Nat} : Evaluates s (.fail : Grammar α) p none
  | pure {α : Type} {a : α} {p : Nat} : Evaluates s (.pure a) p (some (a, p))
  | supply {α : Type} {label : String} {a : α} {p : Nat} :
      Evaluates s (.supply label a) p (some (a, p))
  | map {α β : Type} {f : α → β} {g : Grammar α} {p : Nat} {r : Option (α × Nat)}
      (inner : Evaluates s g p r) : Evaluates s (g.map f) p (r.map fun (a, q) => (f a, q))
  | seq_none {α β : Type} {g : Grammar α} {h : Grammar β} {p : Nat} (first : Evaluates s g p none) :
      Evaluates s (g.seq h) p none
  | seq_some {α β : Type} {g : Grammar α} {h : Grammar β} {p m : Nat} {a : α}
      {r : Option (β × Nat)} (first : Evaluates s g p (some (a, m))) (second : Evaluates s h m r) :
      Evaluates s (g.seq h) p (r.map fun (b, q) => ((a, b), q))
  | left {α : Type} {g h : Grammar α} {p : Nat} {x : α × Nat} (first : Evaluates s g p (some x)) :
      Evaluates s (g.orElse h) p (some x)
  | right {α : Type} {g h : Grammar α} {p : Nat} {r : Option (α × Nat)}
      (first : Evaluates s g p none) (second : Evaluates s h p r) : Evaluates s (g.orElse h) p r
  | done {α : Type} {g : Grammar α} {p : Nat} (body : Evaluates s g p none) :
      Evaluates s g.many p (some ([], p))
  /-- The body matched without consuming anything: its value is dropped. -/
  | still {α : Type} {g : Grammar α} {p : Nat} {a : α} (body : Evaluates s g p (some (a, p))) :
      Evaluates s g.many p (some ([], p))
  | again {α : Type} {g : Grammar α} {p m : Nat} {a : α} {r : Option (List α × Nat)}
      (body : Evaluates s g p (some (a, m))) (moved : m ≠ p) (rest : Evaluates s g.many m r) :
      Evaluates s g.many p (r.map fun (as, q) => (a :: as, q))
  | lookahead {α : Type} {g : Grammar α} {p : Nat} {r : Option (α × Nat)}
      (inner : Evaluates s g p r) : Evaluates s g.lookahead p (r.map fun _ => ((), p))
  | capture {α β : Type} {f : Span → β} {g : Grammar α} {p : Nat} {r : Option (α × Nat)}
      (inner : Evaluates s g p r) :
      Evaluates s (.capture f g) p
        (r.map fun (_, q) => (f ⟨p, q, s.slice p q, s.offsetAt p⟩, q))
  | annotate {α : Type} {note : Note} {g : Grammar α} {p : Nat} {r : Option (α × Nat)}
      (inner : Evaluates s g p r) : Evaluates s (.annotate note g) p r

/-- A grammar comes to the result that is computed, and so it comes to one. -/
theorem evaluates_parse (s : Source) (g : Grammar α) (p : Nat) :
    s.Evaluates g p (s.parse g p) := by
  induction g generalizing p with
  | satisfy accepts =>
    rw [parse_satisfy]
    split
    · next h => exact .accept h.1 h.2
    · next h => exact .refuse h
  | fail => exact .fail
  | pure a => exact .pure
  | supply label a => exact .supply
  | map f g ih =>
    rw [parse_map]
    exact .map (ih p)
  | seq g h ihg ihh =>
    have hg := ihg p
    rw [parse_seq]
    cases hr : s.parse g p with
    | none =>
      rw [hr] at hg
      exact .seq_none hg
    | some x =>
      rw [hr] at hg
      exact .seq_some hg (ihh x.2)
  | orElse g h ihg ihh =>
    have hg := ihg p
    rw [parse_orElse]
    cases hr : s.parse g p with
    | none =>
      rw [hr] at hg
      exact .right hg (ihh p)
    | some x =>
      rw [hr] at hg
      exact .left hg
  | many g ih =>
    -- The body has a result everywhere; behind a step that moved on so has the repetition.
    induction p using repetition_induction (s := s) g with
    | step p rest =>
      have hg := ih p
      rw [parse_many]
      cases hr : s.parse g p with
      | none =>
        rw [hr] at hg
        exact .done hg
      | some x =>
        obtain ⟨a, m⟩ := x
        rw [hr] at hg
        by_cases hm : p < m
        · simp only [if_pos hm]
          exact .again hg (Nat.ne_of_gt hm) (rest a m hr hm)
        · obtain rfl : m = p := Nat.le_antisymm (Nat.le_of_not_lt hm) (parse_le hr)
          simp only [if_neg hm]
          exact .still hg
  | lookahead g ih =>
    rw [parse_lookahead]
    exact .lookahead (ih p)
  | capture f g ih =>
    rw [parse_capture]
    exact .capture (ih p)
  | annotate note g ih =>
    rw [parse_annotate]
    exact .annotate (ih p)

/-- A grammar comes to no other result than the one that is computed. -/
theorem Evaluates.parse_eq {g : Grammar α} {p : Nat} {r : Option (α × Nat)}
    (h : s.Evaluates g p r) : s.parse g p = r := by
  induction h with
  | accept hinside haccepted => rw [parse_satisfy, if_pos ⟨hinside, haccepted⟩]
  | refuse hrefused => rw [parse_satisfy, if_neg hrefused]
  | fail => rfl
  | pure => rfl
  | supply => rfl
  | map _ ih => rw [parse_map, ih]
  | seq_none _ ih => rw [parse_seq, ih, Option.bind_none]
  | seq_some _ _ ihg ihh => simp only [parse_seq, ihg, Option.bind_some, ihh]
  | left _ ih => rw [parse_orElse, ih, Option.some_or]
  | right _ _ ihg ihh => rw [parse_orElse, ihg, Option.none_or, ihh]
  | done _ ih => rw [parse_many, ih]
  | still _ ih =>
    rw [parse_many, ih]
    exact if_neg (Nat.lt_irrefl _)
  | again _ hmoved _ ihg ihrest =>
    have hlt := Nat.lt_of_le_of_ne (parse_le ihg) hmoved.symm
    rw [parse_many, ihg]
    simp only [if_pos hlt, ihrest]
  | lookahead _ ih => rw [parse_lookahead, ih]
  | capture _ ih => rw [parse_capture, ih]
  | annotate _ ih => rw [parse_annotate, ih]

theorem evaluates_iff {g : Grammar α} {p : Nat} {r : Option (α × Nat)} :
    s.Evaluates g p r ↔ r = s.parse g p := by
  constructor
  · intro h
    exact h.parse_eq.symm
  · rintro rfl
    exact evaluates_parse s g p

end CommandGrammar.Source
