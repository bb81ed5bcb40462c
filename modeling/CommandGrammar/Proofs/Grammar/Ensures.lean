import CommandGrammar.Proofs.Source.Parse

/-! Postconditions of grammars: what holds of every match in a source, one law for each way of
building a grammar. -/
namespace CommandGrammar.Source
variable {α β : Type} {s : Source}

/-- Every match of `g` from `p` to `q` with value `a` has the property. -/
def Ensures (s : Source) (g : Grammar α) (P : Nat → Nat → α → Prop) : Prop :=
  ∀ ⦃p q : Nat⦄ ⦃a : α⦄, s.parse g p = some (a, q) → P p q a

namespace Ensures
variable {g h : Grammar α} {P : Nat → Nat → α → Prop}

theorem mono {Q : Nat → Nat → α → Prop} (hg : s.Ensures g P) (hPQ : ∀ p q a, P p q a → Q p q a) :
    s.Ensures g Q :=
  fun p q a ha => hPQ p q a (hg ha)

theorem any (g : Grammar α) : s.Ensures g fun _ _ _ => True := fun _ _ _ _ => trivial

theorem satisfy (accepts : Token → Bool) :
    s.Ensures (.satisfy accepts) fun p q l =>
      s.isEnd p = false ∧ accepts (s.peek p) = true ∧ q = p + 1 ∧ l = .ofToken (s.peek p) := by
  intro p q l hl
  rw [parse_satisfy] at hl
  split at hl
  · next hp =>
    cases hl
    exact ⟨hp.1, hp.2, rfl, rfl⟩
  · cases hl

theorem map {Q : Nat → Nat → β → Prop} {f : α → β} (hg : s.Ensures g fun p q a => Q p q (f a)) :
    s.Ensures (g.map f) Q := by
  intro p q b hb
  rw [parse_map] at hb
  obtain ⟨⟨a, m⟩, ha, he⟩ := Option.map_eq_some_iff.mp hb
  cases he
  exact hg ha

theorem seq {k : Grammar β} {Q : Nat → Nat → β → Prop} {R : Nat → Nat → α × β → Prop}
    (hg : s.Ensures g P) (hk : s.Ensures k Q)
    (hR : ∀ p m q a b, P p m a → Q m q b → R p q (a, b)) : s.Ensures (g.seq k) R := by
  intro p q x hx
  rw [parse_seq] at hx
  obtain ⟨⟨a, m⟩, ha, hy⟩ := Option.bind_eq_some_iff.mp hx
  obtain ⟨⟨b, r⟩, hb, he⟩ := Option.map_eq_some_iff.mp hy
  cases he
  exact hR p m q a b (hg ha) (hk hb)

/-- What a sequence begins with is what its first part does. -/
theorem seq_start {k : Grammar β} {P : Nat → Prop} (hg : s.Ensures g fun p _ _ => P p) :
    s.Ensures (g.seq k) fun p _ _ => P p :=
  seq hg (any k) fun _ _ _ _ _ ha _ => ha

theorem orElse (hg : s.Ensures g P) (hh : s.Ensures h P) : s.Ensures (g.orElse h) P := by
  intro p q a ha
  rw [parse_orElse] at ha
  rcases Option.or_eq_some_iff.mp ha with ha | ⟨_, ha⟩
  · exact hg ha
  · exact hh ha

theorem fail : s.Ensures (.fail : Grammar α) P := nofun

/-- The case of two alternatives. -/
theorem either (hg : s.Ensures g P) (hh : s.Ensures h P) : s.Ensures (.first [g, h]) P :=
  orElse hg (orElse hh fail)

theorem first {gs : List (Grammar α)} (hgs : ∀ g ∈ gs, s.Ensures g P) :
    s.Ensures (.first gs) P := by
  induction gs with
  | nil => exact fail
  | cons g gs ih =>
    rw [List.forall_mem_cons] at hgs
    exact orElse hgs.1 (ih hgs.2)

/-- A property of lists that every step of a repetition keeps, from its last step back. -/
theorem many {Q : Nat → Nat → List α → Prop} (hg : s.Ensures g P) (done : ∀ p, Q p p [])
    (more : ∀ p m q a as, P p m a → Q m q as → Q p q (a :: as)) : s.Ensures g.many Q := by
  intro p q as has
  have hsteps := parse_many_eq_some has
  clear has
  induction hsteps with
  | done p => exact done p
  | more head _ _ ih => exact more _ _ _ _ _ (hg head) ih

theorem capture {f : Span → β} {Q : Nat → Nat → β → Prop}
    (hg : s.Ensures g fun p q _ => Q p q (f ⟨p, q, s.slice p q, s.offsetAt p⟩)) :
    s.Ensures (.capture f g) Q := by
  intro p q b hb
  rw [parse_capture] at hb
  obtain ⟨⟨a, m⟩, ha, he⟩ := Option.map_eq_some_iff.mp hb
  cases he
  exact hg ha

theorem withLabel (label : String) (hg : s.Ensures g P) : s.Ensures (g.withLabel label) P := by
  intro p q a ha
  rw [parse_withLabel] at ha
  exact hg ha

theorem withHint (hint : SymbolSet) (hg : s.Ensures g P) : s.Ensures (g.withHint hint) P := by
  intro p q a ha
  rw [parse_withHint] at ha
  exact hg ha

theorem optional {Q : Nat → Nat → Option α → Prop} (hg : s.Ensures g fun p q a => Q p q (some a))
    (absent : ∀ p, Q p p none) : s.Ensures g.optional Q := by
  refine orElse (map hg) ?_
  intro p q a ha
  cases ha
  exact absent p

/-- Where the grammar does not match, the placeholder stands and nothing is consumed. -/
theorem required {placeholder : α} (hg : s.Ensures g P) (absent : ∀ p, P p p placeholder) :
    s.Ensures (g.required placeholder) P := by
  intro p q a ha
  rw [parse_required] at ha
  rcases Option.or_eq_some_iff.mp ha with ha | ⟨_, ha⟩
  · exact hg ha
  · cases ha
    exact absent p

/-- The condition of a guard leaves no trace. -/
theorem guarded {condition : Grammar β} (hg : s.Ensures g P) :
    s.Ensures (.guarded condition g) P := by
  refine map (seq (P := fun p m _ => m = p) ?_ hg ?_)
  · intro p q a ha
    rw [parse_lookahead] at ha
    obtain ⟨_, _, he⟩ := Option.map_eq_some_iff.mp ha
    cases he
    rfl
  · rintro p m q a b rfl hb
    exact hb

end Ensures
end CommandGrammar.Source
