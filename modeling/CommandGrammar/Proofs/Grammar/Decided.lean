import CommandGrammar.Proofs.Source.Parse

/-! Where a grammar matches, without regard to what it returns. Grammars that never fail leave it to the
parts before them; so the first few tokens decide, and what follows can be anything. -/
namespace CommandGrammar

/-- Tokens of the same kind and with the same text. -/
def Token.Alike (t t' : Token) : Prop := t.kind = t'.kind ∧ t.text = t'.text

namespace Source
variable {α β : Type} {s : Source} {p : Nat} {g h : Grammar α}

/-- The `n` tokens from a position of one source on are like those from a position of another on. -/
def Alike (s : Source) (p : Nat) (s' : Source) (p' n : Nat) : Prop :=
  ∀ i < n, (s.peek (p + i)).Alike (s'.peek (p' + i))

namespace Alike
variable {s' : Source} {p' n : Nat}

theorem head (h : s.Alike p s' p' (n + 1)) : (s.peek p).Alike (s'.peek p') := h 0 n.zero_lt_succ

theorem tail (h : s.Alike p s' p' (n + 1)) : s.Alike (p + 1) s' (p' + 1) n := by
  intro i hi
  rw [Nat.add_right_comm, Nat.add_right_comm p']
  exact h (i + 1) (Nat.succ_lt_succ hi)

theorem isEnd_eq (h : s.Alike p s' p' (n + 1)) : s.isEnd p = s'.isEnd p' := by
  rw [isEnd, isEnd, Token.isEnd, Token.isEnd, h.head.1]

end Alike

theorem isSome_parse_satisfy {accepts : Token → Bool} :
    (s.parse (.satisfy accepts) p).isSome = true ↔
      s.isEnd p = false ∧ accepts (s.peek p) = true := by
  rw [parse_satisfy]
  split
  · next h => exact iff_of_true rfl h
  · next h => exact iff_of_false nofun h

theorem isSome_parse_kind {k : Kind} (hk : k ≠ .endOfText) :
    (s.parse (.kind k) p).isSome = true ↔ (s.peek p).kind = k := by
  rw [Grammar.kind, isSome_parse_satisfy, beq_iff_eq, isEnd, Token.isEnd, beq_eq_false_iff_ne]
  constructor
  · rintro ⟨-, h⟩
    exact h
  · rintro rfl
    exact ⟨hk, rfl⟩

theorem isSome_parse_text {t : Text} :
    (s.parse (.text t) p).isSome = true ↔ s.isEnd p = false ∧ (s.peek p).text = t := by
  rw [Grammar.text, isSome_parse_satisfy, beq_iff_eq]

theorem isSome_parse_map (f : α → β) :
    (s.parse (g.map f) p).isSome = (s.parse g p).isSome := by
  rw [parse_map, Option.isSome_map]

theorem isSome_parse_capture (f : Span → β) :
    (s.parse (.capture f g) p).isSome = (s.parse g p).isSome := by
  rw [parse_capture, Option.isSome_map]

private theorem isSome_parse_orElse :
    (s.parse (g.orElse h) p).isSome = ((s.parse g p).isSome || (s.parse h p).isSome) := by
  rw [parse_orElse, Option.isSome_or]

theorem isSome_parse_first (gs : List (Grammar α)) :
    (s.parse (.first gs) p).isSome = gs.any fun g => (s.parse g p).isSome := by
  induction gs with
  | nil => rfl
  | cons g gs ih => rw [Grammar.first, isSome_parse_orElse, ih, List.any_cons]

/-- A sequence that matches has a first part that does. -/
theorem isSome_of_seq {k : Grammar β} (hs : (s.parse (g.seq k) p).isSome = true) :
    (s.parse g p).isSome = true := by
  rw [parse_seq] at hs
  exact Option.isSome_of_isSome_bind hs

theorem isSome_of_guarded {condition : Grammar β}
    (hs : (s.parse (.guarded condition g) p).isSome = true) :
    (s.parse condition p).isSome = true := by
  rw [Grammar.guarded, isSome_parse_map] at hs
  have hcondition := isSome_of_seq hs
  rwa [parse_lookahead, Option.isSome_map] at hcondition

end Source

namespace Grammar
variable {α β : Type} {g h : Grammar α} {n : Nat}

/-- It matches at every position of every source. -/
def Unfailing (g : Grammar α) : Prop := ∀ (s : Source) (p : Nat), (s.parse g p).isSome = true

namespace Unfailing

theorem many (g : Grammar α) : g.many.Unfailing := fun _ p => Source.isSome_parse_many g p

theorem optional (g : Grammar α) : g.optional.Unfailing := by
  intro s p
  rw [Source.parse_optional, Option.isSome_or]
  exact Bool.or_true _

theorem required (g : Grammar α) (placeholder : α) : (g.required placeholder).Unfailing := by
  intro s p
  rw [Source.parse_required, Option.isSome_or]
  exact Bool.or_true _

theorem map (hg : g.Unfailing) (f : α → β) : (g.map f).Unfailing := by
  intro s p
  rw [Source.isSome_parse_map, hg s p]

theorem capture (hg : g.Unfailing) (f : Span → β) : (Grammar.capture f g).Unfailing := by
  intro s p
  rw [Source.isSome_parse_capture, hg s p]

theorem withLabel (hg : g.Unfailing) (label : String) : (g.withLabel label).Unfailing := by
  intro s p
  rw [Source.parse_withLabel, hg s p]

/-- Behind the first part of a sequence nothing fails, so the first part decides. -/
theorem isSome_parse_seq {k : Grammar β} (hk : k.Unfailing) (s : Source) (p : Nat) :
    (s.parse (g.seq k) p).isSome = (s.parse g p).isSome := by
  rw [Source.parse_seq]
  cases s.parse g p with
  | none => rfl
  | some x => rw [Option.bind_some, Option.isSome_map, hk s x.2, Option.isSome_some]

theorem seq {k : Grammar β} (hg : g.Unfailing) (hk : k.Unfailing) : (g.seq k).Unfailing := by
  intro s p
  rw [hk.isSome_parse_seq, hg s p]

end Unfailing

/-- The next `n` tokens decide whether it matches. -/
def DecidedBy (n : Nat) (g : Grammar α) : Prop :=
  ∀ ⦃s s' : Source⦄ ⦃p p' : Nat⦄, s.Alike p s' p' n →
    (s.parse g p).isSome = (s'.parse g p').isSome

/-- A test that tells no tokens apart that are alike. -/
def Blind (accepts : Token → Bool) : Prop := ∀ ⦃t t' : Token⦄, t.Alike t' → accepts t = accepts t'

namespace DecidedBy

theorem mono {m : Nat} (hg : DecidedBy n g) (hle : n ≤ m) : DecidedBy m g :=
  fun _ _ _ _ halike => hg fun i hi => halike i (Nat.lt_of_lt_of_le hi hle)

theorem fail : DecidedBy n (.fail : Grammar α) := fun _ _ _ _ _ => rfl

theorem map (hg : DecidedBy n g) (f : α → β) : DecidedBy n (g.map f) := by
  intro s s' p p' halike
  rw [Source.isSome_parse_map, Source.isSome_parse_map, hg halike]

theorem capture (hg : DecidedBy n g) (f : Span → β) : DecidedBy n (.capture f g) := by
  intro s s' p p' halike
  rw [Source.isSome_parse_capture, Source.isSome_parse_capture, hg halike]

theorem withLabel (hg : DecidedBy n g) (label : String) : DecidedBy n (g.withLabel label) := by
  intro s s' p p' halike
  rw [Source.parse_withLabel, Source.parse_withLabel, hg halike]

theorem withHint (hg : DecidedBy n g) (hint : SymbolSet) : DecidedBy n (g.withHint hint) := by
  intro s s' p p' halike
  rw [Source.parse_withHint, Source.parse_withHint, hg halike]

theorem orElse (hg : DecidedBy n g) (hh : DecidedBy n h) : DecidedBy n (g.orElse h) := by
  intro s s' p p' halike
  rw [Source.isSome_parse_orElse, Source.isSome_parse_orElse, hg halike, hh halike]

/-- The case of two alternatives. -/
theorem either (hg : DecidedBy n g) (hh : DecidedBy n h) : DecidedBy n (.first [g, h]) :=
  hg.orElse (hh.orElse fail)

theorem first {gs : List (Grammar α)} (hgs : ∀ g ∈ gs, DecidedBy n g) :
    DecidedBy n (.first gs) := by
  induction gs with
  | nil => exact fail
  | cons g gs ih =>
    obtain ⟨hg, hrest⟩ := List.forall_mem_cons.mp hgs
    exact hg.orElse (ih hrest)

/-- What never fails need not be looked at. -/
theorem seq {k : Grammar β} (hg : DecidedBy n g) (hk : k.Unfailing) : DecidedBy n (g.seq k) := by
  intro s s' p p' halike
  rw [hk.isSome_parse_seq, hk.isSome_parse_seq, hg halike]

/-- A token and then something that the tokens behind it decide. -/
theorem cons {accepts : Token → Bool} (haccepts : Blind accepts) {k : Grammar β}
    (hk : DecidedBy n k) : DecidedBy (n + 1) ((Grammar.satisfy accepts).seq k) := by
  intro s s' p p' halike
  simp only [Source.parse_seq, Source.parse_satisfy, halike.isEnd_eq, haccepts halike.head]
  split
  · rw [Option.bind_some, Option.bind_some, Option.isSome_map, Option.isSome_map, hk halike.tail]
  · rfl

theorem satisfy {accepts : Token → Bool} (haccepts : Blind accepts) :
    DecidedBy 1 (.satisfy accepts) := by
  intro s s' p p' halike
  rw [Bool.eq_iff_iff, Source.isSome_parse_satisfy, Source.isSome_parse_satisfy, halike.isEnd_eq,
    haccepts halike.head]

end DecidedBy
end Grammar
end CommandGrammar
