import Mathlib.Data.List.Forall2
import CommandGrammar.Proofs.Source.Window
import CommandGrammar.Proofs.Tree.MapParts

/-! Two sources read side by side. Where their tokens correspond, a grammar does the same on both: it
matches as many tokens, makes the same log, and its values differ in nothing but what the leaves take
over from the tokens. -/
namespace CommandGrammar

namespace Outcome
variable {α β γ δ : Type} {F F' : α → γ} {G G' : β → δ}

private theorem map_map (g : β → δ) (f : α → β) (o : Outcome α) :
    (o.map f).map g = o.map (g ∘ f) := by
  simp only [map, Option.map_map]
  rfl

/-- Two outcomes look the same if both fail or both match as much, with values that look the same, and
the logs are equal. -/
theorem map_eq_map_iff {o o' : Outcome α} :
    o.map F = o'.map F' ↔ o.log = o'.log ∧
      (o.result = none ∧ o'.result = none ∨
        ∃ a a' n, o.result = some (a, n) ∧ o'.result = some (a', n) ∧ F a = F' a') := by
  obtain ⟨r, log⟩ := o
  obtain ⟨r', log'⟩ := o'
  simp only [map, mk.injEq]
  rw [and_comm]
  refine and_congr_right fun _ => ?_
  cases r with
  | none =>
    cases r' with
    | none => simp
    | some x' => simp
  | some x =>
    cases r' with
    | none => simp
    | some x' =>
      obtain ⟨a, n⟩ := x
      obtain ⟨a', n'⟩ := x'
      simp only [Option.map_some, Option.some.injEq, Prod.mk.injEq, reduceCtorEq, false_and,
        false_or]
      constructor
      · rintro ⟨hF, rfl⟩
        exact ⟨a, a', n, ⟨rfl, rfl⟩, ⟨rfl, rfl⟩, hF⟩
      · rintro ⟨_, _, _, ⟨rfl, rfl⟩, ⟨rfl, rfl⟩, hF⟩
        exact ⟨hF, rfl⟩

private theorem andThen_agree {o o' : Outcome α} (h : o.map F = o'.map F')
    {next next' : α → Nat → Outcome β} (hnext : ∀ a a' n, o.result = some (a, n) → F a = F' a' →
      (next a n).map G = (next' a' n).map G') :
    (o.andThen next).map G = (o'.andThen next').map G' := by
  obtain ⟨hlog, ⟨hr, hr'⟩ | ⟨a, a', n, hr, hr', hF⟩⟩ := map_eq_map_iff.mp h
  · simp only [andThen, hr, hr', map, hlog, Option.map_none]
  · obtain ⟨hlog', ⟨ho, ho'⟩ | ⟨b, b', m, ho, ho', hG⟩⟩ := map_eq_map_iff.mp (hnext a a' n hr hF)
    · simp only [andThen, hr, hr', map, hlog, hlog', ho, ho', Option.map_none]
    · simp only [andThen, hr, hr', map, hlog, hlog', ho, ho', Option.map_some, hG]

private theorem orElse_agree {o o' : Outcome α} (h : o.map F = o'.map F')
    {other other' : Unit → Outcome α} (hother : (other ()).map F = (other' ()).map F') :
    (o.orElse other).map F = (o'.orElse other').map F' := by
  obtain ⟨hlog, ⟨hr, hr'⟩ | ⟨a, a', n, hr, hr', hF⟩⟩ := map_eq_map_iff.mp h
  · simp only [map, mk.injEq] at hother
    simp only [orElse, hr, hr', map, hlog, hother]
  · simp only [orElse, hr, hr', map, hlog, Option.map_some, hF]

/-- What is said of a label is the same, so reports agree exactly where the outcomes do. -/
theorem report_agree_iff {o o' : Outcome α} {label? : Option String} {position : Nat} :
    (o.report label? position).map F = (o'.report label? position).map F' ↔ o.map F = o'.map F' := by
  rw [map_eq_map_iff, map_eq_map_iff, report_result, report_result]
  refine and_congr_left fun h => ?_
  cases label? with
  | none => rfl
  | some label =>
    rcases h with ⟨hr, hr'⟩ | ⟨a, a', n, hr, hr', -⟩
    · simp only [report, hr, hr', List.append_cancel_right_eq]
    · simp only [report, hr, hr', List.append_cancel_right_eq]

end Outcome

namespace Grammar

theorem used_satisfy {accepts : Token → Bool} {w : Window} {l : Leaf} {n : Nat}
    (h : ((satisfy accepts).run w).result = some (l, n)) : n = 1 := by
  unfold run at h
  split at h
  · cases h
  · split at h
    · cases h
      rfl
    · cases h

theorem used_seq {α β : Type} {g : Grammar α} {k : Grammar β} {w : Window} {x : α × β} {n : Nat}
    (h : ((g.seq k).run w).result = some (x, n)) :
    ∃ a m m', (g.run w).result = some (a, m) ∧ n = m + m' := by
  unfold run Outcome.andThen at h
  split at h
  · cases h
  · next a m hr =>
    obtain ⟨⟨b, m'⟩, -, he⟩ := Option.map_eq_some_iff.mp h
    cases he
    exact ⟨a, m, m', hr, rfl⟩

end Grammar

/-- Two ways to look at leaves, and which tokens of the one source go with which of the other: leaves
that are made of such tokens look the same. The first token of what is read may differ in more than
those behind it. -/
structure Correspondence (multiline : Bool) where
  left : Leaf → Leaf
  right : Leaf → Leaf
  First : Token → Token → Prop
  Later : Token → Token → Prop
  first_of_later {t t' : Token} : Later t t' → First t t'
  kind {t t' : Token} : First t t' → t.kind = t'.kind
  text {t t' : Token} : First t t' → t.text = t'.text
  leaf {t t' : Token} : First t t' → ∀ hidden,
    left { Leaf.ofToken t with hidden := hidden } = right { Leaf.ofToken t' with hidden := hidden }
  run {t t' : Token} : Later t t' →
    Fragment.isRunToken multiline t = Fragment.isRunToken multiline t'
  captured {t t' : Token} {ts ts' : List Token} : First t t' → List.Forall₂ Later ts ts' →
    ∀ k offset offset', left (.capture k offset (t :: ts)) = right (.capture k offset' (t' :: ts'))
  placeholder (k : Kind) : left (.placeholder k) = right (.placeholder k)

namespace Correspondence
variable {multiline : Bool}

/-- The same behind the first token. -/
def behind (c : Correspondence multiline) : Correspondence multiline :=
  { c with
    First := c.Later
    first_of_later := id
    kind := fun h => c.kind (c.first_of_later h)
    text := fun h => c.text (c.first_of_later h)
    leaf := fun h => c.leaf (c.first_of_later h)
    captured := fun h => c.captured (c.first_of_later h) }

/-- A way to look at the leaves that are one token each. It may show more of them than is shown of
captured leaves. -/
structure View (c : Correspondence multiline) where
  copy : (Leaf → Leaf) → Leaf → Leaf
  leaf {t t' : Token} : c.First t t' → ∀ hidden,
    copy c.left { Leaf.ofToken t with hidden := hidden } =
      copy c.right { Leaf.ofToken t' with hidden := hidden }
  placeholder (k : Kind) : copy c.left (.placeholder k) = copy c.right (.placeholder k)

/-- All leaves looked at in the same way. -/
def same (c : Correspondence multiline) : c.View := ⟨fun φ => φ, c.leaf, c.placeholder⟩

/-- Windows that start at the same position, with tokens that go with one another. -/
structure Parallel (c : Correspondence multiline) (w w' : Window) : Prop where
  start : w.start = w'.start
  tokens : List.Forall₂ c.First w.tokens w'.tokens
  tail : List.Forall₂ c.Later w.tokens.tail w'.tokens.tail

variable {c : Correspondence multiline} {w w' : Window}

private theorem Parallel.advance (h : c.Parallel w w') (n : Nat) :
    c.Parallel (w.advance n) (w'.advance n) := by
  refine ⟨?_, List.forall₂_drop n h.tokens, ?_⟩
  · rw [Window.advance_start, Window.advance_start, h.start]
  · rw [Window.advance_tokens, Window.advance_tokens, List.tail_drop, List.tail_drop,
      ← List.drop_tail, ← List.drop_tail]
    exact List.forall₂_drop n h.tail

private theorem Parallel.behind (h : c.Parallel w w') :
    c.behind.Parallel (w.advance 1) (w'.advance 1) := by
  have hadvance := h.advance 1
  refine ⟨hadvance.start, ?_, hadvance.tail⟩
  rw [Window.advance_tokens, Window.advance_tokens, List.drop_one, List.drop_one]
  exact h.tail

variable {α β : Type} {M : (Leaf → Leaf) → α → α} {N : (Leaf → Leaf) → β → β} {g h : Grammar α}

/-- The grammar does the same on parallel windows, with values that look the same. -/
def Agrees (c : Correspondence multiline) (M : (Leaf → Leaf) → α → α) (g : Grammar α) : Prop :=
  ∀ ⦃w w' : Window⦄, c.Parallel w w' → (g.run w).map (M c.left) = (g.run w').map (M c.right)

namespace Agrees

/-- A grammar of one token does the same if it decides by what the tokens have in common. -/
private theorem satisfy_agree {γ : Type} {F F' : Leaf → γ} {accepts : Token → Bool}
    (hw : c.Parallel w w') (haccepts : ∀ t t', c.First t t' → accepts t = accepts t')
    (hF : ∀ t t', c.First t t' → F (.ofToken t) = F' (.ofToken t')) :
    ((Grammar.satisfy accepts).run w).map F = ((Grammar.satisfy accepts).run w').map F' := by
  have htokens := hw.tokens
  cases ht : w.tokens with
  | nil =>
    rw [ht] at htokens
    have ht' := List.forall₂_nil_left_iff.mp htokens
    simp only [Grammar.run, ht, ht', Outcome.map, Outcome.failure, Option.map_none]
  | cons t ts =>
    rw [ht] at htokens
    obtain ⟨t', ts', hfirst, -, ht'⟩ := List.forall₂_cons_left_iff.mp htokens
    simp only [Grammar.run, ht, ht', ← haccepts t t' hfirst]
    split
    · simp only [Outcome.map, Outcome.success, Option.map_some, hF t t' hfirst]
    · rfl

theorem satisfy (v : c.View) {accepts : Token → Bool}
    (haccepts : ∀ t t', c.First t t' → accepts t = accepts t') :
    c.Agrees v.copy (.satisfy accepts) :=
  fun _ _ hw => satisfy_agree hw haccepts fun _ _ h => v.leaf h false

theorem hide (v : c.View) {accepts : Token → Bool}
    (haccepts : ∀ t t', c.First t t' → accepts t = accepts t') :
    c.Agrees v.copy (Grammar.hide (.satisfy accepts)) := by
  intro w w' hw
  have hrun (v : Window) : (Grammar.hide (.satisfy accepts)).run v =
      ((Grammar.satisfy accepts).run v).map Leaf.hide := rfl
  rw [hrun, hrun, Outcome.map_map, Outcome.map_map]
  exact satisfy_agree hw haccepts fun _ _ h => v.leaf h true

theorem fail : c.Agrees M .fail := fun _ _ _ => rfl

theorem map {f : α → β} (hg : c.Agrees M g) (natural : ∀ φ a, N φ (f a) = f (M φ a)) :
    c.Agrees N (g.map f) := by
  intro w w' hw
  obtain ⟨hlog, ⟨hr, hr'⟩ | ⟨a, a', n, hr, hr', hM⟩⟩ := Outcome.map_eq_map_iff.mp (hg hw)
  · simp only [Grammar.run, Outcome.map, hr, hr', hlog, Option.map_none]
  · simp only [Grammar.run, Outcome.map, hr, hr', hlog, Option.map_some, natural, hM]

/-- A sequence does the same if its second part does so behind the first. -/
private theorem seq_agree {k : Grammar β} (hg : c.Agrees M g) (hw : c.Parallel w w')
    (hk : ∀ a n, (g.run w).result = some (a, n) →
      (k.run (w.advance n)).map (N c.left) = (k.run (w'.advance n)).map (N c.right)) :
    ((g.seq k).run w).map (fun x => (M c.left x.1, N c.left x.2)) =
      ((g.seq k).run w').map (fun x => (M c.right x.1, N c.right x.2)) := by
  refine Outcome.andThen_agree (hg hw) fun a a' n hr hM => ?_
  obtain ⟨hlog, ⟨ho, ho'⟩ | ⟨b, b', m, ho, ho', hN⟩⟩ := Outcome.map_eq_map_iff.mp (hk a n hr)
  · simp only [Outcome.map, ho, ho', hlog, Option.map_none]
  · simp only [Outcome.map, ho, ho', hlog, Option.map_some, hM, hN]

theorem seq {k : Grammar β} (hg : c.Agrees M g) (hk : c.Agrees N k) :
    c.Agrees (fun φ x => (M φ x.1, N φ x.2)) (g.seq k) :=
  fun _ _ hw => seq_agree hg hw fun _ n _ => hk (hw.advance n)

/-- Behind one token nothing but later tokens follow. -/
theorem seq_behind {v : c.View} {accepts : Token → Bool} {k : Grammar β}
    (hg : c.Agrees v.copy (.satisfy accepts)) (hk : c.behind.Agrees N k) :
    c.Agrees (fun φ x => (v.copy φ x.1, N φ x.2)) ((Grammar.satisfy accepts).seq k) := by
  intro w w' hw
  refine seq_agree hg hw fun a n hr => ?_
  obtain rfl := Grammar.used_satisfy hr
  exact hk hw.behind

theorem orElse (hg : c.Agrees M g) (hh : c.Agrees M h) : c.Agrees M (g.orElse h) :=
  fun _ _ hw => Outcome.orElse_agree (hg hw) (hh hw)

theorem first {gs : List (Grammar α)} (hgs : ∀ g ∈ gs, c.Agrees M g) : c.Agrees M (.first gs) := by
  induction gs with
  | nil => exact fail
  | cons g gs ih =>
    rw [List.forall_mem_cons] at hgs
    exact orElse hgs.1 (ih hgs.2)

/-- The first of two alternatives that matches. -/
theorem either (hg : c.Agrees M g) (hh : c.Agrees M h) : c.Agrees M (.first [g, h]) :=
  orElse hg (orElse hh fail)

/-- Repeated steps go on equally long and find values that look the same. -/
private theorem repeated_agree {step : Window → Outcome α} {F F' : α → α}
    (hstep : ∀ ⦃w w'⦄, c.Parallel w w' → (step w).map F = (step w').map F') (hw : c.Parallel w w') :
    (Outcome.repeated step w).map (List.map F) = (Outcome.repeated step w').map (List.map F') := by
  induction hsize : w.tokens.length using Nat.strongRecOn generalizing w w' with
  | ind size ih =>
    rw [Outcome.repeated, Outcome.repeated]
    obtain ⟨hlog, ⟨hr, hr'⟩ | ⟨a, a', n, hr, hr', hF⟩⟩ := Outcome.map_eq_map_iff.mp (hstep hw)
    · simp only [hr, hr', Outcome.map, Option.map_some, List.map_nil, hlog]
    · have hlength := hw.tokens.length_eq
      simp only [hr, hr', ← hlength]
      by_cases hn : 0 < n ∧ n ≤ w.tokens.length
      · -- The rest is shorter, and the windows behind the step are parallel again.
        have hshorter : (w.advance n).tokens.length < size := by
          rw [Window.advance_tokens, List.length_drop]
          omega
        obtain ⟨hlog', ⟨ho, ho'⟩ | ⟨as, as', m, ho, ho', hFs⟩⟩ :=
          Outcome.map_eq_map_iff.mp (ih _ hshorter (hw.advance n) rfl)
        · simp only [if_pos hn, Outcome.map, ho, ho', hlog, hlog', Option.map_none]
        · simp only [if_pos hn, Outcome.map, ho, ho', hlog, hlog', Option.map_some, List.map_cons, hF,
            hFs]
      · simp only [if_neg hn, Outcome.map, Option.map_some, List.map_nil, hlog]

theorem many (hg : c.Agrees M g) : c.Agrees (fun φ => List.map (M φ)) g.many :=
  fun _ _ hw => repeated_agree hg hw

theorem lookahead (hg : c.Agrees M g) : c.Agrees (fun _ u => u) g.lookahead := by
  intro w w' hw
  obtain ⟨hlog, ⟨hr, hr'⟩ | ⟨a, a', n, hr, hr', -⟩⟩ := Outcome.map_eq_map_iff.mp (hg hw)
  · simp only [Grammar.run, Outcome.map, hr, hr', hlog, Option.map_none]
  · simp only [Grammar.run, Outcome.map, hr, hr', hlog, Option.map_some]

theorem guarded {condition : Grammar β} (hcondition : c.Agrees N condition) (hg : c.Agrees M g) :
    c.Agrees M (.guarded condition g) :=
  (hcondition.lookahead.seq hg).map fun _ _ => rfl

theorem annotate (note : Note) : c.Agrees M (.annotate note g) ↔ c.Agrees M g := by
  constructor
  · intro h w w' hw
    have hreport := h hw
    rw [Grammar.run, Grammar.run, hw.start] at hreport
    exact Outcome.report_agree_iff.mp hreport
  · intro h w w' hw
    rw [Grammar.run, Grammar.run, hw.start]
    exact Outcome.report_agree_iff.mpr (h hw)

theorem withNote (note : Note) (hg : c.Agrees M g) : c.Agrees M (g.withNote note) := by
  unfold Grammar.withNote
  split
  · exact (annotate _).mpr ((annotate _).mp hg)
  · exact (annotate _).mpr hg

theorem withLabel (label : String) (hg : c.Agrees M g) : c.Agrees M (g.withLabel label) :=
  hg.withNote _

theorem withHint (hint : SymbolSet) (hg : c.Agrees M g) : c.Agrees M (g.withHint hint) :=
  hg.withNote _

theorem optional (hg : c.Agrees M g) : c.Agrees (fun φ => Option.map (M φ)) g.optional :=
  orElse (hg.map fun _ _ => rfl) fun _ _ _ => rfl

/-- A placeholder has to look the same from both sides. -/
theorem required {placeholder : α} (hg : c.Agrees M g)
    (hplaceholder : M c.left placeholder = M c.right placeholder) :
    c.Agrees M (g.required placeholder) := by
  refine (annotate _).mpr (orElse hg fun w w' hw => ?_)
  simp only [Grammar.run, Outcome.map, Option.map_some, hplaceholder, hw.start]

/-- A capture looks the same unless it is blank; a blank one has to. -/
theorem captured_agree {k : Kind} (hg : c.Agrees M g) (hw : c.Parallel w w')
    (hblank : ∀ a, (g.run w).result = some (a, 0) →
      c.left (.capture k w.offset []) = c.right (.capture k w'.offset [])) :
    ((Fragment.captured k g).run w).map c.left = ((Fragment.captured k g).run w').map c.right := by
  obtain ⟨hlog, ⟨hr, hr'⟩ | ⟨a, a', n, hr, hr', -⟩⟩ := Outcome.map_eq_map_iff.mp (hg hw)
  · simp only [Fragment.captured, Grammar.run, Outcome.map, hr, hr', hlog, Option.map_none]
  · have hleaf : c.left (.capture k w.offset (w.tokens.take n)) =
        c.right (.capture k w'.offset (w'.tokens.take n)) := by
      cases n with
      | zero => exact hblank a hr
      | succ n =>
        have htokens := hw.tokens
        have htail := hw.tail
        have hle := Grammar.run_within g w a (n + 1) hr
        cases ht : w.tokens with
        | nil =>
          rw [ht] at hle
          exact absurd hle (Nat.not_succ_le_zero n)
        | cons t ts =>
          rw [ht] at htokens htail
          obtain ⟨t', ts', hfirst, -, ht'⟩ := List.forall₂_cons_left_iff.mp htokens
          rw [ht'] at htail ⊢
          exact c.captured hfirst (List.forall₂_take n htail) k _ _
    simp only [Fragment.captured, Grammar.run, Outcome.map, hr, hr', hlog, Option.map_some, hleaf]

end Agrees
end Correspondence
end CommandGrammar
