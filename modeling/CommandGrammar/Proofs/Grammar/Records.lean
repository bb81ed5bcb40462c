import CommandGrammar.Proofs.Grammar.Decided
import CommandGrammar.Proofs.Grammar.Supplies
import CommandGrammar.Proofs.Tree.Walk

/-! Grammars whose placeholders are all found again in what they return. A grammar records its placeholders
if it supplies none where it fails: then no attempt that is given up has supplied one, and the log tells of
the missing leaves and of nothing else. -/
namespace CommandGrammar.Source
variable {α β : Type} {s : Source}

theorem Walk.append {p m q : Nat} {ls ls' : List Leaf} {ms ms' : List Nat} (h : s.Walk p m ls ms)
    (h' : s.Walk m q ls' ms') : s.Walk p q (ls ++ ls') (ms ++ ms') := by
  induction h with
  | done => exact h'
  | found cell _ ih => exact .found cell (ih h')
  | absent missing _ ih => exact .absent missing (ih h')

theorem Walk.length {p q : Nat} {ls : List Leaf} {ms : List Nat} (h : s.Walk p q ls ms) :
    ms.length = (ls.filter (·.missing)).length := by
  induction h with
  | done => rfl
  | found cell _ ih =>
    rw [List.filter_cons_of_neg (by rw [cell.present]; exact Bool.false_ne_true), ih]
  | absent missing _ ih =>
    rw [List.filter_cons_of_pos missing, List.length_cons, List.length_cons, ih]

/-- What the grammar supplies are the missing leaves of its matches, and it supplies none where it
fails. -/
structure Records (s : Source) (leaves : α → List Leaf) (g : Grammar α) : Prop where
  found : ∀ {p q a}, s.parse g p = some (a, q) → s.Walk p q (leaves a) (s.supplies g p)
  failed : ∀ {p}, s.parse g p = none → s.supplies g p = []

/-- The missing leaves of its matches are some of what the grammar supplies. -/
def Retains (s : Source) (leaves : α → List Leaf) (g : Grammar α) : Prop :=
  s.Ensures g fun p q a => ∃ ms, ms.Sublist (s.supplies g p) ∧ s.Walk p q (leaves a) ms

namespace Records
variable {g h : Grammar α} {leaves : α → List Leaf} {leaves' : β → List Leaf} {k : Grammar β}

private theorem of_silent (hg : g.Silent)
    (hwalk : s.Ensures g fun p q a => s.Walk p q (leaves a) []) : s.Records leaves g where
  found hp := by
    rw [hg.supplies]
    exact hwalk hp
  failed _ := hg.supplies s _

theorem of_cell {g : Grammar Leaf} (hg : g.Silent) (hcell : s.Ensures g s.Cell) :
    s.Records (fun l => [l]) g :=
  of_silent hg (hcell.mono fun _ q _ hl => .found hl (.done q))

theorem satisfy (s : Source) (accepts : Token → Bool) :
    s.Records (fun l => [l]) (.satisfy accepts) := by
  refine of_cell trivial ((Ensures.satisfy accepts).mono ?_)
  rintro p q l ⟨-, -, rfl, rfl⟩
  exact .token p false

theorem hidden (s : Source) (accepts : Token → Bool) :
    s.Records (fun l => [l]) (Grammar.hide (.satisfy accepts)) := by
  refine of_cell trivial (.map ((Ensures.satisfy accepts).mono ?_))
  rintro p q l ⟨-, -, rfl, rfl⟩
  exact .token p true

theorem map {f : α → β} (hg : s.Records leaves g) (hf : ∀ a, leaves' (f a) = leaves a) :
    s.Records leaves' (g.map f) where
  found hp := by
    rw [parse_map] at hp
    obtain ⟨⟨a, m⟩, ha, he⟩ := Option.map_eq_some_iff.mp hp
    cases he
    rw [hf]
    exact hg.found ha
  failed hp := by
    rw [parse_map, Option.map_eq_none_iff] at hp
    exact hg.failed hp

/-- A sequence that matches has the leaves and the placeholders of both parts. -/
theorem seq_found (hg : s.Records leaves g) (hk : s.Records leaves' k) {p q : Nat} {x : α × β}
    (hp : s.parse (g.seq k) p = some (x, q)) :
    s.Walk p q (leaves x.1 ++ leaves' x.2) (s.supplies (g.seq k) p) := by
  rw [parse_seq] at hp
  obtain ⟨⟨a, m⟩, ha, hy⟩ := Option.bind_eq_some_iff.mp hp
  obtain ⟨⟨b, r⟩, hb, he⟩ := Option.map_eq_some_iff.mp hy
  cases he
  rw [supplies_seq, ha]
  exact (hg.found ha).append (hk.found hb)

/-- If the second part never fails, nothing that the first supplied is given up. -/
theorem seq (hg : s.Records leaves g) (hk : s.Records leaves' k) (hunfailing : k.Unfailing) :
    s.Records (fun x => leaves x.1 ++ leaves' x.2) (g.seq k) where
  found hp := hg.seq_found hk hp
  failed {p} hp := by
    have hsome := hunfailing.isSome_parse_seq (g := g) s p
    have hnone : s.parse g p = none := by
      cases ha : s.parse g p with
      | none => rfl
      | some x =>
        rw [hp, ha] at hsome
        cases hsome
    rw [supplies_seq, hnone, hg.failed hnone]
    rfl

/-- If the first part supplies nothing, there is nothing to be given up. -/
theorem behind (hg : s.Records leaves g) (hsilent : g.Silent) (hk : s.Records leaves' k) :
    s.Records (fun x => leaves x.1 ++ leaves' x.2) (g.seq k) where
  found hp := hg.seq_found hk hp
  failed {p} hp := by
    rw [supplies_seq, hsilent.supplies, List.nil_append]
    rw [parse_seq] at hp
    cases ha : s.parse g p with
    | none => rfl
    | some x =>
      rw [ha, Option.bind_some, Option.map_eq_none_iff] at hp
      exact hk.failed hp

theorem satisfy_seq {accepts : Token → Bool} (hk : s.Records leaves' k) :
    s.Records (fun x => [x.1] ++ leaves' x.2) ((Grammar.satisfy accepts).seq k) :=
  (satisfy s accepts).behind trivial hk

theorem orElse (hg : s.Records leaves g) (hh : s.Records leaves h) :
    s.Records leaves (g.orElse h) where
  found {p q a} hp := by
    rw [parse_orElse] at hp
    rw [supplies_orElse]
    cases ha : s.parse g p with
    | none =>
      rw [ha, Option.none_or] at hp
      rw [hg.failed ha, List.nil_append, Option.isSome_none, if_neg Bool.false_ne_true]
      exact hh.found hp
    | some x =>
      rw [ha, Option.some_or] at hp
      cases hp
      rw [Option.isSome_some, if_pos rfl, List.append_nil]
      exact hg.found ha
  failed {p} hp := by
    rw [parse_orElse, Option.or_eq_none_iff] at hp
    rw [supplies_orElse, hg.failed hp.1, hh.failed hp.2, ite_self, List.nil_append]

theorem fail : s.Records leaves (.fail : Grammar α) := of_silent trivial nofun

/-- The case of two alternatives. -/
theorem either (hg : s.Records leaves g) (hh : s.Records leaves h) :
    s.Records leaves (.first [g, h]) :=
  hg.orElse (hh.orElse fail)

theorem first {gs : List (Grammar α)} (hgs : ∀ g ∈ gs, s.Records leaves g) :
    s.Records leaves (.first gs) := by
  induction gs with
  | nil => exact fail
  | cons g gs ih =>
    obtain ⟨hg, hrest⟩ := List.forall_mem_cons.mp hgs
    exact hg.orElse (ih hrest)

/-- Each step of the repetition begins with a leaf that is there, so that all of them consume something
and only an attempt that fails comes to nothing. -/
theorem many (hg : s.Records leaves g)
    (hhead : s.Ensures g fun _ _ a => ∃ l ls, leaves a = l :: ls ∧ l.missing = false) :
    s.Records (List.flatMap leaves) g.many where
  found {p q as} hp := by
    induction p using repetition_induction (s := s) g generalizing as with
    | step p ih =>
      rw [parse_many] at hp
      rw [supplies_many]
      cases ha : s.parse g p with
      | none =>
        rw [ha] at hp
        cases hp
        rw [hg.failed ha]
        exact .done _
      | some x =>
        obtain ⟨a, m⟩ := x
        obtain ⟨l, ls, hleaves, hl⟩ := hhead ha
        have hwalk := hg.found ha
        obtain ⟨n, hn, hrest⟩ := (hleaves ▸ hwalk).exists_rest hl
        have hm : p < m := Nat.lt_of_lt_of_le hn hrest.le
        simp only [ha, if_pos hm] at hp
        obtain ⟨⟨bs, r⟩, hbs, he⟩ := Option.map_eq_some_iff.mp hp
        cases he
        rw [Option.elim_some, if_pos hm, List.flatMap_cons]
        exact hwalk.append (ih a m ha hm hbs)
  failed {p} hp := by
    have hsome := isSome_parse_many (s := s) g p
    rw [hp] at hsome
    cases hsome

theorem optional (hg : s.Records leaves g) :
    s.Records (fun o => o.elim [] leaves) g.optional where
  found {p q o} hp := by
    rw [parse_optional] at hp
    rw [supplies_optional]
    cases ha : s.parse g p with
    | none =>
      rw [ha] at hp
      cases hp
      rw [hg.failed ha]
      exact .done p
    | some x =>
      rw [ha] at hp
      cases hp
      exact hg.found ha
  failed {p} hp := by
    have hsome := Grammar.Unfailing.optional g s p
    rw [hp] at hsome
    cases hsome

theorem required {placeholder : α} {l : Leaf} (hg : s.Records leaves g)
    (hl : leaves placeholder = [l]) (hmissing : l.missing = true) :
    s.Records leaves (g.required placeholder) where
  found {p q a} hp := by
    rw [parse_required] at hp
    rw [supplies_required]
    cases ha : s.parse g p with
    | none =>
      rw [ha] at hp
      cases hp
      rw [hg.failed ha, hl]
      exact .absent hmissing (.done p)
    | some x =>
      rw [ha] at hp
      cases hp
      rw [Option.isSome_some, if_pos rfl, List.append_nil]
      exact hg.found ha
  failed {p} hp := by
    have hsome := Grammar.Unfailing.required g placeholder s p
    rw [hp] at hsome
    cases hsome

/-- A guard is run as well, so it may not supply anything. -/
theorem guarded (hg : s.Records leaves g) (hsilent : g.Silent) (hk : k.Silent) :
    s.Records leaves (.guarded k g) := by
  refine of_silent (Grammar.silent_guarded.mpr ⟨hk, hsilent⟩) (Ensures.guarded ?_)
  intro p q a hp
  have hwalk := hg.found hp
  rwa [hsilent.supplies] at hwalk

theorem withNote (note : Note) (hg : s.Records leaves g) : s.Records leaves (g.withNote note) where
  found hp := by
    rw [parse_withNote] at hp
    rw [supplies_withNote]
    exact hg.found hp
  failed hp := by
    rw [parse_withNote] at hp
    rw [supplies_withNote]
    exact hg.failed hp

theorem withLabel (label : String) (hg : s.Records leaves g) :
    s.Records leaves (g.withLabel label) :=
  hg.withNote _

theorem withHint (hint : SymbolSet) (hg : s.Records leaves g) :
    s.Records leaves (g.withHint hint) :=
  hg.withNote _

theorem retains (hg : s.Records leaves g) : s.Retains leaves g :=
  fun _ _ _ hp => ⟨_, .refl _, hg.found hp⟩

end Records

namespace Retains
variable {g : Grammar α} {leaves : α → List Leaf} {leaves' : β → List Leaf} {k : Grammar β}

theorem map {f : α → β} (hg : s.Retains leaves g) (hf : ∀ a, leaves' (f a) = leaves a) :
    s.Retains leaves' (g.map f) := by
  refine Ensures.map fun p q a hp => ?_
  obtain ⟨ms, hms, hwalk⟩ := hg hp
  refine ⟨ms, hms, ?_⟩
  rw [hf]
  exact hwalk

theorem seq (hg : s.Retains leaves g) (hk : s.Retains leaves' k) :
    s.Retains (fun x => leaves x.1 ++ leaves' x.2) (g.seq k) := by
  intro p q x hp
  rw [parse_seq] at hp
  obtain ⟨⟨a, m⟩, ha, hy⟩ := Option.bind_eq_some_iff.mp hp
  obtain ⟨⟨b, r⟩, hb, he⟩ := Option.map_eq_some_iff.mp hy
  cases he
  obtain ⟨ms, hms, hwalk⟩ := hg ha
  obtain ⟨ms', hms', hwalk'⟩ := hk hb
  rw [supplies_seq, ha]
  exact ⟨ms ++ ms', hms.append hms', hwalk.append hwalk'⟩

/-- What the last attempt supplied is left out. -/
theorem many (hg : s.Retains leaves g) : s.Retains (List.flatMap leaves) g.many := by
  intro p q as hp
  have hsteps := parse_many_eq_some hp
  clear hp
  induction hsteps with
  | done p => exact ⟨[], List.nil_sublist _, .done p⟩
  | more head progress _ ih =>
    obtain ⟨ms, hms, hwalk⟩ := hg head
    obtain ⟨ms', hms', hwalk'⟩ := ih
    rw [supplies_many, head, Option.elim_some, if_pos progress]
    exact ⟨ms ++ ms', hms.append hms', hwalk.append hwalk'⟩

theorem withLabel (label : String) (hg : s.Retains leaves g) :
    s.Retains leaves (g.withLabel label) := by
  intro p q a hp
  rw [parse_withLabel] at hp
  rw [Grammar.withLabel, supplies_withNote]
  exact hg hp

end Retains
end CommandGrammar.Source
