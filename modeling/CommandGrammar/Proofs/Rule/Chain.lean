import CommandGrammar.Proofs.Rule.Coverage
import CommandGrammar.Proofs.Rule.NamePath
import CommandGrammar.Proofs.Tree.PathCount

/-! Chains of names on any source, however broken. A chain goes on for as long as there are separators,
and where no name follows a separator a placeholder stands for it. -/
namespace CommandGrammar

namespace Source
open Fragment
variable {s : Source} {o : Options} {r : PathRule}

/-- A token with the text of the separator stands at the position. -/
def Separates (s : Source) (separator : Text) (p : Nat) : Prop :=
  s.isEnd p = false ∧ (s.peek p).text = separator

instance (s : Source) (separator : Text) (p : Nat) : Decidable (s.Separates separator p) :=
  inferInstanceAs (Decidable (_ ∧ _))

/-- A link of a chain on the tokens from `p` up to `q`. -/
structure LinkAt (s : Source) (o : Options) (r : PathRule) (p q : Nat) (l : Link) : Prop where
  separator : s.Separates o.separator p
  dot : l.dot = (Leaf.ofToken (s.peek p)).hide
  missing : l.selector.isMissing = true ↔ s.parse (Fragment.name o.multiline) (p + 1) = none
  found : ∀ n m, s.parse (Fragment.name o.multiline) (p + 1) = some (n, m) →
    l.selector = r.next n ∧ q = m
  absent : s.parse (Fragment.name o.multiline) (p + 1) = none →
    l.selector = r.next .placeholder ∧ q = p + 1

/-- Links one behind the other, each on the tokens where the one before it ends. -/
inductive LinksOn (s : Source) (o : Options) (r : PathRule) : Nat → Nat → List Link → Prop
  | nil (p : Nat) : LinksOn s o r p p []
  | cons {p m q : Nat} {l : Link} {ls : List Link} (head : s.LinkAt o r p m l)
      (tail : LinksOn s o r m q ls) : LinksOn s o r p q (l :: ls)

variable {p q : Nat} {l : Link} {links : List Link}

/-- A link takes up its separator at least. -/
private theorem LinkAt.lt (h : s.LinkAt o r p q l) : p < q := by
  cases hname : s.parse (name o.multiline) (p + 1) with
  | none =>
    rw [(h.absent hname).2]
    exact Nat.lt_succ_self p
  | some x =>
    rw [(h.found x.1 x.2 hname).2]
    exact parse_le hname

private theorem LinkAt.selector_eq (h : s.LinkAt o r p q l) : ∃ n, l.selector = r.next n := by
  cases hname : s.parse (name o.multiline) (p + 1) with
  | none => exact ⟨_, (h.absent hname).1⟩
  | some x => exact ⟨_, (h.found x.1 x.2 hname).1⟩

private theorem LinksOn.selector_eq (h : s.LinksOn o r p q links) :
    ∀ l ∈ links, ∃ n, l.selector = r.next n := by
  induction h with
  | nil => exact nofun
  | cons head _ ih => exact List.forall_mem_cons.mpr ⟨head.selector_eq, ih⟩

end Source

namespace PathRule
open Fragment
variable {s : Source} {o : Options} {p q : Nat}

/-- What the rule reads first. -/
def head (o : Options) : PathRule → Grammar Element
  | .declaration => o.declaration
  | .databaseTable => o.reference .databaseOrTable
  | .databaseTableColumn => o.reference .databaseOrTableOrColumn
  | .tableColumn => o.reference .tableOrColumn

/-- What the rule reads behind a separator. -/
def continuation (o : Options) : PathRule → Grammar Element
  | .declaration => o.declaration
  | .databaseTable => o.reference (.single .table)
  | .databaseTableColumn => o.reference .databaseOrTableOrColumn
  | .tableColumn => o.reference .tableOrColumn

/-- The links that the rule reads. -/
def link (o : Options) (r : PathRule) : Grammar Link :=
  Fragment.link (r.continuation o) o.separator (r.next .placeholder)

private theorem grammar_eq (o : Options) (r : PathRule) :
    ∃ label, o.rules.grammar r.rule =
      (Grammar.foldLeft (fun e l => .path e l.dot l.selector) (r.head o) (r.link o)).withLabel
        label := by
  cases r with
  | declaration => exact ⟨_, rfl⟩
  | databaseTable => exact ⟨_, rfl⟩
  | databaseTableColumn => exact ⟨_, rfl⟩
  | tableColumn => exact ⟨_, rfl⟩

theorem parse_declaration (s : Source) (o : Options) (p : Nat) :
    s.parse o.declaration p =
      (s.parse (name o.multiline) p).map fun (n, q) => (.declaration n, q) := by
  rw [Options.declaration, Source.parse_withLabel, Source.parse_map]

theorem parse_reference (s : Source) (o : Options) (symbols : SymbolSet) (p : Nat) :
    s.parse (o.reference symbols) p =
      (s.parse (name o.multiline) p).map fun (n, q) => (.reference n symbols, q) := by
  rw [Options.reference, Source.parse_withLabel, Source.parse_withHint, Source.parse_map]

private theorem parse_head (s : Source) (o : Options) (r : PathRule) (p : Nat) :
    s.parse (r.head o) p = (s.parse (name o.multiline) p).map fun (n, q) => (r.first n, q) := by
  cases r with
  | declaration => exact parse_declaration s o p
  | databaseTable => exact parse_reference s o _ p
  | databaseTableColumn => exact parse_reference s o _ p
  | tableColumn => exact parse_reference s o _ p

private theorem parse_continuation (s : Source) (o : Options) (r : PathRule) (p : Nat) :
    s.parse (r.continuation o) p =
      (s.parse (name o.multiline) p).map fun (n, q) => (r.next n, q) := by
  cases r with
  | declaration => exact parse_declaration s o p
  | databaseTable => exact parse_reference s o _ p
  | databaseTableColumn => exact parse_reference s o _ p
  | tableColumn => exact parse_reference s o _ p

/-- A path rule reads a name, and links for as long as there are some. -/
theorem parse_eq (s : Source) (o : Options) (r : PathRule) (p : Nat) :
    s.parse (o.rules.grammar r.rule) p =
      (s.parse (name o.multiline) p).bind fun (n, m) =>
        (s.parse (r.link o).many m).map fun (links, q) => ((r.first n).chain links, q) := by
  obtain ⟨label, hgrammar⟩ := grammar_eq o r
  rw [hgrammar, Source.parse_withLabel, Grammar.foldLeft, Source.parse_map, Source.parse_seq,
    parse_head]
  cases s.parse (name o.multiline) p with
  | none => rfl
  | some x =>
    simp only [Option.map_some, Option.bind_some, Option.map_map]
    rfl

/-- There is a link wherever there is a separator. -/
theorem parse_link (s : Source) (o : Options) (r : PathRule) (p : Nat) :
    s.parse (r.link o) p =
      if s.Separates o.separator p then
        some (match s.parse (name o.multiline) (p + 1) with
          | some (n, m) => (⟨(Leaf.ofToken (s.peek p)).hide, r.next n⟩, m)
          | none => (⟨(Leaf.ofToken (s.peek p)).hide, r.next .placeholder⟩, p + 1))
      else none := by
  have hiff : (s.isEnd p = false ∧ ((s.peek p).text == o.separator) = true) ↔
      s.Separates o.separator p := by rw [Source.Separates, beq_iff_eq]
  simp only [link, Fragment.link, Grammar.hide, Grammar.text, Source.parse_map, Source.parse_seq,
    Source.parse_satisfy, hiff]
  by_cases h : s.Separates o.separator p
  · simp only [if_pos h, Option.map_some, Option.bind_some, Source.parse_required,
      parse_continuation]
    cases s.parse (name o.multiline) (p + 1) with
    | none => rfl
    | some x => rfl
  · simp only [if_neg h, Option.map_none, Option.bind_none]

private theorem isMissing_next (r : PathRule) (n : Name) :
    (r.next n).isMissing = (!n.leaves.isEmpty && n.isMissing) := by
  rw [Element.isMissing, Child.isMissing, Child.leaves_eq, Child.flatten, flatten_next]
  rfl

/-- A name that was found is there. -/
private theorem isMissing_found {r : PathRule} {n : Name}
    (h : s.parse (name o.multiline) p = some (n, q)) : (r.next n).isMissing = false := by
  obtain ⟨-, l, ls, hleaves, hl⟩ := Source.anchored_nameIn _ _ h
  rw [isMissing_next, Name.isMissing, hleaves, List.all_cons, hl]
  rfl

private theorem ensures_link (s : Source) (o : Options) (r : PathRule) :
    s.Ensures (r.link o) (s.LinkAt o r) := by
  intro p q l h
  rw [parse_link] at h
  split at h
  · next hseparator =>
    cases hname : s.parse (name o.multiline) (p + 1) with
    | none =>
      rw [hname] at h
      cases h
      refine ⟨hseparator, rfl, iff_of_true ?_ hname, ?_, fun _ => ⟨rfl, rfl⟩⟩
      · exact isMissing_next r .placeholder
      · intro n m hn
        rw [hname] at hn
        cases hn
    | some x =>
      obtain ⟨n, m⟩ := x
      rw [hname] at h
      cases h
      refine ⟨hseparator, rfl, ?_, ?_, ?_⟩
      · rw [isMissing_found hname, hname]
        exact iff_of_false nofun nofun
      · intro n' m' hn
        rw [hname] at hn
        cases hn
        exact ⟨rfl, rfl⟩
      · intro hnone
        rw [hname] at hnone
        cases hnone
  · cases h

/-- The links that are read stand one behind the other, and no separator follows them. -/
private theorem linksOn_of_parse {r : PathRule} {links : List Link}
    (h : s.parse (r.link o).many p = some (links, q)) :
    s.LinksOn o r p q links ∧ ¬ s.Separates o.separator q := by
  constructor
  · have hsteps := Source.parse_many_eq_some h
    clear h
    induction hsteps with
    | done p => exact .nil p
    | more head _ _ ih => exact .cons (ensures_link s o r head) ih
  · -- At a separator there is one more link, and it takes up the separator at least.
    intro hseparator
    have hlink := parse_link s o r q
    rw [if_pos hseparator] at hlink
    rcases Source.parse_many_stops h with hnone | ⟨l, hl⟩
    · rw [hlink] at hnone
      cases hnone
    · exact Nat.lt_irrefl q (ensures_link s o r hl).lt

private theorem plain_first (r : PathRule) (n : Name) : (r.first n).Plain := by
  cases r with
  | declaration => exact Element.plain_declaration n
  | databaseTable => exact Element.plain_reference n _
  | databaseTableColumn => exact Element.plain_reference n _
  | tableColumn => exact Element.plain_reference n _

private theorem plain_next (r : PathRule) (n : Name) : (r.next n).Plain := by
  cases r with
  | declaration => exact Element.plain_declaration n
  | databaseTable => exact Element.plain_reference n _
  | databaseTableColumn => exact Element.plain_reference n _
  | tableColumn => exact Element.plain_reference n _

/-- Every path rule matches where a name does. A match is a name and links behind it, one for each
separator, and no separator follows. The segments are names or placeholders for names, each taken
for what its place asks for, and the elements are nested in no other way than as a chain. -/
theorem parse_structure (s : Source) (o : Options) (r : PathRule) (p : Nat) :
    ((s.parse (o.rules.grammar r.rule) p).isSome = (s.parse (name o.multiline) p).isSome) ∧
      ∀ e q, s.parse (o.rules.grammar r.rule) p = some (e, q) →
        ¬ s.Separates o.separator q ∧
        ∃ n m links, s.parse (name o.multiline) p = some (n, m) ∧ s.LinksOn o r m q links ∧
          e = (r.first n).chain links ∧ e.pathCount = links.length ∧
          e.segments = r.first n :: links.map (·.selector) ∧
          (∀ l ∈ links, ∃ n, l.selector = r.next n) ∧
          ∀ x ∈ e.segments, ∀ y d z, x ≠ .path y d z := by
  constructor
  · rw [parse_eq]
    cases s.parse (name o.multiline) p with
    | none => rfl
    | some x => rw [Option.bind_some, Option.isSome_map, Source.isSome_parse_many, Option.isSome_some]
  · intro e q h
    rw [parse_eq] at h
    obtain ⟨⟨n, m⟩, hname, hrest⟩ := Option.bind_eq_some_iff.mp h
    obtain ⟨⟨links, q'⟩, hlinks, he⟩ := Option.map_eq_some_iff.mp hrest
    cases he
    obtain ⟨hon, hmaximal⟩ := linksOn_of_parse hlinks
    have hplain : ∀ l ∈ links, l.selector.Plain := by
      intro l hl
      obtain ⟨n', hn'⟩ := hon.selector_eq l hl
      rw [hn']
      exact plain_next r n'
    refine ⟨hmaximal, n, m, links, hname, hon, rfl,
      Element.pathCount_chain (plain_first r n) hplain, segments_chain r n links, hon.selector_eq, ?_⟩
    rw [segments_chain, List.forall_mem_cons, List.forall_mem_map]
    exact ⟨(plain_first r n).ne_path, fun l hl => (hplain l hl).ne_path⟩

/-- Placeholders stand between the names and behind them. -/
example : ((Source.ofText ['a', '.', '.', 'b', '.']).parse
    ((Options.rules {}).grammar .databaseTablePath) 0).map (fun (e, q) =>
      (e.segments.map Element.isMissing, q)) = some ([false, true, false, true], 5) := by
  decide +kernel

end PathRule
end CommandGrammar
