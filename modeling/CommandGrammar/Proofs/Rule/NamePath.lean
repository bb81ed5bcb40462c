import CommandGrammar.Proofs.Fragment.Leaves
import CommandGrammar.Proofs.Fragment.Spelling
import CommandGrammar.Proofs.Rule.Parse

/-! Paths of names are read back as they were written, whatever the names are and however each of them
is spelt. -/
namespace CommandGrammar

namespace Source
open Spelling Fragment
variable {s : Source} {p : Nat} {continuation : Grammar Element} {next : Name → Element}

/-- The links that are read from a position on. -/
def readLinks (s : Source) (next : Name → Element) : Nat → List Spelling → List Link
  | _, [] => []
  | p, w :: rest =>
    ⟨(Leaf.ofToken (s.peek p)).hide, next (w.read s (p + 1))⟩ ::
      s.readLinks next (p + 1 + w.pieces.length) rest

private theorem parse_links {multiline : Bool} {placeholder : Element} {rest : List Spelling}
    (hnext : ∀ p, s.parse continuation p =
      (s.parse (Fragment.name multiline) p).map fun (n, q) => (next n, q))
    (h : s.Shows p (linkPieces rest)) (hend : s.isEnd (p + (linkPieces rest).length) = true) :
    s.parse (link continuation ['.'] placeholder).many p =
      some (s.readLinks next p rest, p + (linkPieces rest).length) := by
  induction rest generalizing p with
  | nil =>
    have hdot : s.parse (.text ['.']) p = none := by
      rw [Grammar.text, parse_satisfy, show s.isEnd p = true from hend]
      rfl
    have hlink : s.parse (link continuation ['.'] placeholder) p = none := by
      simp only [link, Grammar.hide, parse_map, parse_seq, hdot, Option.map_none, Option.bind_none]
    rw [parse_many, hlink]
    rfl
  | cons w rest ih =>
    obtain ⟨⟨hdotEnd, -, hdotText⟩, hrest⟩ := h
    obtain ⟨hw, hlinks⟩ := shows_append.mp hrest
    have hlength : p + (linkPieces (w :: rest)).length =
        p + 1 + w.pieces.length + (linkPieces rest).length := by
      simp only [linkPieces, List.flatMap_cons, List.length_cons, List.length_append]
      omega
    rw [hlength] at hend ⊢
    have hdot : s.parse (.text ['.']) p = _ :=
      parse_satisfy_of_accepts hdotEnd (beq_iff_eq.mpr hdotText)
    have hlink : s.parse (link continuation ['.'] placeholder) p =
        some (⟨(Leaf.ofToken (s.peek p)).hide, next (w.read s (p + 1))⟩,
          p + 1 + w.pieces.length) := by
      simp only [link, Grammar.hide, parse_map, parse_seq, parse_required, hdot, hnext,
        parse_name hw multiline, Option.map_some, Option.bind_some, Option.some_or]
    rw [parse_many, hlink]
    simp only [if_pos (show p < p + 1 + w.pieces.length by omega), ih hlinks hend, Option.map_some,
      readLinks]

/-- A path is read as the chain of its names. -/
private theorem parse_path {multiline : Bool} {head : Grammar Element} {first : Name → Element}
    {placeholder : Element} {w : Spelling} {rest : List Spelling}
    (hfirst : ∀ p, s.parse head p =
      (s.parse (Fragment.name multiline) p).map fun (n, q) => (first n, q))
    (hnext : ∀ p, s.parse continuation p =
      (s.parse (Fragment.name multiline) p).map fun (n, q) => (next n, q))
    (h : s.Shows p (w.pieces ++ linkPieces rest))
    (hend : s.isEnd (p + (w.pieces ++ linkPieces rest).length) = true) :
    s.parse (path head continuation ['.'] placeholder) p =
      some ((first (w.read s p)).chain (s.readLinks next (p + w.pieces.length) rest),
        p + (w.pieces ++ linkPieces rest).length) := by
  obtain ⟨hw, hlinks⟩ := shows_append.mp h
  rw [List.length_append, ← Nat.add_assoc] at hend ⊢
  simp only [path, Grammar.foldLeft, parse_map, parse_seq, hfirst, parse_name hw multiline,
    Option.map_some, Option.bind_some, parse_links hnext hlinks hend, Element.chain]

/-- Every leaf of a link that is read is there. -/
private theorem present_readLinks (hnext : ∀ n, (next n).flatten = n.leaves)
    (rest : List Spelling) :
    Leaf.Present ((s.readLinks next p rest).flatMap fun l => l.dot :: l.selector.flatten) := by
  induction rest generalizing p with
  | nil => exact Leaf.present_nil
  | cons w rest ih =>
    rw [readLinks, List.flatMap_cons, Leaf.present_append]
    refine ⟨List.forall_mem_cons.mpr ⟨rfl, ?_⟩, ih⟩
    rw [hnext]
    exact w.present_read

/-- What the links select are the names that were written. -/
private theorem simple_readLinks (next : Name → Element) {rest : List Spelling}
    (h : s.Shows p (linkPieces rest)) :
    ∃ ns : List Name, (s.readLinks next p rest).map (·.selector) = ns.map next ∧
      ns.map Name.simple = rest.map Spelling.name := by
  induction rest generalizing p with
  | nil => exact ⟨[], rfl, rfl⟩
  | cons w rest ih =>
    obtain ⟨-, hrest⟩ := h
    obtain ⟨hw, hlinks⟩ := shows_append.mp hrest
    obtain ⟨ns, hselect, hnames⟩ := ih hlinks
    refine ⟨w.read s (p + 1) :: ns, ?_, ?_⟩
    · rw [readLinks, List.map_cons, hselect, List.map_cons]
    · rw [List.map_cons, hnames, simple_read hw, List.map_cons]

end Source

/-- The rules that read paths of names. -/
inductive PathRule where
  | declaration | databaseTable | databaseTableColumn | tableColumn

namespace PathRule

def rule : PathRule → Rule
  | .declaration => .qualifiedName
  | .databaseTable => .databaseTablePath
  | .databaseTableColumn => .databaseTableColumnPath
  | .tableColumn => .tableColumnPath

/-- What the first name of a path is taken for. -/
def first : PathRule → Name → Element
  | .declaration => .declaration
  | .databaseTable => (.reference · .databaseOrTable)
  | .databaseTableColumn => (.reference · .databaseOrTableOrColumn)
  | .tableColumn => (.reference · .tableOrColumn)

/-- What a name behind a dot is taken for. -/
def next : PathRule → Name → Element
  | .declaration => .declaration
  | .databaseTable => (.reference · (.single .table))
  | .databaseTableColumn => (.reference · .databaseOrTableOrColumn)
  | .tableColumn => (.reference · .tableOrColumn)

private theorem flatten_first (r : PathRule) (n : Name) : (r.first n).flatten = n.leaves := by
  cases r <;> rfl

theorem flatten_next (r : PathRule) (n : Name) : (r.next n).flatten = n.leaves := by
  cases r <;> rfl

theorem segments_chain (r : PathRule) (n : Name) (links : List Link) :
    ((r.first n).chain links).segments = r.first n :: links.map (·.selector) := by
  have hfirst : (r.first n).leftmost = r.first n ∧ (r.first n).links = [] := by
    cases r <;> exact ⟨rfl, rfl⟩
  rw [Element.segments, Element.leftmost_chain, Element.links_chain, hfirst.1, hfirst.2,
    List.append_nil, List.reverse_reverse]

/-- A path rule reads joined names as the chain of what was written. -/
private theorem parse_grammar (multiline : Bool) (r : PathRule) {s : Source} {w : Spelling}
    {rest : List Spelling} (h : s.Shows 0 (w.pieces ++ Spelling.linkPieces rest))
    (hsize : s.size = (w.pieces ++ Spelling.linkPieces rest).length)
    (hend : s.isEnd s.size = true) :
    s.parse ((Options.rules ⟨['.'], multiline⟩).grammar r.rule) 0 =
      some ((r.first (w.read s 0)).chain (s.readLinks r.next w.pieces.length rest), s.size) := by
  have hdeclaration (p : Nat) : s.parse (Options.declaration ⟨['.'], multiline⟩) p =
      (s.parse (Fragment.name multiline) p).map fun (n, q) => (.declaration n, q) := by
    rw [Options.declaration, Source.parse_withLabel, Source.parse_map]
  have hreference (symbols : SymbolSet) (p : Nat) :
      s.parse (Options.reference ⟨['.'], multiline⟩ symbols) p =
        (s.parse (Fragment.name multiline) p).map fun (n, q) => (.reference n symbols, q) := by
    rw [Options.reference, Source.parse_withLabel, Source.parse_withHint, Source.parse_map]
  have hstop : s.isEnd (0 + (w.pieces ++ Spelling.linkPieces rest).length) = true := by
    rw [Nat.zero_add, ← hsize, hend]
  have hpath {head continuation : Grammar Element} (placeholder : Element)
      (hhead : ∀ p, s.parse head p =
        (s.parse (Fragment.name multiline) p).map fun (n, q) => (r.first n, q))
      (hcontinuation : ∀ p, s.parse continuation p =
        (s.parse (Fragment.name multiline) p).map fun (n, q) => (r.next n, q)) (label : String) :
      s.parse ((Fragment.path head continuation ['.'] placeholder).withLabel label) 0 =
        some ((r.first (w.read s 0)).chain (s.readLinks r.next w.pieces.length rest), s.size) := by
    rw [Source.parse_withLabel, Source.parse_path hhead hcontinuation h hstop, hsize, Nat.zero_add,
      Nat.zero_add]
  cases r with
  | declaration =>
    exact hpath Placeholder.declaration.element hdeclaration hdeclaration "<qualified_name>"
  | databaseTable =>
    exact hpath (Placeholder.reference (.single .table)).element (hreference _) (hreference _)
      "<database_table>"
  | databaseTableColumn =>
    exact hpath (Placeholder.reference .databaseOrTableOrColumn).element (hreference _)
      (hreference _) "<database_table_column>"
  | tableColumn =>
    exact hpath (Placeholder.reference .tableOrColumn).element (hreference _) (hreference _)
      "<table_column>"

/-- Names that are joined by dots are read back by every path rule, with nothing made up: as many
names, one behind the other, each of them the one that was written. -/
theorem parse_joined (multiline : Bool) (r : PathRule) (w : Spelling) (rest : List Spelling) :
    ∃ e n links ns,
      (Options.rules ⟨['.'], multiline⟩).parse r.rule (Spelling.joined w rest) = .ok e ∧
      Diagnostic.missing e = [] ∧
      e = (r.first n).chain links ∧ links.length = rest.length ∧
      e.segments = r.first n :: ns.map r.next ∧
      (n :: ns).map Name.simple = (w :: rest).map Spelling.name := by
  have hs := Source.lexed_ofText (Spelling.joined w rest)
  obtain ⟨hshows, hsize⟩ := Source.shows_ofText (Spelling.solids_cut_joined w rest)
  have hend := hs.isEnd_iff.mpr (Nat.le_refl _)
  have hparse := parse_grammar multiline r hshows hsize hend
  obtain ⟨hw, hlinks⟩ := Source.shows_append.mp hshows
  rw [Nat.zero_add] at hlinks
  obtain ⟨ns, hselect, hnames⟩ := Source.simple_readLinks r.next hlinks
  refine ⟨_, _, _, ns, RuleSet.parse_eq_ok_iff.mpr hparse, ?_, rfl, ?_, ?_, ?_⟩
  · rw [Diagnostic.missing_eq_nil_iff, Element.flatten_chain, Leaf.present_append, flatten_first]
    exact ⟨w.present_read, Source.present_readLinks r.flatten_next rest⟩
  · have hlength := congrArg List.length hselect
    have hlength' := congrArg List.length hnames
    rw [List.length_map, List.length_map] at hlength hlength'
    rw [hlength, hlength']
  · rw [segments_chain, hselect]
  · rw [List.map_cons, hnames, Spelling.simple_read hw, List.map_cons]

end PathRule
end CommandGrammar
