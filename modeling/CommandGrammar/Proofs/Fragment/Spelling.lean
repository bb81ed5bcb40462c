import CommandGrammar.Fragment.Name
import CommandGrammar.Proofs.Source.Shows
import CommandGrammar.Proofs.Token.Written
import CommandGrammar.Proofs.Tree.Missing

/-! The ways to write a name. Any name can be quoted, a word can also stand alone, and a name that was
written one way is read in that form. -/
namespace CommandGrammar

/-- A name and one of the ways to write it. A word needs no quotes. -/
inductive Spelling where
  | bare (word : Text) (isWord : Piece.IsWord word)
  | braced (word : Text) (isWord : Piece.IsWord word)
  | quoted (q : Text.Quote) (name : Text)
  | bracketed (q : Text.Quote) (name : Text)

namespace Spelling
open Piece

def name : Spelling → Text
  | .bare word _ | .braced word _ => word
  | .quoted _ name | .bracketed _ name => name

def written : Spelling → Text
  | .bare word _ => word
  | .braced word _ => '{' :: (word ++ ['}'])
  | .quoted q name => Text.quoted q name
  | .bracketed q name => '[' :: (Text.quoted q name ++ [']'])

/-- Several names with dots between them. -/
def joined (first : Spelling) (rest : List Spelling) : Text :=
  ['.'].intercalate ((first :: rest).map written)

def pieces : Spelling → List Piece
  | .bare word _ => [⟨wordKind word, word⟩]
  | .braced word _ => [⟨.openBrace, ['{']⟩, ⟨wordKind word, word⟩, ⟨.closeBrace, ['}']⟩]
  | .quoted q name => [⟨.stringLiteral, Text.quoted q name⟩]
  | .bracketed q name =>
    [⟨.openBracket, ['[']⟩, ⟨.stringLiteral, Text.quoted q name⟩, ⟨.closeBracket, [']']⟩]

/-- The pieces of names behind the first one, each with a dot before it. -/
def linkPieces (rest : List Spelling) : List Piece := rest.flatMap fun w => ⟨.dot, ['.']⟩ :: w.pieces

/-- What is read where a name was written, before the end or a dot. -/
private theorem munches_written (w : Spelling) {r : Text} {ps : List Piece}
    (hr : ∀ c ∈ r.head?, c = '.') (h : Munches r ps) :
    Munches (w.written ++ r) (w.pieces ++ ps) := by
  have hmark {k : Kind} (hk : k ∈ soleMarks) {c : Char} (hc : k.fixedText? = some [c]) {r : Text}
      {ps : List Piece} (h : Munches r ps) : Munches (c :: r) (⟨k, [c]⟩ :: ps) :=
    .cons (munch_mark hk hc r) h
  cases w with
  | bare word isWord =>
    refine .cons (munch_word isWord fun c hc => ?_) h
    rw [hr c hc]
    decide
  | braced word isWord =>
    have hword : Munches (word ++ '}' :: r) _ :=
      .cons (munch_word isWord fun c hc => by cases hc; decide)
        (hmark (k := .closeBrace) (by decide) rfl h)
    rw [written, List.cons_append, List.append_assoc]
    exact hmark (k := .openBrace) (by decide) rfl hword
  | quoted q name =>
    refine .cons (munch_quoted q name fun hq => ?_) h
    have hdot := hr _ hq
    cases q <;> cases hdot
  | bracketed q name =>
    have hliteral : Munches (Text.quoted q name ++ ']' :: r) _ :=
      .cons (munch_quoted q name (by cases q <;> simp [Text.Quote.char]))
        (hmark (k := .closeBracket) (by decide) rfl h)
    rw [written, List.cons_append, List.append_assoc]
    exact hmark (k := .openBracket) (by decide) rfl hliteral

/-- Names behind the first one, each with a dot before it. -/
private theorem munches_links (rest : List Spelling) :
    Munches (rest.flatMap fun w => '.' :: w.written) (linkPieces rest) := by
  induction rest with
  | nil => exact .nil
  | cons w rest ih =>
    rw [List.flatMap_cons, linkPieces, List.flatMap_cons]
    refine .cons (munch_mark (by decide) rfl _) (w.munches_written ?_ ih)
    cases rest with
    | nil => nofun
    | cons w' rest =>
      intro c hc
      cases hc
      rfl

private theorem joined_eq (first : Spelling) (rest : List Spelling) :
    joined first rest = first.written ++ rest.flatMap fun w => '.' :: w.written := by
  rw [joined, List.map_cons]
  induction rest generalizing first with
  | nil => rw [List.map_nil, List.intercalate_singleton, List.flatMap_nil, List.append_nil]
  | cons w rest ih =>
    rw [List.map_cons, List.intercalate_cons_cons, ih w, List.flatMap_cons, List.append_assoc]
    rfl

private theorem cut_joined (first : Spelling) (rest : List Spelling) :
    cut (joined first rest) = first.pieces ++ linkPieces rest := by
  rw [joined_eq]
  refine (first.munches_written ?_ (munches_links rest)).eq_cut.symm
  cases rest with
  | nil => nofun
  | cons w rest =>
    intro c hc
    cases hc
    rfl

private theorem isIdentifierLike_wordKind (t : Text) : (wordKind t).isIdentifierLike = true := by
  unfold wordKind
  split
  · rfl
  · rfl

/-- Nothing stands between names that are joined. -/
theorem solids_cut_joined (first : Spelling) (rest : List Spelling) :
    solids (cut (joined first rest)) = first.pieces ++ linkPieces rest := by
  have hword (t : Text) : (wordKind t).isTrivia = false := by
    unfold wordKind
    split
    · rfl
    · rfl
  have hpieces (w : Spelling) : ∀ x ∈ w.pieces, x.kind.isTrivia = false := by
    cases w with
    | bare word _ => simp [pieces, hword]
    | braced word _ =>
      simp only [pieces, List.forall_mem_cons, hword, List.not_mem_nil, false_implies, implies_true,
        and_true]
      decide
    | quoted q name => simp [pieces, Kind.isTrivia]
    | bracketed q name => simp [pieces, Kind.isTrivia]
  rw [cut_joined, solids, List.filter_eq_self]
  intro x hx
  rw [Bool.not_eq_true']
  rcases List.mem_append.mp hx with hx | hx
  · exact hpieces first x hx
  · obtain ⟨w, -, hx⟩ := List.mem_flatMap.mp hx
    rcases List.mem_cons.mp hx with rfl | hx
    · rfl
    · exact hpieces w x hx

/-- The name that is read from a position on. -/
def read (s : Source) (p : Nat) : Spelling → Name
  | .bare .. => .plain (.ofToken (s.peek p))
  | .braced .. => .braced (.ofToken (s.peek p)) (.ofToken (s.peek (p + 1))) (.ofToken (s.peek (p + 2)))
  | .quoted .. => .quoted (.ofToken (s.peek p))
  | .bracketed .. =>
    .bracketed (.ofToken (s.peek p)) (.ofToken (s.peek (p + 1))) (.ofToken (s.peek (p + 2)))

variable {s : Source} {p : Nat}

theorem present_read (w : Spelling) : Leaf.Present (w.read s p).leaves := by
  cases w <;> simp [read, Name.leaves, Leaf.Present, Leaf.ofToken]

theorem simple_read {w : Spelling} (h : s.Shows p w.pieces) : (w.read s p).simple = w.name := by
  cases w with
  | bare word _ => exact h.1.2.2
  | braced word _ => exact h.2.1.2.2
  | quoted q name =>
    have htext : (s.peek p).text = Text.quoted q name := h.1.2.2
    simp only [read, Name.simple, Leaf.ofToken, htext, Text.quotedValue_quoted, Spelling.name]
  | bracketed q name =>
    have htext : (s.peek (p + 1)).text = Text.quoted q name := h.2.1.2.2
    simp only [read, Name.simple, Leaf.ofToken, htext, Text.quotedValue_quoted, Spelling.name]

/-- One token between two marks. -/
private theorem parse_enclosed {accepts : Token → Bool} {o c : Text} {f : Leaf × Leaf × Leaf → Name}
    (hopen : s.isEnd p = false ∧ (s.peek p).text = o)
    (hname : s.isEnd (p + 1) = false ∧ accepts (s.peek (p + 1)) = true)
    (hclose : s.isEnd (p + 2) = false ∧ (s.peek (p + 2)).text = c) :
    s.parse ((Grammar.seq3 (.text o) (.satisfy accepts) (.text c)).map f) p =
      some (f (.ofToken (s.peek p), .ofToken (s.peek (p + 1)), .ofToken (s.peek (p + 2))), p + 3) := by
  have ho : s.parse (.text o) p = _ :=
    Source.parse_satisfy_of_accepts hopen.1 (beq_iff_eq.mpr hopen.2)
  have hn := Source.parse_satisfy_of_accepts hname.1 hname.2
  have hc : s.parse (.text c) (p + 2) = _ :=
    Source.parse_satisfy_of_accepts hclose.1 (beq_iff_eq.mpr hclose.2)
  simp only [Source.parse_map, Grammar.seq3, Source.parse_seq, ho, hn, hc, Option.bind_some,
    Option.map_some]

private theorem parse_enclosed_eq_none {g : Grammar (Leaf × Leaf)} {o : Text}
    {f : Leaf × Leaf × Leaf → Name} (h : (s.peek p).text ≠ o) :
    s.parse (((Grammar.text o).seq g).map f) p = none := by
  have ho : s.parse (.text o) p = none :=
    Source.parse_satisfy_of_refuses (beq_eq_false_iff_ne.mpr h)
  simp only [Source.parse_map, Source.parse_seq, ho, Option.bind_none, Option.map_none]

private theorem parse_identifierName_eq_none (h : (s.peek p).kind.isIdentifierLike = false) :
    s.parse Fragment.identifierName p = none := by
  have hl : s.parse Fragment.identifierLike p = none := Source.parse_satisfy_of_refuses h
  rw [Fragment.identifierName, Source.parse_map, hl, Option.map_none]

/-- A name is read in the first form that fits. -/
private theorem parse_name_eq (multiline : Bool) :
    s.parse (Fragment.name multiline) p =
      (s.parse Fragment.identifierName p).or ((s.parse Fragment.bracketedName p).or
        ((s.parse Fragment.bracedName p).or
          ((s.parse ((Grammar.kind .stringLiteral).map Name.quoted) p).or
            (s.parse ((Fragment.bracketedRun multiline).map Name.bracketedString) p)))) := by
  have hfail : s.parse (.fail : Grammar Name) p = none := rfl
  simp only [Fragment.name, Fragment.nameIn, NameForm.all, List.map, Fragment.nameForm, Grammar.first,
    Source.parse_withLabel, Source.parse_orElse, hfail, Option.or_none]

/-- A name that was written is read in the form it was written in. -/
theorem parse_name {w : Spelling} (h : s.Shows p w.pieces) (multiline : Bool) :
    s.parse (Fragment.name multiline) p = some (w.read s p, p + w.pieces.length) := by
  rw [parse_name_eq]
  cases w with
  | bare word _ =>
    obtain ⟨⟨hend, hkind, -⟩, -⟩ := h
    have hname : s.parse Fragment.identifierLike p = _ :=
      Source.parse_satisfy_of_accepts hend (hkind ▸ isIdentifierLike_wordKind word)
    rw [Fragment.identifierName, Source.parse_map, hname, Option.map_some, Option.some_or]
    rfl
  | braced word _ =>
    obtain ⟨⟨hend, hkind, htext⟩, ⟨hend', hkind', -⟩, ⟨hend'', -, htext''⟩, -⟩ := h
    have hnone : s.parse Fragment.bracketedName p = none :=
      parse_enclosed_eq_none (by rw [htext]; decide)
    have hname : s.parse Fragment.bracedName p = _ :=
      parse_enclosed ⟨hend, htext⟩ ⟨hend', hkind' ▸ isIdentifierLike_wordKind word⟩ ⟨hend'', htext''⟩
    rw [parse_identifierName_eq_none (by rw [hkind]; rfl), hnone, hname]
    rfl
  | quoted q name =>
    obtain ⟨⟨hend, hkind, htext⟩, -⟩ := h
    have hhead : (s.peek p).text.head? = some q.char := by rw [htext]; rfl
    have hmark {c : Char} (hc : q.char ≠ c) : (s.peek p).text ≠ [c] := by
      intro heq
      rw [heq] at hhead
      exact hc (Option.some.inj hhead).symm
    have hbracketed : s.parse Fragment.bracketedName p = none :=
      parse_enclosed_eq_none (hmark (by cases q <;> decide))
    have hbraced : s.parse Fragment.bracedName p = none :=
      parse_enclosed_eq_none (hmark (by cases q <;> decide))
    have hname : s.parse (.kind .stringLiteral) p = _ :=
      Source.parse_satisfy_of_accepts hend (beq_iff_eq.mpr hkind)
    rw [parse_identifierName_eq_none (by rw [hkind]; rfl), hbracketed, hbraced, Source.parse_map,
      hname]
    rfl
  | bracketed q name =>
    obtain ⟨⟨hend, hkind, htext⟩, ⟨hend', hkind', -⟩, ⟨hend'', -, htext''⟩, -⟩ := h
    have hname : s.parse Fragment.bracketedName p = _ :=
      parse_enclosed ⟨hend, htext⟩ ⟨hend', beq_iff_eq.mpr hkind'⟩ ⟨hend'', htext''⟩
    rw [parse_identifierName_eq_none (by rw [hkind]; rfl), hname]
    rfl

end Spelling

end CommandGrammar
