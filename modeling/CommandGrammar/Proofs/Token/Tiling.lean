import CommandGrammar.Proofs.Token.Spelling

/-! The tokens of a text lie one behind the other and leave nothing of it out. What is trivia and what
is not is decided by how a piece begins. -/
namespace CommandGrammar

namespace Piece
open Token.Lexicon

/-- The characters of white space between tokens. -/
def spaces : List Char := [' ', '\t', '\r', '\n', '\x0c']

/-- White space, or a comment up to the end of its line. -/
inductive TriviaText : Text → Prop
  | blank {run : Text} (ne : run ≠ []) (h : ∀ c ∈ run, c ∈ spaces) : TriviaText run
  | comment {body : Text} (h : '\n' ∉ body) : TriviaText ('/' :: '/' :: body)

/-- A text that begins a token: neither with white space nor with a comment. -/
def StartsToken (t : Text) : Prop := (∀ c ∈ t.head?, c ∉ spaces) ∧ ¬ ['/', '/'] <+: t

theorem mem_spaces_of_isSpace {c : Char} (h : isSpace c = true) : c ∈ spaces := by
  simpa [isSpace, spaces, or_assoc] using h

private theorem triviaText_of_lexeme {l : Lexeme} (mem : l ∈ lexemes) (h : l.kind.isTrivia = true)
    {t : Text} (ht : l.pattern.Matches t) : TriviaText t := by
  -- White space and comments are listed first; no lexeme behind them is of a trivia kind.
  have hothers : ∀ l ∈ lexemes.drop 2, l.kind.isTrivia = false := by decide +kernel
  have hlist : lexemes = ⟨.whitespace, .plus (.one isSpace)⟩ :: ⟨.lineComment, lineComment⟩ ::
      lexemes.drop 2 := rfl
  rw [hlist, List.mem_cons, List.mem_cons] at mem
  rcases mem with rfl | rfl | mem
  · obtain ⟨ne, hs⟩ := Pattern.matches_plus_one_iff.mp ht
    exact .blank ne fun c hc => mem_spaces_of_isSpace (hs c hc)
  · obtain ⟨u, v, rfl, hu, hv⟩ := Pattern.matches_seq_iff.mp ht
    rw [Pattern.matches_exactly_iff.mp hu]
    refine .comment fun hn => ?_
    have := Pattern.matches_star_one_iff.mp hv _ hn
    cases this
  · rw [hothers l mem] at h
    cases h

/-- A piece of a trivia kind is white space or a comment. -/
private theorem Reading.triviaText {s : Text} {k : Kind} {n : Nat} (h : Reading s k n)
    (hk : k.isTrivia = true) : TriviaText (s.take n) := by
  have hdelimited : ∀ d ∈ delimited, d.kind.isTrivia = false := by decide
  cases h with
  | closed mem _ _ _ =>
    rw [hdelimited _ mem] at hk
    cases hk
  | broken => cases hk
  | lexeme _ best => exact triviaText_of_lexeme best.mem hk best.matches
  | bad => cases hk

/-- Where white space or a comment begins, nothing else is read. -/
private theorem Reading.startsToken {s : Text} {k : Kind} {n : Nat} (h : Reading s k n)
    (hk : k.isTrivia = false) : StartsToken (s.take n) := by
  have blank : ∀ c ∈ spaces, (∀ d ∈ delimited, d.body.refuses [c] = true) ∧
      (∀ l ∈ lexemes, l.kind = .whitespace ∨ l.pattern.refuses [c] = true) ∧
      ∃ l ∈ lexemes, l.pattern.accepts [c] = true := by
    have hall : (spaces.all fun c => delimited.all (·.body.refuses [c]) &&
        (lexemes.all (fun l => l.kind == .whitespace || l.pattern.refuses [c]) &&
          lexemes.any (·.pattern.accepts [c]))) = true := by decide +kernel
    simpa only [List.all_eq_true, Bool.and_eq_true, Bool.or_eq_true, List.any_eq_true, beq_iff_eq]
      using hall
  have comment : (∀ d ∈ delimited, d.body.refuses ['/'] = true) ∧
      (∀ l ∈ lexemes, l.kind = .lineComment ∨ l.pattern.refuses ['/', '/'] = true) ∧
      ∃ l ∈ lexemes, l.pattern.accepts ['/', '/'] = true := by decide +kernel
  constructor
  · intro c hc hspace
    obtain ⟨t, ht⟩ : ∃ t, s = [c] ++ t := by
      cases s with
      | nil =>
        rw [List.take_nil] at hc
        cases hc
      | cons d s =>
        cases n with
        | zero => cases hc
        | succ n =>
          cases hc
          exact ⟨s, rfl⟩
    subst ht
    obtain ⟨free, only, some⟩ := blank c hspace
    rw [h.kind_eq free only some] at hk
    cases hk
  · intro hslash
    obtain ⟨t, rfl⟩ := hslash.trans (List.take_prefix n s)
    rw [h.kind_eq comment.1 comment.2.1 comment.2.2] at hk
    cases hk

private theorem Reading.kind_ne_endOfText {s : Text} {k : Kind} {n : Nat} (h : Reading s k n) :
    k ≠ .endOfText := by
  have hdelimited : ∀ d ∈ delimited, d.kind ≠ .endOfText := by decide
  have hlexemes : ∀ l ∈ lexemes, l.kind ≠ .endOfText := by decide +kernel
  cases h with
  | closed mem => exact hdelimited _ mem
  | broken => exact nofun
  | lexeme _ best => exact hlexemes _ best.mem
  | bad => exact nofun

/-- What is known of a piece by its kind. -/
structure Tidy (p : Piece) : Prop where
  ne_nil : p.text ≠ []
  ne_end : p.kind ≠ .endOfText
  trivia : p.kind.isTrivia = true → TriviaText p.text
  token : p.kind.isTrivia = false → StartsToken p.text
  spelling : ∀ k x, k.fixedText? = some x → (p.kind = k ↔ p.text = x)

theorem tidy_of_mem_cut {s : Text} {p : Piece} (h : p ∈ cut s) : p.Tidy := by
  obtain ⟨before, after, -, hread⟩ := reading_of_mem_cut h
  have htext : (p.text ++ after).take p.text.length = p.text := List.take_left
  refine ⟨text_ne_nil_of_mem_cut h, hread.kind_ne_endOfText, fun hk => ?_, fun hk => ?_,
    fun k x hx => ?_⟩
  · have := hread.triviaText hk
    rwa [htext] at this
  · have := hread.startsToken hk
    rwa [htext] at this
  · have := hread.kind_iff hx
    rwa [htext] at this

end Piece

namespace Token
open Piece

/-- Runs of white space and comments, one behind the other. -/
inductive Trivia : Text → Prop
  | nil : Trivia []
  | append {t u : Text} (ht : Trivia t) (hu : TriviaText u) : Trivia (t ++ u)

/-- Each token begins where the one before it ends, the first one at `base`. -/
def PlacedFrom : Nat → List Token → Prop
  | _, [] => True
  | base, t :: ts => t.offset = base + t.trivia.byteSize ∧ PlacedFrom (base + t.fullText.byteSize) ts

private theorem placedFrom_ofPieces (base : Nat) (trivia : Text) (ps : List Piece) :
    PlacedFrom base (ofPieces (base + trivia.byteSize) trivia ps) := by
  induction ps generalizing base trivia with
  | nil => exact ⟨rfl, trivial⟩
  | cons p ps ih =>
    rw [ofPieces]
    split
    · rw [Nat.add_assoc, ← Text.byteSize_append]
      exact ih base (trivia ++ p.text)
    · refine ⟨rfl, ?_⟩
      have hnext := ih (base + (trivia ++ p.text).byteSize) []
      rw [Text.byteSize_append, ← Nat.add_assoc, Text.byteSize_nil, Nat.add_zero] at hnext
      rw [fullText, Text.byteSize_append, ← Nat.add_assoc]
      exact hnext

/-- The offset of a token counts all bytes before its text. -/
theorem PlacedFrom.offset {base : Nat} {before after : List Token} {t : Token}
    (h : PlacedFrom base (before ++ t :: after)) :
    t.offset = base + Text.byteSize (before.flatMap fullText ++ t.trivia) := by
  induction before generalizing base with
  | nil => exact h.1
  | cons u before ih =>
    rw [ih h.2, List.flatMap_cons]
    simp only [Text.byteSize_append]
    omega

/-- What is known of the tokens that a text is cut into, the end marker left out. -/
structure Solid (t : Token) : Prop where
  ne_nil : t.text ≠ []
  ne_end : t.kind ≠ .endOfText
  kind : t.kind.isTrivia = false
  start : StartsToken t.text
  spelling : ∀ k x, k.fixedText? = some x → (t.kind = k ↔ t.text = x)

/-- Tokens with one end marker, which stands last. -/
private theorem ofPieces_eq {ps : List Piece} (h : ∀ p ∈ ps, p.Tidy) (offset : Nat) {trivia : Text}
    (ht : Trivia trivia) :
    ∃ front final offset', ofPieces offset trivia ps = front ++ [.atEnd final offset'] ∧
      (∀ t ∈ front, t.Solid ∧ Trivia t.trivia) ∧ Trivia final := by
  induction ps generalizing offset trivia with
  | nil => exact ⟨[], trivia, offset, rfl, nofun, ht⟩
  | cons p ps ih =>
    obtain ⟨hp, hps⟩ := List.forall_mem_cons.mp h
    rw [ofPieces]
    cases hk : p.kind.isTrivia with
    | true => exact ih hps _ (.append ht (hp.trivia hk))
    | false =>
      obtain ⟨front, final, offset', heq, hfront, hfinal⟩ := ih hps (offset + p.text.byteSize) .nil
      refine ⟨⟨p.kind, trivia, p.text, offset⟩ :: front, final, offset', ?_, ?_, hfinal⟩
      · rw [heq]
        rfl
      · exact List.forall_mem_cons.mpr ⟨⟨⟨hp.ne_nil, hp.ne_end, hk, hp.token hk, hp.spelling⟩, ht⟩,
          hfront⟩

theorem placedFrom_ofText (text : Text) : PlacedFrom 0 (ofText text) :=
  placedFrom_ofPieces 0 [] (cut text)

/-- The tokens of a text are solid up to the end marker, which lies behind all of it. -/
theorem ofText_eq (text : Text) :
    ∃ front final, ofText text = front ++ [.atEnd final text.byteSize] ∧
      (∀ t ∈ front, t.Solid ∧ Trivia t.trivia) ∧ Trivia final := by
  obtain ⟨front, final, offset, heq, hfront, hfinal⟩ :=
    ofPieces_eq (fun _ => tidy_of_mem_cut (s := text)) 0 .nil
  have hwhole := flatMap_fullText_ofText text
  have hplaced := placedFrom_ofText text
  rw [← ofText] at heq
  rw [heq, List.flatMap_append, List.flatMap_cons, List.flatMap_nil, List.append_nil, fullText,
    atEnd, List.append_nil] at hwhole
  rw [heq] at hplaced
  have hoffset : offset = text.byteSize := by
    have h := hplaced.offset
    rwa [atEnd, hwhole, Nat.zero_add] at h
  refine ⟨front, final, ?_, hfront, hfinal⟩
  rw [heq, hoffset]

/-- The end of a token counts all bytes up to it. -/
private theorem PlacedFrom.stop {before after : List Token} {t : Token}
    (h : PlacedFrom 0 (before ++ t :: after)) :
    t.range.stop = Text.byteSize ((before ++ [t]).flatMap fullText) := by
  rw [range, h.offset, List.flatMap_append, List.flatMap_singleton, fullText, ← List.append_assoc,
    Text.byteSize_append _ t.text, Nat.zero_add]

/-- Tokens that lie on a text one behind the other, with the end marker behind all of it. Every
position stays inside the text, so it fits wherever the size of the text does. -/
structure TilesText (text : Text) (ts : List Token) : Prop where
  marker : ∃ front final, ts = front ++ [final] ∧
    final.kind = .endOfText ∧ final.text = [] ∧ final.offset = text.byteSize ∧
    ∀ t ∈ front, t.kind ≠ .endOfText ∧ t.kind.isTrivia = false ∧ t.text ≠ []
  whole : ts.flatMap fullText = text
  offset : ∀ before t after, ts = before ++ t :: after →
    t.offset = Text.byteSize (before.flatMap fullText ++ t.trivia)
  first : ∀ t after, ts = t :: after → t.fullRange.start = 0
  adjacent : ∀ before t u after, ts = before ++ t :: u :: after →
    t.fullRange.stop = u.fullRange.start
  last : ∀ before t, ts = before ++ [t] → t.fullRange.stop = text.byteSize
  inside : ∀ t ∈ ts, t.trivia.byteSize ≤ t.offset ∧ t.range.stop ≤ text.byteSize
  trivia : ∀ t ∈ ts, Trivia t.trivia
  start : ∀ t ∈ ts, StartsToken t.text

theorem tilesText_ofText (text : Text) : TilesText text (ofText text) := by
  obtain ⟨front, final, heq, hfront, hfinal⟩ := ofText_eq text
  have hwhole := flatMap_fullText_ofText text
  have hplaced := placedFrom_ofText text
  have hstart (before after : List Token) (t : Token) (h : ofText text = before ++ t :: after) :
      t.fullRange.start = Text.byteSize (before.flatMap fullText) := by
    rw [h] at hplaced
    rw [fullRange, hplaced.offset, Text.byteSize_append, Nat.zero_add, Nat.add_sub_cancel]
  have hstop (before after : List Token) (t : Token) (h : ofText text = before ++ t :: after) :
      t.fullRange.stop = Text.byteSize ((before ++ [t]).flatMap fullText) := by
    rw [h] at hplaced
    exact hplaced.stop
  have hmem {P : Token → Prop} (hP : ∀ t ∈ front, P t) (hend : P (.atEnd final text.byteSize)) :
      ∀ t ∈ ofText text, P t := by
    rw [heq]
    exact List.forall_mem_append.mpr ⟨hP, List.forall_mem_singleton.mpr hend⟩
  refine ⟨⟨front, _, heq, rfl, rfl, rfl, fun t ht => ?_⟩, hwhole, ?_, ?_, ?_, ?_, ?_, ?_, ?_⟩
  · obtain ⟨⟨hne, hend, hkind, -, -⟩, -⟩ := hfront t ht
    exact ⟨hend, hkind, hne⟩
  · intro before t after h
    rw [h] at hplaced
    rw [hplaced.offset, Nat.zero_add]
  · intro t after h
    exact hstart [] after t h
  · intro before t u after h
    have hu : ofText text = (before ++ [t]) ++ u :: after := by rw [h, List.append_assoc]; rfl
    rw [hstop before _ t h, hstart _ after u hu]
  · intro before t h
    rw [hstop before [] t h, ← h, hwhole]
  · intro t ht
    obtain ⟨before, after, h⟩ := List.append_of_mem ht
    have htext : text = (before ++ [t]).flatMap fullText ++ after.flatMap fullText := by
      rw [← hwhole, h, ← List.flatMap_append, List.append_assoc]
      rfl
    constructor
    · rw [h] at hplaced
      rw [hplaced.offset, Text.byteSize_append]
      omega
    · have hsize := congrArg Text.byteSize htext
      rw [Text.byteSize_append, ← hstop before after t h] at hsize
      exact hsize ▸ Nat.le_add_right _ _
  · exact hmem (fun t ht => (hfront t ht).2) hfinal
  · exact hmem (fun t ht => (hfront t ht).1.start) ⟨nofun, nofun⟩

end Token
end CommandGrammar
