import CommandGrammar.Proofs.Token.Distinct
import CommandGrammar.Proofs.Token.Literal

/-! Maximal munch. What is to be read at the start of a text is said by the patterns alone, with no
word of how their matches are found; it is one piece and no other, so that a text is cut into pieces
in one way. -/
namespace CommandGrammar.Piece
open Token.Lexicon

/-- The longest beginning of a text with a property. -/
structure Longest (P : Text → Prop) (s t : Text) : Prop where
  start : t <+: s
  holds : P t
  most : ∀ u, u <+: s → P u → u.length ≤ t.length

private theorem Longest.unique {P : Text → Prop} {s t u : Text} (ht : Longest P s t)
    (hu : Longest P s u) : t = u := by
  have hlen : t.length = u.length :=
    Nat.le_antisymm (hu.most t ht.start ht.holds) (ht.most u hu.start hu.holds)
  exact (List.prefix_of_prefix_length_le ht.start hu.start (Nat.le_of_eq hlen)).eq_of_length hlen

/-- What is longest stays longest if the text is cut short behind it. -/
theorem Longest.shorten {P : Text → Prop} {s s' t : Text} (h : Longest P s t) (hs : s' <+: s)
    (ht : t <+: s') : Longest P s' t :=
  ⟨ht, h.holds, fun u hu => h.most u (hu.trans hs)⟩

/-- What has the property is the longest to have it if nothing that goes on behind it does. -/
theorem longest_of_forall {P : Text → Prop} {t r : Text} (ht : P t)
    (h : ∀ c w, c :: w <+: r → ¬ P (t ++ c :: w)) : Longest P (t ++ r) t := by
  refine ⟨List.prefix_append t r, ht, fun u hu hP => ?_⟩
  rcases List.prefix_or_prefix_of_prefix hu (List.prefix_append t r) with hle | ⟨w, rfl⟩
  · exact hle.length_le
  · cases w with
    | nil => exact Nat.le_of_eq (congrArg List.length (List.append_nil t))
    | cons c w => exact absurd hP (h c w ((List.prefix_append_right_inj t).mp hu))

/-- A lexeme matches the text. -/
def IsLexeme (t : Text) : Prop := ∃ l ∈ lexemes, l.pattern.Matches t

/-- No literal with delimiters opens here. -/
def Free (s : Text) : Prop := ∀ x ∈ openings, ¬ x.1 <+: s

/-- What is to be read at the start of a text, by kind and text. Where a literal with delimiters
opens, its body is read as far as it goes; if that completes the literal and the closing character
follows, it is the literal, and else it is bad. Elsewhere it is the longest beginning that a lexeme
matches, of the kind of that lexeme, where a reserved word is no identifier; and if no lexeme matches
any beginning, it is one bad character. -/
inductive Munch (s : Text) : Kind → Text → Prop
  | closed {o : Text} {d : Delimited} {b : Text} (opens : (o, d) ∈ openings) (start : o <+: s)
      (body : Longest d.body.Matches s b) (complete : d.complete.Matches b)
      (closing : b ++ [d.closing] <+: s) : Munch s d.kind (b ++ [d.closing])
  | broken {o : Text} {d : Delimited} {b : Text} (opens : (o, d) ∈ openings) (start : o <+: s)
      (body : Longest d.body.Matches s b)
      (unclosed : ¬ (d.complete.Matches b ∧ b ++ [d.closing] <+: s)) : Munch s .badToken b
  | lexeme {l : Lexeme} {t : Text} (free : Free s) (mem : l ∈ lexemes) (matched : l.pattern.Matches t)
      (longest : Longest IsLexeme s t)
      (wins : ∀ l' ∈ lexemes, l'.pattern.Matches t →
        l'.kind = l.kind ∨ l'.kind = .identifier ∧ t ∈ reserved) : Munch s l.kind t
  | bad {c : Char} (free : Free s) (start : [c] <+: s) (none : ∀ u, u <+: s → ¬ IsLexeme u) :
      Munch s .badToken [c]

/-- The pieces of a text, each of them what is to be read where it stands. -/
inductive Munches : Text → List Piece → Prop
  | nil : Munches [] []
  | cons {k : Kind} {t rest : Text} {ps : List Piece} (head : Munch (t ++ rest) k t)
      (tail : Munches rest ps) : Munches (t ++ rest) (⟨k, t⟩ :: ps)

namespace Munch
variable {s t t' : Text} {k k' : Kind}

/-- Where a literal opens, what is read begins with the opening. -/
theorem opening_prefix_body {o b : Text} {d : Delimited} (opens : (o, d) ∈ openings) (start : o <+: s)
    (body : Longest d.body.Matches s b) : o <+: b :=
  List.prefix_of_prefix_length_le start body.start (body.most o start (matches_opening opens).2)

/-- A complete body is read with its closing character, unless that stands there twice. -/
theorem of_closing {o b r : Text} {d : Delimited} (opens : (o, d) ∈ openings) (start : o <+: b)
    (body : d.body.Matches b) (complete : d.complete.Matches b) (hr : r.head? ≠ some d.closing) :
    Munch (b ++ d.closing :: r) d.kind (b ++ [d.closing]) := by
  have hlongest : Longest d.body.Matches (b ++ d.closing :: r) b := by
    refine longest_of_forall body fun c w hw => ?_
    obtain ⟨v, hv⟩ := hw
    obtain ⟨rfl, rfl⟩ := List.cons.inj hv
    refine not_matches_behind_closing opens body fun hhead => hr ?_
    cases w with
    | nil => cases hhead
    | cons c w => exact hhead
  exact .closed opens (start.trans (List.prefix_append b _)) hlongest complete ⟨r, by simp⟩

theorem ne_nil (h : Munch s k t) : t ≠ [] := by
  have hlexemes : ∀ l ∈ lexemes, l.kind ≠ .badToken := by decide +kernel
  rintro rfl
  generalize ht : ([] : Text) = t at h
  cases h with
  | closed => simp at ht
  | broken opens start body _ =>
    subst ht
    exact opening_ne_nil _ opens (List.prefix_nil.mp (opening_prefix_body opens start body))
  | lexeme _ mem matched _ _ =>
    subst ht
    rcases sortOf_of_matches mem matched with hsort | ⟨-, hreserved⟩
    · exact hlexemes _ mem hsort.symm
    · exact absurd hreserved (by decide)
  | bad => cases ht

/-- A text has one beginning that is to be read, and that is of one kind. -/
theorem unique (h : Munch s k t) (h' : Munch s k' t') : k = k' ∧ t = t' := by
  cases h with
  | closed opens start body complete closing =>
    cases h' with
    | closed opens' start' body' _ _ =>
      cases opening_unique opens opens' start start'
      cases body.unique body'
      exact ⟨rfl, rfl⟩
    | broken opens' start' body' unclosed' =>
      cases opening_unique opens opens' start start'
      cases body.unique body'
      exact absurd ⟨complete, closing⟩ unclosed'
    | lexeme free' => exact absurd start (free' _ opens)
    | bad free' => exact absurd start (free' _ opens)
  | broken opens start body unclosed =>
    cases h' with
    | closed opens' start' body' complete' closing' =>
      cases opening_unique opens opens' start start'
      cases body.unique body'
      exact absurd ⟨complete', closing'⟩ unclosed
    | broken opens' start' body' _ =>
      cases opening_unique opens opens' start start'
      exact ⟨rfl, body.unique body'⟩
    | lexeme free' => exact absurd start (free' _ opens)
    | bad free' => exact absurd start (free' _ opens)
  | lexeme free mem matched longest wins =>
    cases h' with
    | closed opens' start' => exact absurd start' (free _ opens')
    | broken opens' start' => exact absurd start' (free _ opens')
    | lexeme _ mem' matched' longest' wins' =>
      cases longest.unique longest'
      refine ⟨?_, rfl⟩
      -- Neither of two lexemes loses to the other unless both are identifiers.
      rcases wins _ mem' matched' with hk | ⟨hk', -⟩
      · exact hk.symm
      · rcases wins' _ mem matched with hk | ⟨hk, -⟩
        · exact hk
        · exact hk.trans hk'.symm
    | bad _ _ none' => exact absurd longest.holds (none' _ longest.start)
  | bad free start none =>
    cases h' with
    | closed opens' start' => exact absurd start' (free _ opens')
    | broken opens' start' => exact absurd start' (free _ opens')
    | lexeme _ _ _ longest' => exact absurd longest'.holds (none _ longest'.start)
    | bad _ start' _ =>
      exact ⟨rfl, (List.prefix_of_prefix_length_le start start' (Nat.le_refl 1)).eq_of_length rfl⟩

end Munch

private theorem longest_of_eq_some {p : Pattern} {s : Text} {n : Nat} (h : p.longest s = some n) :
    Longest p.Matches s (s.take n) := by
  obtain ⟨hn, hm, -⟩ := (Pattern.longest_eq_some_iff p s n).mp h
  refine ⟨List.take_prefix n s, hm, fun u hu hmatch => ?_⟩
  rw [List.length_take, Nat.min_eq_left hn]
  rw [List.prefix_iff_eq_take.mp hu] at hmatch
  exact Pattern.le_of_longest h hu.length_le hmatch

/-- The character behind a beginning of a text. -/
private theorem head?_drop_eq_some_iff {s : Text} {n : Nat} {c : Char} :
    (s.drop n).head? = some c ↔ s.take n ++ [c] <+: s := by
  conv => rhs; rhs; rw [← List.take_append_drop n s]
  rw [List.prefix_append_right_inj, List.head?_eq_some_iff]
  constructor
  · rintro ⟨w, hw⟩
    exact ⟨w, hw.symm⟩
  · rintro ⟨w, hw⟩
    exact ⟨w, hw.symm⟩

private theorem take_succ_eq_append {s : Text} {n : Nat} (hn : n ≤ s.length) {c : Char}
    (h : s.take n ++ [c] <+: s) : s.take (n + 1) = s.take n ++ [c] := by
  rw [List.prefix_iff_eq_take.mp h]
  simp [Nat.min_eq_left hn]

/-- No identifier is chosen for a reserved word. -/
private theorem find_reserved : ∀ t ∈ reserved,
    (lexemes.find? fun l => l.pattern.accepts t).map (·.kind) ≠ some .identifier := by
  decide +kernel

private theorem Best.munch {s : Text} {l : Lexeme} {n : Nat} (free : Free s)
    (h : Best s lexemes l n) : Munch s l.kind (s.take n) := by
  refine .lexeme free h.mem h.matches ⟨List.take_prefix n s, ⟨l, h.mem, h.matches⟩, ?_⟩ ?_
  · rintro u hu ⟨l', mem', hmatch⟩
    rw [List.length_take, Nat.min_eq_left h.le]
    rw [List.prefix_iff_eq_take.mp hu] at hmatch
    exact h.longest l' mem' _ hu.length_le hmatch
  · intro l' mem' hmatch
    refine kind_eq_of_matches h.mem mem' h.matches hmatch ?_
    rw [← not_and_or]
    rintro ⟨hid, hreserved⟩
    refine find_reserved _ hreserved ?_
    rw [h.first, Option.map_some, hid]

/-- What is read at the start of a text is what is to be read. -/
private theorem Reading.munch {s : Text} {k : Kind} {n : Nat} (h : Reading s k n) (hs : s ≠ []) :
    Munch s k (s.take n) := by
  have free_of (free : ∀ d ∈ delimited, d.body.longest s = none) : Free s := by
    intro x opens start
    obtain ⟨mem, hmatch⟩ := matches_opening opens
    rw [List.prefix_iff_eq_take.mp start] at hmatch
    exact (Pattern.longest_eq_none_iff _ _).mp (free x.2 mem) _ hmatch
  have opening_of {d : Delimited} {b : Text} (mem : d ∈ delimited)
      (hb : Longest d.body.Matches s b) : ∃ o, (o, d) ∈ openings ∧ o <+: s := by
    obtain ⟨o, opens, ho⟩ := exists_opening mem hb.holds
    exact ⟨o, opens, ho.trans hb.start⟩
  cases h with
  | @closed d n mem body closing complete =>
    obtain ⟨hn, -⟩ := Pattern.matches_take_of_longest body
    have hb := longest_of_eq_some body
    obtain ⟨o, opens, start⟩ := opening_of mem hb
    rw [head?_drop_eq_some_iff] at closing
    rw [take_succ_eq_append hn closing]
    exact .closed opens start hb complete closing
  | broken mem body unclosed =>
    have hb := longest_of_eq_some body
    obtain ⟨o, opens, start⟩ := opening_of mem hb
    rw [head?_drop_eq_some_iff, and_comm] at unclosed
    exact .broken opens start hb unclosed
  | lexeme free best => exact best.munch (free_of free)
  | bad free none =>
    obtain ⟨c, t, rfl⟩ := List.exists_cons_of_ne_nil hs
    refine .bad (free_of free) ⟨t, rfl⟩ ?_
    rintro u hu ⟨l, mem, hmatch⟩
    rw [List.prefix_iff_eq_take.mp hu] at hmatch
    exact none l mem _ hmatch

private theorem munch_scan {s : Text} (hs : s ≠ []) : Munch s (scan s).1 (s.take (scan s).2) :=
  (reading_scan s).munch hs

/-- The first piece of a text is what scanning it finds. -/
theorem cut_eq {s : Text} (hs : s ≠ []) :
    cut s = ⟨(scan s).1, s.take (scan s).2⟩ :: cut (s.drop (scan s).2) := by
  obtain ⟨c, t, rfl⟩ := List.exists_cons_of_ne_nil hs
  obtain ⟨hpos, -⟩ := (reading_scan (c :: t)).bounds hs
  obtain ⟨m, hm⟩ := Nat.exists_eq_succ_of_ne_zero (Nat.ne_of_gt hpos)
  rw [cut]
  simp only [hm, Nat.succ_eq_add_one, Nat.add_sub_cancel, List.take_succ_cons, List.drop_succ_cons]

/-- A text that begins with what is to be read is cut behind it. -/
private theorem Munch.cut_append {t u : Text} {k : Kind} (h : Munch (t ++ u) k t) :
    cut (t ++ u) = ⟨k, t⟩ :: cut u := by
  have hne : t ++ u ≠ [] := List.append_ne_nil_of_left_ne_nil h.ne_nil u
  obtain ⟨hk, htake⟩ := h.unique (munch_scan hne)
  have hdrop : (t ++ u).drop (scan (t ++ u)).2 = u := by
    have hsplit := List.take_append_drop (scan (t ++ u)).2 (t ++ u)
    rw [← htake] at hsplit
    exact List.append_cancel_left hsplit
  rw [cut_eq hne, ← hk, ← htake, hdrop]

theorem munches_cut (s : Text) : Munches s (cut s) := by
  fun_induction cut s with
  | case1 => exact .nil
  | case2 c rest k n hscan ih =>
    have hmunch := munch_scan (List.cons_ne_nil c rest)
    have hbounds := (reading_scan (c :: rest)).bounds (List.cons_ne_nil c rest)
    rw [hscan] at hmunch hbounds
    obtain ⟨m, rfl⟩ := Nat.exists_eq_succ_of_ne_zero (Nat.ne_of_gt hbounds.1)
    have hsplit : c :: rest = (c :: rest.take m) ++ rest.drop m := by
      rw [List.cons_append, List.take_append_drop]
    rw [hsplit]
    refine .cons ?_ ih
    rw [← hsplit]
    exact hmunch

theorem Munches.eq_cut {s : Text} {ps : List Piece} (h : Munches s ps) : ps = cut s := by
  induction h with
  | nil => rw [cut]
  | cons head _ ih => rw [head.cut_append, ih]

/-- The pieces that a text is cut into are what is to be read at each of its positions, and nothing
else is: the text has one cut by maximal munch. -/
theorem munches_iff_eq_cut (s : Text) (ps : List Piece) : Munches s ps ↔ ps = cut s := by
  constructor
  · exact Munches.eq_cut
  · rintro rfl
    exact munches_cut s

/-- A match that cannot be made longer is given back: no exponent ends here. -/
example : cut ['1', '.', '5', 'e', '+'] =
    [⟨.realLiteral, ['1', '.', '5']⟩, ⟨.identifier, ['e']⟩, ⟨.plus, ['+']⟩] := by
  decide +kernel

end CommandGrammar.Piece
