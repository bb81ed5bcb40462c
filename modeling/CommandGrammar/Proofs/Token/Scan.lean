import CommandGrammar.Proofs.Pattern.Shape
import CommandGrammar.Token.Lemmas

/-! What is read at the start of a text: a committed literal, closed or broken off; else the longest
match among the lexemes; else one bad character. -/
namespace CommandGrammar.Piece
open Token.Lexicon

/-- Of the lexemes that match a beginning of the text, the best one matches the longest, and of
several that match it the best one is listed first. -/
structure Best (s : Text) (ls : List Lexeme) (l : Lexeme) (n : Nat) : Prop where
  le : n ≤ s.length
  first : ls.find? (fun l' => l'.pattern.accepts (s.take n)) = some l
  longest : ∀ l' ∈ ls, ∀ m ≤ s.length, l'.pattern.Matches (s.take m) → m ≤ n

theorem Best.mem {s : Text} {ls : List Lexeme} {l : Lexeme} {n : Nat} (h : Best s ls l n) : l ∈ ls :=
  List.mem_of_find?_eq_some h.first

theorem Best.matches {s : Text} {ls : List Lexeme} {l : Lexeme} {n : Nat} (h : Best s ls l n) :
    l.pattern.Matches (s.take n) :=
  (Pattern.accepts_iff _ _).mp
    (List.find?_some (p := fun l' : Lexeme => l'.pattern.accepts (s.take n)) h.first)

private theorem longestOf_eq_none {s : Text} {ls : List Lexeme} (h : longestOf s ls = none) :
    ∀ l ∈ ls, ∀ m, ¬ l.pattern.Matches (s.take m) := by
  induction ls with
  | nil => exact nofun
  | cons l ls ih =>
    rw [longestOf] at h
    split at h
    · next hl => exact List.forall_mem_cons.mpr ⟨(Pattern.longest_eq_none_iff _ _).mp hl, ih h⟩
    · cases h
    · split at h <;> cases h

private theorem longestOf_eq_some {s : Text} {ls : List Lexeme} {k : Kind} {n : Nat}
    (h : longestOf s ls = some (k, n)) : ∃ l, l.kind = k ∧ Best s ls l n := by
  induction ls generalizing k n with
  | nil => cases h
  | cons l ls ih =>
    -- The head is best if the rest has nothing, or nothing longer.
    have head {n : Nat} (hl : l.pattern.longest s = some n)
        (hrest : ∀ l' ∈ ls, ∀ m ≤ s.length, l'.pattern.Matches (s.take m) → m ≤ n) :
        Best s (l :: ls) l n := by
      obtain ⟨hn, hm⟩ := Pattern.matches_take_of_longest hl
      refine ⟨hn, by rw [List.find?_cons, (Pattern.accepts_iff _ _).mpr hm], ?_⟩
      exact List.forall_mem_cons.mpr ⟨fun m => Pattern.le_of_longest hl, hrest⟩
    -- The best of the rest stays best if the head matches nothing as long.
    have tail {b : Lexeme} {n : Nat} (hb : Best s ls b n)
        (hl : ∀ m ≤ s.length, l.pattern.Matches (s.take m) → m < n) : Best s (l :: ls) b n := by
      have hreject : l.pattern.accepts (s.take n) = false := Bool.eq_false_iff.mpr
        fun ha => Nat.lt_irrefl n (hl n hb.le ((Pattern.accepts_iff _ _).mp ha))
      refine ⟨hb.le, by rw [List.find?_cons, hreject, hb.first], ?_⟩
      exact List.forall_mem_cons.mpr ⟨fun m hm hs => Nat.le_of_lt (hl m hm hs), hb.longest⟩
    rw [longestOf] at h
    split at h
    · next hl =>
      obtain ⟨b, hk, hb⟩ := ih h
      exact ⟨b, hk, tail hb fun m _ hm => absurd hm ((Pattern.longest_eq_none_iff _ _).mp hl m)⟩
    · next m hl hrest =>
      cases h
      exact ⟨l, rfl, head hl fun l' hl' m _ hm => absurd hm (longestOf_eq_none hrest l' hl' m)⟩
    · next m k' n' hl hrest =>
      obtain ⟨b, hk, hb⟩ := ih hrest
      split at h
      · next hlt =>
        cases h
        refine ⟨b, hk, tail hb fun i hi hm => ?_⟩
        exact Nat.lt_of_le_of_lt (Pattern.le_of_longest hl hi hm) hlt
      · next hle =>
        cases h
        refine ⟨l, rfl, head hl fun l' hl' i hi hm => ?_⟩
        exact Nat.le_trans (hb.longest l' hl' i hi hm) (Nat.le_of_not_lt hle)

/-- All that can be read at the start of a text, with its kind and length. -/
inductive Reading (s : Text) : Kind → Nat → Prop
  | closed {d : Delimited} {n : Nat} (mem : d ∈ delimited) (body : d.body.longest s = some n)
      (closing : (s.drop n).head? = some d.closing) (complete : d.complete.Matches (s.take n)) :
      Reading s d.kind (n + 1)
  | broken {d : Delimited} {n : Nat} (mem : d ∈ delimited) (body : d.body.longest s = some n)
      (unclosed : ¬ ((s.drop n).head? = some d.closing ∧ d.complete.Matches (s.take n))) :
      Reading s .badToken n
  | lexeme {l : Lexeme} {n : Nat} (free : ∀ d ∈ delimited, d.body.longest s = none)
      (best : Best s lexemes l n) : Reading s l.kind n
  | bad (free : ∀ d ∈ delimited, d.body.longest s = none)
      (none : ∀ l ∈ lexemes, ∀ m, ¬ l.pattern.Matches (s.take m)) : Reading s .badToken 1

theorem reading_scan (s : Text) : Reading s (scan s).1 (scan s).2 := by
  unfold scan
  cases hd : delimited.findSome? (readDelimited · s) with
  | some x =>
    obtain ⟨d, mem, hx⟩ := List.exists_of_findSome?_eq_some hd
    obtain ⟨n, body, rfl⟩ := Option.map_eq_some_iff.mp hx
    rw [Option.some_or, Option.getD_some]
    split
    · next h => exact .closed mem body h.1 ((Pattern.accepts_iff _ _).mp h.2)
    · next h =>
      rw [Pattern.accepts_iff] at h
      exact .broken mem body h
  | none =>
    have free (d : Delimited) (mem : d ∈ delimited) : d.body.longest s = none :=
      Option.map_eq_none_iff.mp (List.findSome?_eq_none_iff.mp hd d mem)
    rw [Option.none_or]
    cases hl : longestOf s lexemes with
    | none => exact .bad free (longestOf_eq_none hl)
    | some x =>
      obtain ⟨l, hk, best⟩ := longestOf_eq_some hl
      rw [Option.getD_some, ← hk]
      exact .lexeme free best

/-- No lexeme and no body of a literal is empty. -/
private theorem not_nullable :
    (∀ l ∈ lexemes, l.pattern.nullable = false) ∧ ∀ d ∈ delimited, d.body.nullable = false := by
  decide +kernel

private theorem pos_of_matches {p : Pattern} {s : Text} {n : Nat} (hp : p.nullable = false)
    (h : p.Matches (s.take n)) : 0 < n := by
  cases n with
  | zero =>
    rw [List.take_zero, ← Pattern.nullable_iff, hp] at h
    cases h
  | succ n => exact Nat.succ_pos n

/-- Something is read at the start of every text, and never more than there is. -/
theorem Reading.bounds {s : Text} {k : Kind} {n : Nat} (h : Reading s k n) (hs : s ≠ []) :
    0 < n ∧ n ≤ s.length := by
  cases h with
  | closed _ _ closing _ =>
    rw [List.head?_drop] at closing
    exact ⟨Nat.succ_pos _, (List.getElem?_eq_some_iff.mp closing).1⟩
  | broken mem body _ =>
    obtain ⟨hn, hm⟩ := Pattern.matches_take_of_longest body
    exact ⟨pos_of_matches (not_nullable.2 _ mem) hm, hn⟩
  | lexeme _ best => exact ⟨pos_of_matches (not_nullable.1 _ best.mem) best.matches, best.le⟩
  | bad _ _ => exact ⟨Nat.one_pos, List.length_pos_iff.mpr hs⟩

/-- No literal is committed to where its body cannot begin. -/
theorem longest_body_eq_none {d : Delimited} (mem : d ∈ delimited) {c : Char}
    (h : d.body.refuses [c] = true) (t : Text) : d.body.longest (c :: t) = none := by
  rw [Pattern.longest_eq_none_iff]
  intro m hm
  obtain ⟨j, rfl⟩ := Nat.exists_eq_succ_of_ne_zero
    (Nat.ne_of_gt (pos_of_matches (not_nullable.2 d mem) hm))
  exact Pattern.not_matches_of_refuses h _ hm

/-- What is read is of the given kind if only lexemes of that kind can go on behind the beginning of
the text, one of them matches it, and no literal begins so. -/
theorem Reading.kind_eq {c : Char} {t u : Text} {k k' : Kind} {n : Nat}
    (h : Reading (c :: t ++ u) k' n) (free : ∀ d ∈ delimited, d.body.refuses [c] = true)
    (only : ∀ l ∈ lexemes, l.kind = k ∨ l.pattern.refuses (c :: t) = true)
    (some : ∃ l ∈ lexemes, l.pattern.accepts (c :: t) = true) : k' = k := by
  obtain ⟨l₀, mem₀, hl₀⟩ := some
  have hl₀ : l₀.pattern.Matches ((c :: t ++ u).take (c :: t).length) := by
    rw [List.take_left]
    exact (Pattern.accepts_iff _ _).mp hl₀
  cases h with
  | closed mem body _ _ =>
    rw [List.cons_append, longest_body_eq_none mem (free _ mem)] at body
    cases body
  | broken mem body _ =>
    rw [List.cons_append, longest_body_eq_none mem (free _ mem)] at body
    cases body
  | lexeme _ best =>
    have hlen := best.longest l₀ mem₀ _ (by rw [List.length_append]; omega) hl₀
    refine (only _ best.mem).resolve_right fun hrefuse => ?_
    have hmatch := best.matches
    rw [List.take_append, List.take_of_length_le hlen] at hmatch
    exact Pattern.not_matches_of_refuses hrefuse _ hmatch
  | bad _ none => exact absurd hl₀ (none l₀ mem₀ _)

/-- Every piece is what is read where it begins. -/
theorem reading_of_mem_cut {s : Text} {p : Piece} (h : p ∈ cut s) :
    ∃ before after, s = before ++ (p.text ++ after) ∧
      Reading (p.text ++ after) p.kind p.text.length := by
  fun_induction cut s with
  | case1 => cases h
  | case2 c rest k n hscan ih =>
    have hread := reading_scan (c :: rest)
    rw [hscan] at hread
    obtain ⟨hpos, hle⟩ := hread.bounds (List.cons_ne_nil c rest)
    obtain ⟨m, rfl⟩ := Nat.exists_eq_succ_of_ne_zero (Nat.ne_of_gt hpos)
    rw [Nat.succ_eq_add_one, Nat.add_sub_cancel] at h ih
    rcases List.mem_cons.mp h with rfl | h
    · refine ⟨[], rest.drop m, ?_, ?_⟩
      · rw [List.nil_append, List.cons_append, List.take_append_drop]
      · rw [List.cons_append, List.take_append_drop, List.length_cons, List.length_take,
          Nat.min_eq_left (Nat.le_of_succ_le_succ hle)]
        exact hread
    · obtain ⟨before, after, hs, hp⟩ := ih h
      refine ⟨c :: rest.take m ++ before, after, ?_, hp⟩
      rw [List.append_assoc, ← hs, List.cons_append, List.take_append_drop]

end CommandGrammar.Piece
