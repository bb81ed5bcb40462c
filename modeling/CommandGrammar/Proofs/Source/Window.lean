import CommandGrammar.Fragment.RawText
import CommandGrammar.Grammar.Lemmas

/-! A window is a view of its source: going on inside it leads to the window at the later position,
and what it shows at its start is the token that the source has there. -/
namespace CommandGrammar.Source

private theorem drop_takeWhile {α : Type} (p : α → Bool) (l : List α) (n : Nat)
    (h : n ≤ (l.takeWhile p).length) :
    (l.takeWhile p).drop n = (l.drop n).takeWhile p ∧ l.dropWhile p = (l.drop n).dropWhile p := by
  induction n generalizing l with
  | zero => exact ⟨rfl, rfl⟩
  | succ n ih =>
    cases l with
    | nil => exact ⟨rfl, rfl⟩
    | cons a l =>
      by_cases ha : p a = true
      · rw [List.takeWhile_cons_of_pos ha] at h ⊢
        rw [List.dropWhile_cons_of_pos ha]
        exact ih l (Nat.le_of_succ_le_succ h)
      · rw [List.takeWhile_cons_of_neg ha] at h
        exact absurd h (Nat.not_succ_le_zero n)

/-- Going on by tokens that are there leads to the window at the later position. -/
theorem window_advance (s : Source) (p n : Nat) (h : n ≤ (s.window p).tokens.length) :
    (s.window p).advance n = s.window (p + n) := by
  obtain ⟨ht, hd⟩ := drop_takeWhile (fun t : Token => !t.isEnd) (s.front.drop p) n h
  rw [List.drop_drop] at ht hd
  simp only [window, Window.advance, ht, hd]

theorem peek_of_drop_nil {s : Source} {p : Nat} (h : s.front.drop p = []) :
    s.peek p = s.final := by
  have hp : s.front.length ≤ p := List.drop_eq_nil_iff.mp h
  rw [peek, List.getD_eq_getElem?_getD, List.getElem?_eq_none hp, Option.getD_none]

theorem peek_of_drop_cons {s : Source} {p : Nat} {t : Token} {ts : List Token}
    (h : s.front.drop p = t :: ts) : s.peek p = t := by
  have ht : s.front[p]? = some t := by
    rw [← List.head?_drop, h, List.head?_cons]
  rw [peek, List.getD_eq_getElem?_getD, ht, Option.getD_some]

/-- A window is empty where its source has an end marker. -/
theorem window_tokens_of_isEnd {s : Source} {p : Nat} (h : s.isEnd p = true) :
    (s.window p).tokens = [] := by
  cases hd : s.front.drop p with
  | nil => simp only [window, hd, List.takeWhile_nil]
  | cons t ts =>
    rw [isEnd, peek_of_drop_cons hd] at h
    simp only [window, hd]
    exact List.takeWhile_cons_of_neg (by simp [h])

/-- Elsewhere it starts with the token there and goes on with the next window. -/
theorem window_tokens_of_not_isEnd {s : Source} {p : Nat} (h : s.isEnd p = false) :
    (s.window p).tokens = s.peek p :: (s.window (p + 1)).tokens := by
  cases hd : s.front.drop p with
  | nil =>
    rw [isEnd, peek_of_drop_nil hd, s.final_isEnd] at h
    cases h
  | cons t ts =>
    have hp := peek_of_drop_cons hd
    rw [isEnd, hp] at h
    have hts : s.front.drop (p + 1) = ts := by
      rw [← List.drop_drop, hd, List.drop_one, List.tail_cons]
    simp only [window, hd, hts, hp]
    exact List.takeWhile_cons_of_pos (by simp [h])

theorem window_offset (s : Source) (p : Nat) : (s.window p).offset = s.offsetAt p := by
  cases he : s.isEnd p with
  | false =>
    rw [Window.offset, window_tokens_of_not_isEnd he, List.head?_cons]
    rfl
  | true =>
    rw [Window.offset, window_tokens_of_isEnd he]
    cases hd : s.front.drop p with
    | nil => simp only [window, hd, offsetAt, peek_of_drop_nil hd]; rfl
    | cons t ts =>
      rw [isEnd, peek_of_drop_cons hd] at he
      have hw : (t :: ts).dropWhile (!·.isEnd) = t :: ts :=
        List.dropWhile_cons_of_neg (by simp [he])
      simp only [window, hd, hw, offsetAt, peek_of_drop_cons hd]
      rfl

theorem length_slice (s : Source) (p q : Nat) : (s.slice p q).length = q - p := by
  rw [slice, List.length_map, List.length_range']

@[simp] theorem slice_self (s : Source) (p : Nat) : s.slice p p = [] := by
  rw [slice, Nat.sub_self, List.range'_zero, List.map_nil]

theorem slice_succ {s : Source} {p q : Nat} (h : p < q) :
    s.slice p q = s.peek p :: s.slice (p + 1) q := by
  obtain ⟨n, rfl⟩ := Nat.exists_eq_add_of_lt h
  rw [slice, slice, show p + n + 1 - p = n + 1 by omega, List.range'_succ, List.map_cons,
    show p + n + 1 - (p + 1) = n by omega]

/-- Two slices that meet make one. -/
theorem slice_append {s : Source} {p m q : Nat} (hp : p ≤ m) (hq : m ≤ q) :
    s.slice p m ++ s.slice m q = s.slice p q := by
  obtain ⟨a, rfl⟩ := Nat.exists_eq_add_of_le hp
  obtain ⟨b, rfl⟩ := Nat.exists_eq_add_of_le hq
  simp only [slice, ← List.map_append, Nat.add_sub_cancel_left]
  rw [show p + a + b - p = a + b by omega, ← List.range'_append_1]

/-- The beginning of a window is a slice of its source. -/
theorem take_window_tokens (s : Source) (p n : Nat) (h : n ≤ (s.window p).tokens.length) :
    (s.window p).tokens.take n = s.slice p (p + n) := by
  induction n generalizing p with
  | zero => rw [List.take_zero, Nat.add_zero, slice_self]
  | succ n ih =>
    cases he : s.isEnd p with
    | true =>
      rw [window_tokens_of_isEnd he] at h
      exact absurd h (Nat.not_succ_le_zero n)
    | false =>
      rw [window_tokens_of_not_isEnd he] at h ⊢
      have hs : s.slice p (p + (n + 1)) = s.peek p :: s.slice (p + 1) (p + (n + 1)) :=
        slice_succ (by omega)
      rw [List.take_succ_cons, ih (p + 1) (Nat.le_of_succ_le_succ h), hs,
        show p + 1 + n = p + (n + 1) by omega]

end CommandGrammar.Source
