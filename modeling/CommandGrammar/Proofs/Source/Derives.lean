import CommandGrammar.Proofs.Phrase.Language
import CommandGrammar.Proofs.Source.Lexed

/-! Which stretches of a source belong to a language, one law for each way of building a language. -/
namespace CommandGrammar.Source
open Computability
variable {s : Source} {L M : Language Token} {p m q : Nat}

/-- The tokens from `p` up to `q` belong to the language. -/
def Derives (s : Source) (L : Language Token) (p q : Nat) : Prop := p ≤ q ∧ s.slice p q ∈ L

theorem derives_one_iff : s.Derives 1 p q ↔ p = q := by
  constructor
  · rintro ⟨hle, hmem⟩
    have hlen := s.length_slice p q
    rw [(Language.mem_one _).mp hmem, List.length_nil] at hlen
    omega
  · rintro rfl
    exact ⟨Nat.le_refl p, by rw [slice_self]; exact Language.nil_mem_one⟩

theorem derives_add_iff : s.Derives (L + M) p q ↔ s.Derives L p q ∨ s.Derives M p q := by
  rw [Derives, Language.mem_add, and_or_left]
  rfl

/-- A stretch of two parts is divided somewhere. -/
theorem derives_mul_iff : s.Derives (L * M) p q ↔ ∃ m, s.Derives L p m ∧ s.Derives M m q := by
  constructor
  · rintro ⟨hle, hmem⟩
    obtain ⟨u, hu, v, hv, huv⟩ := Language.mem_mul.mp hmem
    have hlen := congrArg List.length huv
    rw [List.length_append, length_slice] at hlen
    have hsplit : s.slice p (p + u.length) ++ s.slice (p + u.length) q = u ++ v := by
      rw [slice_append (Nat.le_add_right p _) (by omega), huv]
    obtain ⟨hfirst, hsecond⟩ := List.append_inj hsplit (by rw [length_slice]; omega)
    refine ⟨p + u.length, ⟨Nat.le_add_right p _, ?_⟩, by omega, ?_⟩
    · rwa [hfirst]
    · rwa [hsecond]
  · rintro ⟨m, ⟨hpm, hu⟩, hmq, hv⟩
    refine ⟨Nat.le_trans hpm hmq, ?_⟩
    rw [← slice_append hpm hmq]
    exact Language.append_mem_mul hu hv

theorem derives_single_iff {accepts : Token → Prop} :
    s.Derives (Phrase.single accepts) p q ↔ q = p + 1 ∧ accepts (s.peek p) := by
  have hone : s.slice p (p + 1) = [s.peek p] := by
    rw [slice_succ (Nat.lt_succ_self p), slice_self]
  constructor
  · rintro ⟨hle, t, hslice, ht⟩
    have hlen := s.length_slice p q
    rw [hslice, List.length_singleton] at hlen
    obtain rfl : q = p + 1 := by omega
    rw [hone] at hslice
    cases hslice
    exact ⟨rfl, ht⟩
  · rintro ⟨rfl, ht⟩
    exact ⟨Nat.le_succ p, _, hone, ht⟩

theorem derives_ofKind_iff {k : Kind} :
    s.Derives (Phrase.ofKind k) p q ↔ q = p + 1 ∧ (s.peek p).kind = k :=
  derives_single_iff

/-- In a source that was read off a text the kind of a mark decides. -/
theorem Lexed.derives_mark_iff {text x : Text} {k : Kind} (hs : Lexed text s)
    (hk : k.fixedText? = some x) :
    s.Derives (Phrase.mark k) p q ↔ q = p + 1 ∧ (s.peek p).kind = k := by
  rw [Phrase.mark, derives_single_iff]
  constructor
  · rintro ⟨hq, hkind, -⟩
    exact ⟨hq, hkind⟩
  · rintro ⟨hq, hkind⟩
    have hp : p < s.size := by
      apply Nat.lt_of_not_le
      intro hle
      have hend := eq_of_beq (hs.isEnd_iff.mpr hle)
      rw [← hkind, hend] at hk
      cases hk
    have htext := ((hs.peek_solid hp).spelling k x hk).mp hkind
    exact ⟨hq, hkind, by rw [hk, htext]⟩

theorem derives_kstar_self (p : Nat) : s.Derives L∗ p p :=
  ⟨Nat.le_refl p, by rw [slice_self]; exact Language.nil_mem_kstar L⟩

theorem derives_kstar_more (h : s.Derives L p m) (h' : s.Derives L∗ m q) : s.Derives L∗ p q := by
  rw [← Language.one_add_self_mul_kstar_eq_kstar, derives_add_iff, derives_mul_iff]
  exact .inr ⟨m, h, h'⟩

/-- Induction on a repetition from its end back, with the parts that are empty left out. -/
theorem Derives.kstar_induction {motive : Nat → Prop} (h : s.Derives L∗ p q) (done : motive q)
    (more : ∀ p m, p < m → s.Derives L p m → s.Derives L∗ m q → motive m → motive p) :
    motive p := by
  obtain ⟨hle, hmem⟩ := h
  obtain ⟨parts, hparts, hL⟩ := Language.mem_kstar_iff_exists_nonempty.mp hmem
  induction parts generalizing p with
  | nil =>
    have hlen := s.length_slice p q
    rw [hparts, List.flatten_nil, List.length_nil] at hlen
    obtain rfl : p = q := by omega
    exact done
  | cons u parts ih =>
    obtain ⟨⟨hu, hne⟩, hrest⟩ := List.forall_mem_cons.mp hL
    have hmul : s.Derives ({u} * {parts.flatten}) p q :=
      ⟨hle, hparts ▸ Language.append_mem_mul rfl rfl⟩
    obtain ⟨m, ⟨hpm, hm⟩, hmq, hm'⟩ := derives_mul_iff.mp hmul
    have hm : s.slice p m = u := hm
    have hm' : s.slice m q = parts.flatten := hm'
    have hlt : p < m := by
      have hlen := s.length_slice p m
      rw [hm] at hlen
      have := List.length_pos_iff.mpr hne
      omega
    have hstar : s.slice m q ∈ L∗ := by
      rw [hm']
      exact Language.join_mem_kstar fun y hy => (hrest y hy).1
    exact more p m hlt ⟨hpm, hm ▸ hu⟩ ⟨hmq, hstar⟩ (ih hmq hstar hm' hrest)

end CommandGrammar.Source
