import CommandGrammar.Proofs.Token.Munch

/-! A piece is read the same whatever comes behind it, as long as that neither goes on with it nor
closes it: cutting the rest short changes nothing, and neither does putting a line feed there. -/
namespace CommandGrammar.Piece
open Token.Lexicon

/-- White space as the lexemes have it. -/
private def blank : Lexeme := ⟨.whitespace, .plus (.one isSpace)⟩

private theorem blank_mem : blank ∈ lexemes := by
  simp [blank, lexemes]

/-- Only white space goes over the end of a line. -/
private theorem isSpace_of_newline {x : Text} (h : IsLexeme x) (hx : '\n' ∈ x) :
    ∀ c ∈ x, isSpace c = true := by
  have hothers : ∀ l ∈ lexemes.tail, l.pattern.mentions '\n' = false := by decide +kernel
  have hlist : lexemes = blank :: lexemes.tail := rfl
  obtain ⟨l, mem, hmatch⟩ := h
  rw [hlist, List.mem_cons] at mem
  rcases mem with rfl | mem
  · exact (Pattern.matches_plus_one_iff.mp hmatch).2
  · exact absurd hx (Pattern.not_mem_of_mentions (hothers l mem) hmatch)

private theorem matches_blank {x : Text} (hne : x ≠ []) (hx : ∀ c ∈ x, isSpace c = true) :
    blank.pattern.Matches x :=
  Pattern.matches_plus_one_iff.mpr ⟨hne, hx⟩

/-- No opening goes over the end of a line. -/
private theorem newline_not_mem_opening : ∀ x ∈ openings, '\n' ∉ x.1 := by decide

/-- A literal that does not open before the end of a line does not open there. -/
private theorem Free.append_newline {t : Text} (h : Free t) (v : Text) : Free (t ++ '\n' :: v) := by
  intro x hx hstart
  rcases List.prefix_or_prefix_of_prefix hstart (List.prefix_append t _) with hle | ⟨w, hw⟩
  · exact h x hx hle
  · cases w with
    | nil => exact h x hx ⟨[], by rw [List.append_nil, ← hw, List.append_nil]⟩
    | cons c w =>
      rw [← hw, List.prefix_append_right_inj] at hstart
      obtain ⟨_, hc⟩ := hstart
      cases hc
      refine newline_not_mem_opening x hx ?_
      rw [← hw]
      exact List.mem_append_right t List.mem_cons_self

/-- What is no beginning of a text is a beginning of it with a line feed and more only if it goes
over that. -/
private theorem longest_before_newline {P : Text → Prop} {t : Text} (ht : P t)
    (h : ∀ w, ¬ P (t ++ '\n' :: w)) (v : Text) : Longest P (t ++ '\n' :: v) t := by
  refine longest_of_forall ht fun c w hw => ?_
  obtain ⟨_, hc⟩ := hw
  cases hc
  exact h w

/-- The bodies that go over the end of a line are those of verbatim literals. -/
private theorem mentions_newline {d : Delimited} (mem : d ∈ delimited) :
    d.body.mentions '\n' = false ∨ ∃ quote, d = verbatimLiteral quote := by
  simp only [delimited, List.mem_cons, List.not_mem_nil, or_false] at mem
  rcases mem with rfl | rfl | rfl | rfl | rfl
  · exact .inl (by decide)
  · exact .inl (by decide)
  · exact .inr ⟨_, rfl⟩
  · exact .inr ⟨_, rfl⟩
  · exact .inl (by decide)

namespace Munch
variable {s s' t u : Text} {k : Kind}

/-- What is read stays the same if the text is cut short behind it. -/
theorem shorten (h : Munch s k t) (hs : s' <+: s) (ht : t <+: s') : Munch s' k t := by
  have hfree (free : Free s) : Free s' := fun x hx hstart => free x hx (hstart.trans hs)
  cases h with
  | closed opens start body complete closing =>
    have hb := (List.prefix_append _ _).trans ht
    exact .closed opens ((opening_prefix_body opens start body).trans hb) (body.shorten hs hb)
      complete ht
  | broken opens start body unclosed =>
    refine .broken opens ((opening_prefix_body opens start body).trans ht) (body.shorten hs ht) ?_
    rintro ⟨hcomplete, hclosing⟩
    exact unclosed ⟨hcomplete, hclosing.trans hs⟩
  | lexeme free mem matched longest wins =>
    exact .lexeme (hfree free) mem matched (longest.shorten hs ht) wins
  | bad free start none => exact .bad (hfree free) ht fun u hu => none u (hu.trans hs)

/-- A verbatim literal is broken off only by the end of the text. -/
private theorem rest_eq_nil_of_verbatim {quote : Char}
    (body : Longest (verbatimLiteral quote).body.Matches (t ++ u) t)
    (unclosed : ¬ t ++ [quote] <+: t ++ u) : u = [] := by
  cases u with
  | nil => rfl
  | cons c u =>
    have hstart : t ++ [c] <+: t ++ c :: u := ⟨u, by simp⟩
    by_cases hc : c = quote
    · rw [hc] at hstart unclosed
      exact absurd hstart unclosed
    · have hlen := body.most _ hstart (verbatimBody_append body.holds hc)
      simp only [List.length_append, List.length_singleton] at hlen
      omega

/-- A token with something behind it is read the same if a line feed comes next instead. -/
theorem before_newline (h : Munch (t ++ u) k t) (hu : u ≠ []) (hk : k.isTrivia = false) (v : Text) :
    Munch (t ++ '\n' :: v) k t := by
  have hclosing : ∀ x ∈ openings, x.2.closing ≠ '\n' := by decide
  have hne := h.ne_nil
  generalize hs : t ++ u = s at h
  cases h with
  | @closed o d b opens start body complete _ =>
    rw [List.append_assoc, List.singleton_append]
    have hbody : Longest d.body.Matches (b ++ d.closing :: '\n' :: v) b := by
      refine longest_of_forall body.holds fun c w hw => ?_
      obtain ⟨x, hx⟩ := hw
      obtain ⟨rfl, hw⟩ := List.cons.inj hx
      refine not_matches_behind_closing opens body.holds fun hhead => ?_
      cases w with
      | nil => cases hhead
      | cons c w =>
        cases hhead
        exact hclosing _ opens (List.cons.inj hw).1
    refine .closed opens ?_ hbody complete ⟨'\n' :: v, by simp⟩
    exact (opening_prefix_body opens start body).trans (List.prefix_append b _)
  | @broken o d _ opens start body unclosed =>
    subst hs
    rcases mentions_newline (matches_opening opens).1 with hmentions | ⟨quote, hd⟩
    · refine .broken opens ((opening_prefix_body opens start body).trans (List.prefix_append t _))
        (longest_before_newline body.holds ?_ v) ?_
      · intro w hw
        exact Pattern.not_mem_of_mentions hmentions hw (List.mem_append_right t List.mem_cons_self)
      · rintro ⟨-, hend⟩
        rw [List.prefix_append_right_inj] at hend
        obtain ⟨w, hw⟩ := hend
        exact hclosing _ opens (List.cons.inj hw).1
    · cases hd
      exact absurd (rest_eq_nil_of_verbatim body fun hend => unclosed ⟨body.holds, hend⟩) hu
  | @lexeme l _ free mem matched longest wins =>
    subst hs
    have hfree : Free t := fun x hx hstart => free x hx (hstart.trans (List.prefix_append t u))
    refine .lexeme (hfree.append_newline v) mem matched
      (longest_before_newline longest.holds ?_ v) wins
    intro w hw
    -- Else the token would be white space itself.
    have hspace := isSpace_of_newline hw (List.mem_append_right t List.mem_cons_self)
    have hblank := matches_blank hne fun c hc => hspace c (List.mem_append_left _ hc)
    rcases wins blank blank_mem hblank with hkind | ⟨hkind, -⟩
    · rw [← hkind] at hk
      cases hk
    · cases hkind
  | @bad c free start none =>
    subst hs
    have hfree : Free [c] := fun x hx hstart => free x hx (hstart.trans start)
    refine .bad (hfree.append_newline v) (List.prefix_append _ _) fun x hx hlex => ?_
    rcases List.prefix_or_prefix_of_prefix hx (List.prefix_append [c] _) with hle | ⟨w, rfl⟩
    · exact none x (hle.trans start) hlex
    · cases w with
      | nil => exact none [c] start hlex
      | cons d w =>
        obtain ⟨_, hd⟩ := (List.prefix_append_right_inj [c]).mp hx
        cases hd
        have hspace := isSpace_of_newline hlex (by simp)
        refine none [c] start ⟨blank, blank_mem, matches_blank hne fun d hd => hspace d ?_⟩
        exact List.mem_append_left _ hd

end Munch

/-- A line feed is a piece of its own before a text that does not begin with white space. -/
theorem munch_newline {r : Text} (hr : ∀ c ∈ r.head?, isSpace c = false) :
    Munch (['\n'] ++ r) .whitespace ['\n'] := by
  have hmatch : blank.pattern.Matches ['\n'] :=
    matches_blank (List.cons_ne_nil _ _) (List.forall_mem_singleton.mpr rfl)
  refine .lexeme (l := blank) ?_ blank_mem hmatch
    (longest_of_forall ⟨blank, blank_mem, hmatch⟩ ?_) ?_
  · have hfree : Free [] := fun x hx hstart => opening_ne_nil x hx (List.prefix_nil.mp hstart)
    exact hfree.append_newline r
  · intro c w hw hlex
    obtain ⟨x, rfl⟩ := hw
    have hspace := isSpace_of_newline hlex (List.mem_append_left _ List.mem_cons_self) c (by simp)
    rw [hr c rfl] at hspace
    cases hspace
  · intro l' mem' hmatch'
    exact kind_eq_of_matches blank_mem mem' hmatch hmatch' (.inl nofun)

end CommandGrammar.Piece
