import CommandGrammar.Proofs.Fragment.Leaves
import CommandGrammar.Proofs.Phrase.Start

/-! The grammars of the query language find every phrase of it, if what stands behind the phrase
cannot be taken for more of it. -/
namespace CommandGrammar.Source
open Fragment Computability Leaf
variable {text : Text} {s : Source} {p q : Nat}

/-- What stands at a position is neither a dot nor a name with an equals sign behind it, so that it
adds nothing to a statement that ends there. -/
structure Stops (s : Source) (q : Nat) : Prop where
  dot : (s.peek q).kind ≠ .dot
  binding : (s.peek q).kind.isIdentifierLike = true → (s.peek (q + 1)).kind ≠ .equal

private theorem stops_of_kind {k : Kind} (h : (s.peek q).kind = k) (hdot : k ≠ .dot)
    (hname : k.isIdentifierLike = false) : s.Stops q := by
  subst h
  exact ⟨hdot, fun h => absurd h (by rw [hname]; exact Bool.false_ne_true)⟩

/-- A repetition is read part by part up to what it is known to read behind the parts. -/
private theorem finds_many {α : Type} {leaves : α → List Leaf} {g : Grammar α} {L : Language Token}
    {m : Nat} (hg : ∀ r n, s.Derives L r n → s.Finds leaves g r n) (h : s.Derives L∗ p m)
    (hrest : s.Finds (List.flatMap leaves) g.many m q) :
    s.Finds (List.flatMap leaves) g.many p q :=
  h.kstar_induction (motive := fun r => s.Finds (List.flatMap leaves) g.many r q) hrest
    fun r n hlt hone _ hmore => .many_more (hg r n hone) hlt hmore

private theorem finds_ofKind {k : Kind} (hend : k ≠ .endOfText)
    (h : s.Derives (Phrase.ofKind k) p q) : s.Finds (fun l => [l]) (.kind k) p q := by
  obtain ⟨rfl, hk⟩ := derives_ofKind_iff.mp h
  exact .kind hend hk

private theorem finds_identifierName (h : s.Derives Phrase.identifier p q) :
    s.Finds Name.leaves identifierName p q := by
  obtain ⟨rfl, hname⟩ := derives_identifier_iff.mp h
  refine (Finds.satisfy ?_ hname).map fun _ => rfl
  rw [isEnd, Token.isEnd, beq_eq_false_iff_ne]
  intro hend
  rw [hend] at hname
  cases hname

private theorem finds_typeName (h : s.Derives Phrase.type p q) :
    s.Finds (fun l => [l]) typeName p q := by
  obtain ⟨rfl, hkind, htext⟩ := derives_single_iff.mp h
  refine .satisfy ?_ ?_
  · rw [isEnd, Token.isEnd, hkind]
    rfl
  · rw [isTypeName, hkind, Bool.and_eq_true_iff]
    exact ⟨rfl, List.contains_iff_mem.mpr htext⟩

private theorem finds_literal (h : s.Derives Phrase.literal p q) :
    s.Finds Element.flatten literal p q := by
  obtain ⟨rfl, sort, hkind⟩ := derives_literal_iff.mp h
  have hfinds (sort' : LiteralSort) (hkind : (s.peek p).kind = sort'.tokenKind) :
      s.Finds Element.flatten (literalOf sort' sort'.tokenKind) p (p + 1) :=
    (Finds.kind (by cases sort' <;> decide) hkind).map fun _ => rfl
  refine .withLabel _ (.first ?_ ?_)
  · intro g hg
    obtain ⟨sort', -, rfl⟩ := List.mem_map.mp hg
    by_cases hkind' : (s.peek p).kind = sort'.tokenKind
    · exact .inr (hfinds sort' hkind')
    · exact .inl (parse_map_eq_none (parse_kind_eq_none hkind'))
  · refine ⟨_, List.mem_map.mpr ⟨sort, ?_, rfl⟩, hfinds sort hkind⟩
    cases sort <;> decide

namespace Lexed

private theorem finds_kind (hs : Lexed text s) {k : Kind} {x : Text} (hk : k.fixedText? = some x)
    (h : s.Derives (Phrase.mark k) p q) : s.Finds (fun l => [l]) (.kind k) p q := by
  obtain ⟨rfl, hkind⟩ := (hs.derives_mark_iff hk).mp h
  refine .kind ?_ hkind
  rintro rfl
  cases hk

private theorem finds_text (hs : Lexed text s) {k : Kind} {x : Text} (hk : k.fixedText? = some x)
    (h : s.Derives (Phrase.mark k) p q) : s.Finds (fun l => [l]) (.text x) p q := by
  obtain ⟨l, hl, hpresent⟩ := hs.finds_kind hk h
  exact ⟨l, by rw [hs.parse_text hk, hl], hpresent⟩

private theorem finds_reference (hs : Lexed text s) (h : s.Derives Phrase.reference p q) :
    s.Finds Element.flatten anyReference p q := by
  have hname : s.Finds Name.leaves (.first [identifierName, bracketedName]) p q := by
    rw [Phrase.reference, derives_add_iff, mul_assoc, derives_mul_iff] at h
    rcases h with h | ⟨m, hopen, h⟩
    · exact .left (finds_identifierName h)
    · obtain ⟨r, hname, hclose⟩ := derives_mul_iff.mp h
      have hbracket := ((hs.derives_mark_iff rfl).mp hopen).2
      have hbracketed : s.Finds Name.leaves bracketedName p q :=
        ((hs.finds_text rfl hopen).seq ((finds_ofKind (by decide) hname).seq
          (hs.finds_text rfl hclose))).map fun _ => rfl
      refine .right (ensures_identifierName.parse_eq_none fun _ _ hid => ?_) hbracketed
      rw [hbracket] at hid
      cases hid.2
  exact hname.map fun _ => rfl

/-- The links of a chain are read as far as they go. -/
private theorem finds_links (hs : Lexed text s) (hdot : (s.peek q).kind ≠ .dot)
    (h : s.Derives (Phrase.mark .dot * Phrase.reference)∗ p q) :
    s.Finds (List.flatMap fun l : Link => l.dot :: l.selector.flatten)
      (link anyReference ['.'] (Placeholder.reference .any).element).many p q := by
  refine finds_many ?_ h (.many_done (parse_map_eq_none (parse_seq_eq_none (parse_map_eq_none ?_))))
  · intro r n hlink
    obtain ⟨m, hd, href⟩ := derives_mul_iff.mp hlink
    have hhidden : s.Finds (fun l => [l]) (Grammar.hide (.text ['.'])) r m := by
      obtain ⟨l, hl, hpresent⟩ := hs.finds_text rfl hd
      refine ⟨l.hide, ?_, ?_⟩
      · rw [Grammar.hide, parse_map, hl, Option.map_some]
      · rw [present_singleton] at hpresent ⊢
        exact hpresent
    exact (hhidden.seq (hs.finds_reference href).required).map fun _ => rfl
  · rw [hs.parse_text (k := .dot) rfl]
    exact parse_kind_eq_none hdot

theorem finds_expression (hs : Lexed text s) (h : s.Derives Phrase.expression p q)
    (hdot : (s.peek q).kind ≠ .dot) : s.Finds Element.flatten expression p q := by
  refine .withLabel _ ?_
  rw [Phrase.expression, derives_add_iff, derives_mul_iff] at h
  rcases h with h | ⟨m, href, hlinks⟩
  · exact .left (finds_literal h)
  · refine .right ?_ ?_
    · -- No literal begins as a reference does.
      apply ensures_literal.parse_eq_none
      intro _ _ hliteral
      obtain ⟨-, sort, hkind⟩ := hliteral
      rcases hs.reference_start href with ⟨-, hname⟩ | hbracket
      · rw [hkind] at hname
        cases sort <;> cases hname
      · rw [hkind] at hbracket
        cases sort <;> cases hbracket
    · exact ((hs.finds_reference href).seq (hs.finds_links hdot hlinks)).map
        fun a => Element.flatten_chain a.1 a.2

/-- Where an expression is followed by nothing that could make it a binding, no binding begins. -/
private theorem parse_binding_eq_none (hs : Lexed text s) (h : s.Derives Phrase.expression p q)
    (hq : s.Stops q) : s.parse binding p = none := by
  apply hs.ensures_binding_kind.parse_eq_none
  intro _ _ hbinding
  obtain ⟨hlet, hname, hequal⟩ := hbinding
  rcases hs.expression_start h with ⟨sort, hkind⟩ | ⟨-, rfl | hdot⟩ | hbracket
  · rw [hkind] at hlet
    cases sort <;> cases hlet
  · exact hq.binding hname hequal
  · rw [hdot] at hname
    cases hname
  · rw [hbracket] at hlet
    cases hlet

private theorem finds_statement (hs : Lexed text s) (h : s.Derives Phrase.statement p q)
    (hq : s.Stops q) : s.Finds Statement.flatten statement p q := by
  rw [Phrase.statement, derives_add_iff, Phrase.binding, mul_assoc, derives_mul_iff] at h
  rcases h with ⟨m, hleft, hright⟩ | h
  · obtain ⟨l, hlet, hname⟩ := derives_mul_iff.mp hleft
    obtain ⟨r, hequal, hvalue⟩ := derives_mul_iff.mp hright
    have hbinding : s.Finds Statement.flatten binding p q :=
      (((finds_ofKind (by decide) hlet).seq (finds_identifierName hname)).seq
        ((hs.finds_text rfl hequal).seq (hs.finds_expression hvalue hq.dot).required)).map
          fun _ => by simp [Statement.flatten]
    exact .left hbinding
  · exact .right (hs.parse_binding_eq_none h hq) ((hs.finds_expression h hq.dot).map fun _ => rfl)

/-- A script is read to its end. No statement of it takes anything of the next one: that begins
neither with a dot nor with a name and an equals sign. -/
theorem finds_script (hs : Lexed text s) (h : s.Derives Phrase.script p q)
    (hend : s.isEnd q = true) : s.Finds Element.flatten script p q := by
  have hq : (s.peek q).kind = .endOfText := eq_of_beq hend
  have hloop := h.kstar_induction (motive := fun r =>
    s.Finds (List.flatMap fun x => x.1.flatten ++ x.2.elim [] fun l => [l])
        (statement.seq (Grammar.kind .semicolon).optional).many r q ∧
      s.Stops r ∧ ((s.peek r).kind ∈ Phrase.starters ∨ (s.peek r).kind = .endOfText)) ?_ ?_
  · exact hloop.1.map flatten_script
  · refine ⟨.many_done (parse_seq_eq_none ?_), stops_of_kind hq (by decide) rfl, .inr hq⟩
    apply hs.ensures_statement_kind.parse_eq_none
    intro _ _ hkind
    exact Phrase.ne_of_mem_starters hkind (by decide) hq
  · rintro r m hlt hone - ⟨hrest, hstops, hkind⟩
    obtain ⟨n, hstatement, hsemicolon⟩ := derives_mul_iff.mp hone
    have hne {k : Kind} (hk : k ∉ Phrase.starters) (hk' : k ≠ .endOfText) :
        (s.peek m).kind ≠ k := by
      rcases hkind with hkind | hkind
      · exact Phrase.ne_of_mem_starters hkind hk
      · rw [hkind]
        exact hk'.symm
    have hnext : s.Stops n ∧ (s.peek n).kind ≠ .equal ∧
        s.Finds (fun o => o.elim [] fun l => [l]) (Grammar.kind .semicolon).optional n m := by
      rcases derives_add_iff.mp hsemicolon with hnone | hmark
      · obtain rfl := derives_one_iff.mp hnone
        exact ⟨hstops, hne (by decide) (by decide),
          .optional_none (parse_kind_eq_none (hne (by decide) (by decide)))⟩
      · have hn := ((hs.derives_mark_iff rfl).mp hmark).2
        refine ⟨stops_of_kind hn (by decide) rfl, ?_, .optional_some (hs.finds_kind rfl hmark)⟩
        rw [hn]
        exact nofun
    obtain ⟨hstops', hequal, hfinds⟩ := hnext
    have hstart := hs.statement_kind_mem hstatement
    refine ⟨.many_more ((hs.finds_statement hstatement hstops').seq hfinds) hlt hrest, ⟨?_, ?_⟩,
      .inl hstart⟩
    · exact Phrase.ne_of_mem_starters hstart (by decide)
    · intro hname
      rcases hs.statement_second hstatement hname with rfl | hsecond
      · exact hequal
      · exact hsecond

private theorem finds_requiredKind (hs : Lexed text s) {k : Kind} {x : Text}
    (hk : k.fixedText? = some x) (h : s.Derives (Phrase.mark k) p q) :
    s.Finds (fun l => [l]) (requiredKind k) p q :=
  (hs.finds_kind hk h).required

private theorem finds_parameter (hs : Lexed text s) (h : s.Derives Phrase.parameter p q) :
    s.Finds Parameter.leaves parameter p q := by
  rw [Phrase.parameter, mul_assoc, derives_mul_iff] at h
  obtain ⟨m, hname, h⟩ := h
  obtain ⟨n, hcolon, htype⟩ := derives_mul_iff.mp h
  exact ((finds_identifierName hname).seq ((hs.finds_requiredKind rfl hcolon).seq
    (finds_typeName htype).required)).map fun _ => rfl

private theorem finds_parameters (hs : Lexed text s) (h : s.Derives Phrase.parameters p q) :
    s.Finds Parameters.flatten parameters p q := by
  rw [Phrase.parameters, mul_assoc, derives_mul_iff] at h
  obtain ⟨m, hopen, h⟩ := h
  obtain ⟨n, hlist, hclose⟩ := derives_mul_iff.mp h
  have hn := ((hs.derives_mark_iff rfl).mp hclose).2
  have hseparated : s.Finds
      (fun x => x.elim [] fun y => y.1.leaves ++ y.2.flatMap fun z => [z.1] ++ z.2.leaves)
      (Grammar.separated parameter (.kind .comma)) m n := by
    rcases derives_add_iff.mp hlist with hnone | hsome
    · obtain rfl := derives_one_iff.mp hnone
      refine .optional_none (parse_seq_eq_none (parse_map_eq_none (parse_seq_eq_none ?_)))
      apply ensures_identifierName.parse_eq_none
      intro _ _ hname
      rw [hn] at hname
      cases hname.2
    · obtain ⟨r, hhead, hrest⟩ := derives_mul_iff.mp hsome
      refine .optional_some ((hs.finds_parameter hhead).seq (finds_many ?_ hrest ?_))
      · intro r l hone
        obtain ⟨m, hcomma, hparameter⟩ := derives_mul_iff.mp hone
        exact (hs.finds_kind rfl hcomma).seq (hs.finds_parameter hparameter)
      · refine .many_done (parse_seq_eq_none (parse_kind_eq_none ?_))
        rw [hn]
        exact nofun
  have hfinds : s.Finds Parameter.leavesOf parameterList m n :=
    hseparated.map leavesOf_parameterList
  exact .withLabel _ (((hs.finds_kind rfl hopen).seq
    (hfinds.seq (hs.finds_requiredKind rfl hclose))).map fun _ => rfl)

private theorem finds_closed (hs : Lexed text s)
    (h : s.Derives (Phrase.statement * Phrase.mark .semicolon) p q) :
    s.Finds (fun x => x.1.flatten ++ [x.2]) (statement.seq (Grammar.kind .semicolon)) p q := by
  obtain ⟨m, hstatement, hsemicolon⟩ := derives_mul_iff.mp h
  have hm := ((hs.derives_mark_iff rfl).mp hsemicolon).2
  exact (hs.finds_statement hstatement (stops_of_kind hm (by decide) rfl)).seq
    (hs.finds_kind rfl hsemicolon)

/-- What stands in a body behind its closed statements. An expression with a semicolon is read as one
more of them, any other is kept apart. -/
private theorem finds_tail (hs : Lexed text s) (hbrace : (s.peek q).kind = .closeBrace)
    (h : s.Derives ((1 + Phrase.expression) * (1 + Phrase.mark .semicolon)) p q) :
    ∃ m, s.Finds (List.flatMap fun x => x.1.flatten ++ [x.2])
        (statement.seq (Grammar.kind .semicolon)).many p m ∧
      s.Finds (fun x => x.1.elim [] Element.flatten ++ x.2.elim [] fun l => [l])
        (expression.optional.seq (Grammar.kind .semicolon).optional) m q := by
  -- A token that begins no statement ends the loop and is no value.
  have stop {r : Nat} {k : Kind} (hr : (s.peek r).kind = k) (hk : k ∉ Phrase.starters) :
      s.parse (statement.seq (Grammar.kind .semicolon)) r = none ∧ s.parse expression r = none :=
    ⟨parse_seq_eq_none (hs.ensures_statement_kind.parse_eq_none fun _ _ hkind =>
      Phrase.ne_of_mem_starters hkind hk hr), hs.ensures_expression_kind.parse_eq_none fun _ _ hkind =>
      Phrase.ne_of_mem_starters hkind hk hr⟩
  have hopen : s.parse (Grammar.kind .semicolon) q = none :=
    parse_kind_eq_none (by rw [hbrace]; exact nofun)
  obtain ⟨hloop, hvalue⟩ := stop hbrace (by decide)
  obtain ⟨n, hexpression, hsemicolon⟩ := derives_mul_iff.mp h
  rcases derives_add_iff.mp hexpression with hnone | hexpression
  · obtain rfl := derives_one_iff.mp hnone
    rcases derives_add_iff.mp hsemicolon with hnone | hsemicolon
    · obtain rfl := derives_one_iff.mp hnone
      exact ⟨p, .many_done hloop, (Finds.optional_none hvalue).seq (.optional_none hopen)⟩
    · obtain ⟨hloop, hvalue⟩ := stop ((hs.derives_mark_iff rfl).mp hsemicolon).2 (by decide)
      exact ⟨p, .many_done hloop,
        (Finds.optional_none hvalue).seq (.optional_some (hs.finds_kind rfl hsemicolon))⟩
  · have hstatement : s.Derives Phrase.statement p n := derives_add_iff.mpr (.inr hexpression)
    rcases derives_add_iff.mp hsemicolon with hnone | hsemicolon
    · obtain rfl := derives_one_iff.mp hnone
      have hstops : s.Stops n := stops_of_kind hbrace (by decide) rfl
      refine ⟨p, .many_done ((hs.finds_statement hstatement hstops).parse_seq_eq_none hopen), ?_⟩
      exact (hs.finds_expression hexpression hstops.dot).optional_some.seq (.optional_none hopen)
    · have hclosed := hs.finds_closed (derives_mul_iff.mpr ⟨n, hstatement, hsemicolon⟩)
      have hlt : p < q := by
        obtain ⟨rfl, -⟩ := (hs.derives_mark_iff rfl).mp hsemicolon
        exact Nat.lt_succ_of_le hexpression.1
      exact ⟨q, .many_more hclosed hlt (.many_done hloop),
        (Finds.optional_none hvalue).seq (.optional_none hopen)⟩

private theorem finds_body (hs : Lexed text s) (h : s.Derives Phrase.body p q) :
    s.Finds Body.flatten body p q := by
  rw [Phrase.body, derives_mul_iff] at h
  obtain ⟨n, h, hclose⟩ := h
  rw [mul_assoc, derives_mul_iff] at h
  obtain ⟨r, h, htail⟩ := h
  obtain ⟨m, hopen, hclosed⟩ := derives_mul_iff.mp h
  obtain ⟨l, hloop, htail⟩ := hs.finds_tail ((hs.derives_mark_iff rfl).mp hclose).2 htail
  have hstatements : s.Finds Statements.flatten closedStatements m l :=
    (finds_many (fun _ _ => hs.finds_closed) hclosed hloop).map flatten_closedStatements
  exact .withLabel _ (((hs.finds_kind rfl hopen).seq ((hstatements.seq htail).seq
    (hs.finds_requiredKind rfl hclose))).map flatten_body)

theorem finds_function (hs : Lexed text s) (h : s.Derives Phrase.function p q) :
    s.Finds Element.flatten function p q := by
  obtain ⟨m, hparameters, hbody⟩ := derives_mul_iff.mp h
  exact .withLabel _ (((hs.finds_parameters hparameters).seq (hs.finds_body hbody)).map
    fun _ => rfl)

theorem finds_bodyElement (hs : Lexed text s) (h : s.Derives Phrase.body p q) :
    s.Finds Element.flatten bodyElement p q :=
  .withLabel _ ((hs.finds_body h).map fun _ => rfl)

end Lexed
end CommandGrammar.Source
