import CommandGrammar.Tree.Child

/-! Properties of all places of a tree. -/
namespace CommandGrammar

namespace Child

/-- The property holds of the place and of every place below it. -/
inductive Everywhere (P : Child → Prop) : Child → Prop
  | node {c : Child} (self : P c) (below : ∀ d ∈ c.children, Everywhere P d) : Everywhere P c

variable {P : Child → Prop}

/-- The outline of a tree comes by no other places. -/
private theorem forall_mem_outlineOf {stack : List (Nat × Child)}
    (h : ∀ x ∈ stack, Everywhere P x.2) : ∀ x ∈ outlineOf stack, P x.2 := by
  fun_induction outlineOf stack with
  | case1 => exact List.forall_mem_nil _
  | case2 depth c rest ih =>
    obtain ⟨hc, hrest⟩ := List.forall_mem_cons.mp h
    cases hc with
    | node self below =>
      refine List.forall_mem_cons.mpr ⟨self, ih (List.forall_mem_append.mpr ⟨?_, hrest⟩)⟩
      intro x hx
      obtain ⟨d, hd, rfl⟩ := List.mem_map.mp hx
      exact below d hd

theorem forall_mem_outline {e : Element} (h : Everywhere P (.element e)) :
    ∀ x ∈ e.outline, P x.2 :=
  forall_mem_outlineOf (List.forall_mem_singleton.mpr h)

/-- The leaves below a stack of places stand in the stack or directly below a place of its outline. -/
private theorem mem_leavesOf {stack : List (Nat × Child)} {l : Leaf}
    (h : l ∈ leavesOf (stack.map Prod.snd)) :
    .token l ∈ stack.map Prod.snd ∨ ∃ x ∈ outlineOf stack, .token l ∈ x.2.children := by
  fun_induction outlineOf stack with
  | case1 =>
    rw [List.map_nil, leavesOf] at h
    cases h
  | case2 depth c rest ih =>
    have hmap : (c.children.map (depth + 1, ·) ++ rest).map Prod.snd =
        c.children ++ rest.map Prod.snd := by
      rw [List.map_append, List.map_map]
      exact congrArg (· ++ _) (List.map_id c.children)
    rw [hmap] at ih
    -- a leaf is taken off the stack, and any other place gives way to the places below it
    have hstep : .token l = c ∨ l ∈ leavesOf (c.children ++ rest.map Prod.snd) := by
      by_cases hc : ∃ l', c = .token l'
      · obtain ⟨l', rfl⟩ := hc
        rw [List.map_cons, leavesOf] at h
        exact (List.mem_cons.mp h).imp (congrArg Child.token) id
      · rw [List.map_cons, leavesOf] at h
        · exact .inr h
        · exact fun l' hl' => hc ⟨l', hl'⟩
    rcases hstep with rfl | hrest
    · exact .inl List.mem_cons_self
    · rcases ih hrest with hmem | ⟨x, hx, hl⟩
      · rcases List.mem_append.mp hmem with hchild | hmem
        · exact .inr ⟨_, List.mem_cons_self, hchild⟩
        · exact .inl (List.mem_cons_of_mem _ hmem)
      · exact .inr ⟨x, List.mem_cons_of_mem _ hx, hl⟩

end Child

/-- Every leaf of a tree stands directly below one of its places. -/
theorem Element.exists_of_mem_leaves {e : Element} {l : Leaf} (h : l ∈ e.leaves) :
    ∃ x ∈ e.outline, .token l ∈ x.2.children := by
  have hstack : l ∈ Child.leavesOf ([(0, Child.element e)].map Prod.snd) := h
  rcases Child.mem_leavesOf hstack with htop | hbelow
  · cases List.mem_singleton.mp htop
  · exact hbelow

end CommandGrammar
