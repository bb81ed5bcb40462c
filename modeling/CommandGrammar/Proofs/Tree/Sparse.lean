import CommandGrammar.Proofs.Fragment.Leaves
import CommandGrammar.Proofs.Tree.Coverage
import CommandGrammar.Proofs.Tree.Missing

/-! Trees in which missing leaves stand alone. There every missing leaf has a message of its own, and
where it is reported can be read off the leaves. -/
namespace CommandGrammar

/-- Where the missing ones of some leaves are reported: each at the end of the last leaf before it that
is there. -/
def Leaf.gaps (lastEnd : Nat) : List Leaf → List Nat
  | [] => []
  | l :: ls => if l.missing then lastEnd :: gaps lastEnd ls else gaps l.range.stop ls

namespace Leaf

theorem gaps_missing {l : Leaf} (h : l.missing = true) (lastEnd : Nat) (ls : List Leaf) :
    gaps lastEnd (l :: ls) = lastEnd :: gaps lastEnd ls := by
  rw [gaps, if_pos h]

theorem gaps_present {l : Leaf} (h : l.missing = false) (lastEnd : Nat) (ls : List Leaf) :
    gaps lastEnd (l :: ls) = gaps l.range.stop ls := by
  rw [gaps, h, if_neg Bool.false_ne_true]

theorem length_gaps (lastEnd : Nat) (ls : List Leaf) :
    (gaps lastEnd ls).length = (ls.filter (·.missing)).length := by
  induction ls generalizing lastEnd with
  | nil => rfl
  | cons l ls ih =>
    cases h : l.missing with
    | true => rw [gaps_missing h, List.filter_cons_of_pos h, List.length_cons, ih, List.length_cons]
    | false => rw [gaps_present h, List.filter_cons_of_neg (by simp [h]), ih]

end Leaf

/-- The codes under which the missing leaves of a parsed tree are reported. -/
def Diagnostic.Code.recovered : List Code :=
  [.missingDelimiter, .missingName, .missingReference, .missingType]

namespace Child
open Diagnostic

/-- Below the place every outermost missing place is a single leaf. All others begin with a leaf that is
there, if they have any. -/
inductive Sparse : Child → Prop
  | lone {c : Child} {l : Leaf} (leaf : c.flatten = [l]) (missing : l.missing = true)
      (code : (describe c).1 ∈ Code.recovered) : Sparse c
  | here {c : Child} (head : ∀ l ∈ c.flatten.head?, l.missing = false)
      (below : ∀ d ∈ c.children, Sparse d) : Sparse c

private theorem isMissing_of_lone {c : Child} {l : Leaf} (hc : c.flatten = [l])
    (hl : l.missing = true) : c.isMissing = true := by
  rw [isMissing, leaves_eq, hc, List.all_cons, hl]
  rfl

private theorem isMissing_of_head {c : Child} (h : ∀ l ∈ c.flatten.head?, l.missing = false) :
    c.isMissing = false := by
  rw [isMissing, leaves_eq]
  cases hc : c.flatten with
  | nil => rfl
  | cons l ls =>
    rw [hc] at h
    rw [List.all_cons, h l rfl]
    rfl

theorem sparse_token {l : Leaf} (h : l.missing = false) : Sparse (.token l) :=
  .here (Leaf.head_present h []) fun _ hd => absurd hd List.not_mem_nil

/-- A path is sparse if its parts are and its qualifier is there at least in part. -/
theorem sparse_path {q e : Element} {dot : Leaf} (hq : Sparse (.element q))
    (hhead : ∃ l ls, q.flatten = l :: ls ∧ l.missing = false) (hdot : Sparse (.token dot))
    (he : Sparse (.element e)) : Sparse (.element (.path q dot e)) := by
  obtain ⟨l, ls, hl, hpresent⟩ := hhead
  refine .here ?_ ?_
  · -- the path begins with the same leaf as its qualifier
    rw [Child.flatten, Element.flatten, hl, List.cons_append]
    exact Leaf.head_present hpresent _
  · exact List.forall_mem_cons.mpr ⟨hq, List.forall_mem_cons.mpr
      ⟨hdot, List.forall_mem_singleton.mpr he⟩⟩

end Child

namespace Diagnostic
open Child Leaf

/-- One message for each missing leaf, where the leaves before it end. -/
private theorem missingOf_sparse {stack : List Child} (h : ∀ c ∈ stack, c.Sparse) (lastEnd : Nat) :
    (missingOf lastEnd stack).map (·.range) = (gaps lastEnd (leavesOf stack)).map .point ∧
      ∀ d ∈ missingOf lastEnd stack, d.code ∈ Code.recovered := by
  fun_induction missingOf lastEnd stack with
  | case1 =>
    rw [leavesOf_eq]
    exact ⟨rfl, List.forall_mem_nil _⟩
  | case2 lastEnd c rest hc code message hdescribe ih =>
    obtain ⟨hsparse, hrest⟩ := List.forall_mem_cons.mp h
    obtain ⟨hranges, hcodes⟩ := ih hrest
    cases hsparse with
    | here head _ =>
      rw [isMissing_of_head head] at hc
      cases hc
    | @lone _ l leaf missing hcode =>
      rw [hdescribe] at hcode
      refine ⟨?_, List.forall_mem_cons.mpr ⟨hcode, hcodes⟩⟩
      rw [List.map_cons, hranges, leavesOf_eq, leavesOf_eq, List.flatMap_cons, leaf,
        List.singleton_append, gaps_missing missing, List.map_cons]
  | case3 lastEnd rest l hl ih =>
    obtain ⟨hranges, hcodes⟩ := ih (List.forall_mem_cons.mp h).2
    have hpresent : l.missing = false := by
      simpa [isMissing, leaves_eq, flatten] using hl
    refine ⟨?_, hcodes⟩
    rw [hranges, leavesOf_eq, leavesOf_eq, List.flatMap_cons, flatten, List.singleton_append,
      gaps_present hpresent]
  | case4 lastEnd rest c hc hmissing ih =>
    obtain ⟨hsparse, hrest⟩ := List.forall_mem_cons.mp h
    cases hsparse with
    | lone leaf missing _ => exact absurd (isMissing_of_lone leaf missing) hmissing
    | here _ below =>
      obtain ⟨hranges, hcodes⟩ := ih (List.forall_mem_append.mpr ⟨below, hrest⟩)
      refine ⟨?_, hcodes⟩
      rw [hranges, leavesOf_eq, leavesOf_eq, List.flatMap_append, List.flatMap_cons,
        ← flatten_eq c hc]

theorem missing_sparse {e : Element} (h : (Child.element e).Sparse) :
    (missing e).map (·.range) = (gaps 0 e.leaves).map .point ∧
      ∀ d ∈ missing e, d.code ∈ Code.recovered := by
  rw [missing_eq]
  exact missingOf_sparse (List.forall_mem_singleton.mpr h) 0

end Diagnostic
end CommandGrammar
