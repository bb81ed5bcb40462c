import CommandGrammar.Hint

/-! Two vocabularies for sets of categories: the bits of what a reference may bind to and the bits of
what is to be offered. They say the same, category by category, so nothing gets lost between them. -/
namespace CommandGrammar

namespace SymbolSet
variable {a b : SymbolSet} {c : Category}

theorem mem_iff : c ∈ a ↔ a.bits.getLsbD c.index = true := .rfl

/-- Each of the eight bits stands for a category. -/
private theorem exists_index : ∀ i < 8, ∃ c : Category, c.index = i := by
  intro i hi
  have h : i = 0 ∨ i = 1 ∨ i = 2 ∨ i = 3 ∨ i = 4 ∨ i = 5 ∨ i = 6 ∨ i = 7 := by omega
  rcases h with rfl | rfl | rfl | rfl | rfl | rfl | rfl | rfl
  · exact ⟨.column, rfl⟩
  · exact ⟨.table, rfl⟩
  · exact ⟨.externalTable, rfl⟩
  · exact ⟨.materializedView, rfl⟩
  · exact ⟨.database, rfl⟩
  · exact ⟨.cluster, rfl⟩
  · exact ⟨.databaseFunction, rfl⟩
  · exact ⟨.entityGroup, rfl⟩

/-- Sets with the same categories are the same, since no bit is left over. -/
theorem eq_of_mem_iff (h : ∀ c, c ∈ a ↔ c ∈ b) : a = b := by
  cases a with
  | mk bits =>
    cases b with
    | mk bits' =>
      congr 1
      apply BitVec.eq_of_getLsbD_eq
      intro i hi
      obtain ⟨c, rfl⟩ := exists_index i hi
      exact Bool.eq_iff_iff.mpr (h c)

theorem not_mem_none (c : Category) : c ∉ none := by
  cases c <;> decide

theorem mem_single_iff {d : Category} : c ∈ single d ↔ c = d := by
  cases c <;> cases d <;> decide

theorem mem_union_iff : c ∈ a ∪ b ↔ c ∈ a ∨ c ∈ b := by
  rw [mem_iff, mem_iff, mem_iff, ← Bool.or_eq_true, ← BitVec.getLsbD_or]
  rfl

theorem mem_foldl_union_iff (sets : List SymbolSet) (a : SymbolSet) :
    c ∈ sets.foldl (· ∪ ·) a ↔ c ∈ a ∨ ∃ b ∈ sets, c ∈ b := by
  induction sets generalizing a with
  | nil => simp only [List.foldl_nil, List.not_mem_nil, false_and, exists_false, or_false]
  | cons b sets ih =>
    rw [List.foldl_cons, ih, mem_union_iff, or_assoc]
    simp only [List.mem_cons, exists_eq_or_imp]

end SymbolSet

namespace Hint
variable {g h : Hint} {c : Category}

/-- A category has its bit in the same place in both vocabularies. -/
private theorem bits_single (c : Category) : (single c).bits = (SymbolSet.single c).bits := by
  cases c <;> rfl

private theorem contains_single : h.contains (single c) = h.bits.getLsbD c.index := by
  rw [contains, bits_single, SymbolSet.single, BitVec.and_twoPow]
  cases hbit : h.bits.getLsbD c.index with
  | true => rw [if_pos rfl, beq_self_eq_true]
  | false =>
    rw [if_neg Bool.false_ne_true]
    cases c <;> rfl

/-- A hint asks for the categories whose bits it has. -/
theorem mem_symbols_iff : c ∈ h.symbols ↔ h.bits.getLsbD c.index = true := by
  rw [symbols, SymbolSet.mem_foldl_union_iff, ← contains_single]
  constructor
  · rintro (hnone | ⟨b, hb, hc⟩)
    · exact absurd hnone (SymbolSet.not_mem_none c)
    · obtain ⟨d, hd, rfl⟩ := List.mem_map.mp hb
      rw [SymbolSet.mem_single_iff.mp hc]
      exact (List.mem_filter.mp hd).2
  · intro hc
    refine .inr ⟨.single c, List.mem_map_of_mem (List.mem_filter.mpr ⟨?_, hc⟩), ?_⟩
    · cases c <;> decide
    · exact SymbolSet.mem_single_iff.mpr rfl

theorem symbols_none : none.symbols = .none := rfl

theorem symbols_union : (g ∪ h).symbols = g.symbols ∪ h.symbols := by
  apply SymbolSet.eq_of_mem_iff
  intro c
  rw [SymbolSet.mem_union_iff, mem_symbols_iff, mem_symbols_iff, mem_symbols_iff,
    ← Bool.or_eq_true, ← BitVec.getLsbD_or]
  rfl

/-- A set that goes through a hint comes back as it was. -/
theorem symbols_ofSymbols (s : SymbolSet) : (ofSymbols s).symbols = s := by
  apply SymbolSet.eq_of_mem_iff
  intro c
  rw [mem_symbols_iff, ofSymbols, SymbolSet.any, BitVec.and_allOnes]
  rfl

/-- Hints may be joined before or after they are read as sets. -/
theorem symbols_foldl_union (hints : List Hint) (h : Hint) :
    (hints.foldl (· ∪ ·) h).symbols = (hints.map symbols).foldl (· ∪ ·) h.symbols := by
  induction hints generalizing h with
  | nil => rfl
  | cons g hints ih => rw [List.foldl_cons, ih, symbols_union, List.map_cons, List.foldl_cons]

end Hint
end CommandGrammar
