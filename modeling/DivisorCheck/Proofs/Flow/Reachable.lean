/-
  What control may reach.

  `FlowGraph.Connects` says that a way along edges leads from one block to another.
  `reachable` finds the blocks that one block so connects to, with a search that
  takes blocks from a stack.  The search is cut off after a number of blocks, which
  never happens: a block is put on the stack for every wire that leaves a block
  taken from it for the first time, so `wireCount` bounds how many are ever taken
  (`reachFrom_closed`).
-/
import DivisorCheck.Flow.Order
import Mathlib.Algebra.BigOperators.Group.Finset.Basic
import Mathlib.Logic.Relation

namespace DivisorCheck.FlowGraph

variable {g : FlowGraph} {b c : BlockId}

/-- Control may pass from a block to another along edges. -/
def Connects (g : FlowGraph) : BlockId → BlockId → Prop :=
  Relation.ReflTransGen fun b c => c ∈ g.succBlocks b

/-! ### Blocks that the graph does not hold -/

theorem block_of_not_held (hb : ¬ b < g.blocks.size) : g.block b = { id := 0 } := by
  rw [block, Array.getD_eq_getD_getElem?, Array.getElem?_eq_none (Nat.not_lt.1 hb)]
  rfl

theorem succBlocks_of_not_held (hb : ¬ b < g.blocks.size) : g.succBlocks b = [] := by
  rw [succBlocks, succEdges, block_of_not_held hb]
  rfl

/-- What is to be shown of all edges needs to be shown of those that leave blocks of the graph. -/
theorem forall_succBlocks {P : BlockId → BlockId → Prop}
    (h : ∀ b < g.blocks.size, ∀ c ∈ g.succBlocks b, P b c) (b : BlockId) :
    ∀ c ∈ g.succBlocks b, P b c := by
  by_cases hheld : b < g.blocks.size
  · exact h b hheld
  · rw [succBlocks_of_not_held hheld]
    exact fun c hc => absurd hc List.not_mem_nil

theorem length_succBlocks (g : FlowGraph) (b : BlockId) :
    (g.succBlocks b).length = (g.block b).succs.length := by
  simp [succBlocks, succEdges]

/-! ### The search -/

/-- How many wires leave blocks that have not been searched. -/
def pending (g : FlowGraph) (seen : List BlockId) : Nat :=
  ∑ b ∈ (Finset.range g.blocks.size).filter (· ∉ seen), (g.block b).succs.length

theorem pending_nil_eq (g : FlowGraph) : g.pending [] + 1 = g.wireCount := by
  have hblocks : g.blocks.toList = (List.range g.blocks.size).map g.block := by
    refine List.ext_getElem (by simp) fun i hi _ => ?_
    have hheld : i < g.blocks.size := by simpa using hi
    simp [block, Array.getD, hheld]
  have hsum : ∀ (l : List Block) (n : Nat),
      l.foldl (fun n b => n + b.succs.length) n = n + (l.map fun b => b.succs.length).sum := by
    intro l
    induction l with
    | nil => exact fun n => rfl
    | cons b l ih =>
      intro n
      rw [List.foldl_cons, ih, List.map_cons, List.sum_cons]
      omega
  have hall : (Finset.range g.blocks.size).filter (· ∉ ([] : List BlockId)) =
      Finset.range g.blocks.size := by
    refine Finset.filter_true_of_mem fun b _ => List.not_mem_nil
  rw [pending, hall, wireCount, ← Array.foldl_toList, hsum, hblocks, List.map_map, Nat.add_comm]
  rfl

/-- Searching a block turns the wires that leave it into blocks on the stack. -/
theorem pending_mark (hb : b ∉ (seen : List BlockId)) :
    g.pending (b :: seen) + (g.succBlocks b).length = g.pending seen := by
  by_cases hheld : b < g.blocks.size
  · have hmem : b ∈ (Finset.range g.blocks.size).filter (· ∉ seen) :=
      Finset.mem_filter.2 ⟨Finset.mem_range.2 hheld, hb⟩
    have herase : (Finset.range g.blocks.size).filter (· ∉ b :: seen) =
        ((Finset.range g.blocks.size).filter (· ∉ seen)).erase b := by
      ext c
      simp only [Finset.mem_filter, Finset.mem_erase, List.mem_cons, not_or]
      constructor
      · rintro ⟨hc, hcb, hseen⟩
        exact ⟨hcb, hc, hseen⟩
      · rintro ⟨hcb, hc, hseen⟩
        exact ⟨hc, hcb, hseen⟩
    rw [pending, herase, length_succBlocks]
    exact Finset.sum_erase_add _ _ hmem
  · have hsame : (Finset.range g.blocks.size).filter (· ∉ b :: seen) =
        (Finset.range g.blocks.size).filter (· ∉ seen) := by
      apply Finset.filter_congr
      intro c hc
      have hcb : c ≠ b := by
        rintro rfl
        exact hheld (Finset.mem_range.1 hc)
      simp [hcb]
    rw [pending, hsame, succBlocks_of_not_held hheld]
    rfl

/-- **The search finds a set that no edge leaves**, with all blocks on its stack. -/
theorem reachFrom_closed {fuel : Nat} {stack seen : List BlockId}
    (hfuel : stack.length + g.pending seen ≤ fuel)
    (hseen : ∀ b ∈ seen, ∀ c ∈ g.succBlocks b, c ∈ seen ∨ c ∈ stack) :
    (∀ b ∈ seen, b ∈ g.reachFrom fuel stack seen) ∧
    (∀ b ∈ stack, b ∈ g.reachFrom fuel stack seen) ∧
    ∀ b ∈ g.reachFrom fuel stack seen, ∀ c ∈ g.succBlocks b,
      c ∈ g.reachFrom fuel stack seen := by
  induction fuel generalizing stack seen with
  | zero =>
    obtain rfl : stack = [] := List.eq_nil_of_length_eq_zero (by omega)
    refine ⟨fun b hb => hb, fun b hb => absurd hb List.not_mem_nil, fun b hb c hc => ?_⟩
    exact (hseen b hb c hc).resolve_right List.not_mem_nil
  | succ fuel ih =>
    cases stack with
    | nil =>
      refine ⟨fun b hb => hb, fun b hb => absurd hb List.not_mem_nil, fun b hb c hc => ?_⟩
      exact (hseen b hb c hc).resolve_right List.not_mem_nil
    | cons a stack =>
      rw [List.length_cons] at hfuel
      by_cases ha : a ∈ seen
      · rw [reachFrom, if_pos ha]
        have hleft : stack.length + g.pending seen ≤ fuel := by omega
        obtain ⟨hkept, hstack, hclosed⟩ := ih hleft fun b hb c hc => by
          rcases hseen b hb c hc with h | h
          · exact .inl h
          · rcases List.mem_cons.1 h with rfl | h
            · exact .inl ha
            · exact .inr h
        refine ⟨hkept, fun b hb => ?_, hclosed⟩
        rcases List.mem_cons.1 hb with rfl | hb
        · exact hkept _ ha
        · exact hstack b hb
      · rw [reachFrom, if_neg ha]
        have hmark := pending_mark (g := g) ha
        have hleft : (g.succBlocks a ++ stack).length + g.pending (a :: seen) ≤ fuel := by
          rw [List.length_append]
          omega
        obtain ⟨hkept, hstack, hclosed⟩ := ih hleft fun b hb c hc => by
          rcases List.mem_cons.1 hb with rfl | hb
          · exact .inr (List.mem_append_left _ hc)
          · rcases hseen b hb c hc with h | h
            · exact .inl (List.mem_cons_of_mem _ h)
            · rcases List.mem_cons.1 h with rfl | h
              · exact .inl (List.mem_cons_self ..)
              · exact .inr (List.mem_append_right _ h)
        refine ⟨fun b hb => hkept b (List.mem_cons_of_mem _ hb), fun b hb => ?_, hclosed⟩
        rcases List.mem_cons.1 hb with rfl | hb
        · exact hkept _ (List.mem_cons_self ..)
        · exact hstack b (List.mem_append_right _ hb)

/-- The search finds only blocks of a set that it starts in and that no edge leaves. -/
theorem reachFrom_subset {P : BlockId → Prop} (hP : ∀ b, P b → ∀ c ∈ g.succBlocks b, P c)
    {fuel : Nat} {stack seen : List BlockId} (hstack : ∀ b ∈ stack, P b)
    (hseen : ∀ b ∈ seen, P b) : ∀ b ∈ g.reachFrom fuel stack seen, P b := by
  induction fuel generalizing stack seen with
  | zero => exact hseen
  | succ fuel ih =>
    cases stack with
    | nil => exact hseen
    | cons a stack =>
      obtain ⟨ha, hrest⟩ := List.forall_mem_cons.1 hstack
      rw [reachFrom]
      split_ifs
      · exact ih hrest hseen
      · refine ih (fun b hb => ?_) (List.forall_mem_cons.2 ⟨ha, hseen⟩)
        rcases List.mem_append.1 hb with hb | hb
        · exact hP a ha b hb
        · exact hrest b hb

/-- **`reachable` finds what control may reach**, and nothing else. -/
theorem mem_reachable_iff : c ∈ g.reachable b ↔ g.Connects b c := by
  constructor
  · intro hc
    refine reachFrom_subset (P := g.Connects b) (fun a ha c hc => ha.tail hc) ?_ ?_ c hc
    · intro a ha
      obtain rfl := List.mem_singleton.1 ha
      exact .refl
    · intro a ha
      cases ha
  · intro hway
    have hfuel : [b].length + g.pending [] ≤ g.wireCount + 1 := by
      have := g.pending_nil_eq
      rw [List.length_singleton]
      omega
    obtain ⟨-, hstart, hclosed⟩ := reachFrom_closed hfuel fun a ha => absurd ha List.not_mem_nil
    induction hway with
    | refl => exact hstart b (List.mem_singleton_self b)
    | tail _ hc ih => exact hclosed _ ih _ hc

end DivisorCheck.FlowGraph
