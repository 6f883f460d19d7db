/-
  The pass that leaves the tags.

  Once the stores are settled, every block is evaluated once more on the store
  before it.  Each block works on the tokens of its own expressions only, so if
  these belong to no other block, what the pass leaves on them is what the turn of
  the block has left there (`FlowGraph.exists_turn`).
-/
import DivisorCheck.Proofs.Expr.Blocks

namespace DivisorCheck.FlowGraph

open EvalContext (Fresh)

variable {p : Program} {g : FlowGraph} {b : BlockId}

/-- The last pass over some blocks, from a state on. -/
def annotateBlocks (p : Program) (g : FlowGraph) (settings : Settings) (progress : Progress)
    (order : List BlockId) (st : EvalState) : EvalState :=
  order.foldl (fun st b =>
    (g.evalContext p settings).evalBlock (g.block b).tokens
      (st.on (progress.storeBefore b))) st

theorem annotateAll_eq (order : List BlockId) (progress : Progress) :
    g.annotateAll p settings order progress =
      g.annotateBlocks p settings progress order {} := rfl

/-- The pass works on the tokens of the blocks that it goes over. -/
theorem marks_annotateBlocks (settings : Settings) (progress : Progress) (order : List BlockId)
    (st : EvalState) :
    Marks (order.flatMap (g.treeTokens p)) st
      (g.annotateBlocks p settings progress order st) := by
  induction order generalizing st with
  | nil => exact .refl _ st
  | cons b order ih =>
    have hstore : Marks (g.treeTokens p b) st (st.on (progress.storeBefore b)) :=
      (Marks.refl _ st).on st.store _
    have hblock : Marks (g.treeTokens p b) (st.on (progress.storeBefore b))
        ((g.evalContext p settings).evalBlock (g.block b).tokens
          (st.on (progress.storeBefore b))) :=
      (EvalContext.frame_evalRoots (g.evalContext p settings) _ _).toMarks
    rw [List.flatMap_cons]
    refine Marks.trans ((hstore.trans hblock).mono fun u hu => List.mem_append_left _ hu) ?_
    exact (ih _).mono fun u hu => List.mem_append_right _ hu

/-- Turns of blocks that share no token with a block leave no tag on its tokens. -/
theorem fresh_annotateBlocks (settings : Settings) (progress : Progress) {done : List BlockId}
    (hapart : ∀ c ∈ done, ∀ u ∈ g.treeTokens p b, u ∉ g.treeTokens p c) :
    Fresh (g.treeTokens p b) (g.annotateBlocks p settings progress done {}) := by
  refine Fresh.of_marks (fun _ _ => rfl) (marks_annotateBlocks settings progress done {}) ?_
  intro u hu hmem
  obtain ⟨c, hc, huc⟩ := List.mem_flatMap.1 hmem
  exact hapart c hc u hu huc

theorem annotateAll_append (settings : Settings) (progress : Progress) (done rest : List BlockId) :
    g.annotateAll p settings (done ++ b :: rest) progress =
      g.annotateBlocks p settings progress rest
        ((g.evalContext p settings).evalBlock (g.block b).tokens
          ((g.annotateBlocks p settings progress done {}).on (progress.storeBefore b))) := by
  rw [annotateAll_eq]
  unfold annotateBlocks
  rw [List.foldl_append, List.foldl_cons]

/-- The turn of a block that shares no token with the others of the pass: its tokens have no tag
before it, and they keep the tags that it gives them. -/
theorem exists_turn (settings : Settings) (progress : Progress) {order : List BlockId}
    (hnodup : order.Nodup) (hb : b ∈ order)
    (hapart : ∀ c ∈ order, c ≠ b → ∀ u ∈ g.treeTokens p b, u ∉ g.treeTokens p c) :
    ∃ (st : EvalState) (later : List TokenId), st.store = progress.storeBefore b ∧
      Fresh (g.treeTokens p b) st ∧
      Marks later ((g.evalContext p settings).evalBlock (g.block b).tokens st)
        (g.annotateAll p settings order progress) ∧
      ∀ u ∈ g.treeTokens p b, u ∉ later := by
  obtain ⟨first, rest, rfl⟩ := List.append_of_mem hb
  obtain ⟨-, hrestnodup, hfirst⟩ := List.nodup_append.1 hnodup
  have hbefore : ∀ c ∈ first, ∀ u ∈ g.treeTokens p b, u ∉ g.treeTokens p c := fun c hc =>
    hapart c (List.mem_append_left _ hc) (hfirst c hc b (List.mem_cons_self ..))
  refine ⟨(g.annotateBlocks p settings progress first {}).on (progress.storeBefore b),
    rest.flatMap (g.treeTokens p), rfl, fresh_annotateBlocks settings progress hbefore, ?_, ?_⟩
  · rw [annotateAll_append]
    exact marks_annotateBlocks settings progress rest _
  · intro u hu hmem
    obtain ⟨c, hc, huc⟩ := List.mem_flatMap.1 hmem
    refine hapart c (List.mem_append_right _ (List.mem_cons_of_mem _ hc)) ?_ u hu huc
    rintro rfl
    exact (List.nodup_cons.1 hrestnodup).1 hc

end DivisorCheck.FlowGraph
