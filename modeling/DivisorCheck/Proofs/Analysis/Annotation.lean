/-
  The last pass gives back what the iteration has settled on.

  The iteration evaluates a block on an empty table, the last pass on the table that
  the blocks before it have filled.  A write looks into the table, so the two could
  differ.  They do not if no token occurs in the expressions of two blocks: then the
  shared table holds nothing on the tokens of the block, and to evaluation it is as
  good as empty (`EvalContext.agree_evalRoots`).  So the order of the blocks does
  not matter either (`FlowGraph.annotation_reproduces`).
-/
import DivisorCheck.Proofs.Analysis.LastPass
import DivisorCheck.Proofs.Analysis.Settling
import DivisorCheck.Proofs.Expr.Agreement

namespace DivisorCheck

namespace FlowGraph

open EvalContext (Fresh)

variable {p : Program} {g : FlowGraph} {settings : Settings} {params : List VariableId}
  {clock : Clock} {r : AnalysisResult} {b : BlockId}

/-- Evaluates a block on the store before it, with an empty table. -/
def evalAlone (p : Program) (g : FlowGraph) (settings : Settings) (progress : Progress)
    (b : BlockId) : EvalState :=
  (g.evalContext p settings).evalBlock (g.block b).tokens { store := progress.storeBefore b }

/-- Evaluates a block on the store before it, with the table that the turns of others left. -/
def evalAfter (p : Program) (g : FlowGraph) (settings : Settings) (progress : Progress)
    (done : List BlockId) (b : BlockId) : EvalState :=
  (g.evalContext p settings).evalBlock (g.block b).tokens
    ((g.annotateBlocks p settings progress done {}).on (progress.storeBefore b))

theorem marks_evalAfter (progress : Progress) (done : List BlockId) :
    Marks (g.treeTokens p b) (g.annotateBlocks p settings progress done {})
      (g.evalAfter p settings progress done b) := by
  have hstore : Marks (g.treeTokens p b) (g.annotateBlocks p settings progress done {})
      ((g.annotateBlocks p settings progress done {}).on (progress.storeBefore b)) :=
    (Marks.refl _ _).on (g.annotateBlocks p settings progress done {}).store _
  exact hstore.trans (EvalContext.frame_evalRoots (g.evalContext p settings) _ _).toMarks

/-- A table without tags on the tokens of a block does for its evaluation what an empty one does. -/
theorem agree_evalAlone (progress : Progress) {st : EvalState}
    (hstore : st.store = progress.storeBefore b) (hfresh : Fresh (g.treeTokens p b) st) :
    (g.evalAlone p settings progress b).Agree (g.treeTokens p b)
      ((g.evalContext p settings).evalBlock (g.block b).tokens st) := by
  have hstart : EvalState.Agree (g.treeTokens p b) { store := progress.storeBefore b } st :=
    .of_fresh (fun _ _ => rfl) hfresh hstore
  exact EvalContext.agree_evalRoots (fun u hu => hu) hstart

/-- The table that the last pass leaves has on the tokens of a block what evaluating the block alone
leaves there. -/
theorem get?_annotateAll (progress : Progress) {order : List BlockId} (hnodup : order.Nodup)
    (hb : b ∈ order)
    (hapart : ∀ c ∈ order, c ≠ b → ∀ u ∈ g.treeTokens p b, u ∉ g.treeTokens p c)
    {u : TokenId} (hu : u ∈ g.treeTokens p b) :
    (g.annotateAll p settings order progress).annotations.get? u =
      (g.evalAlone p settings progress b).annotations.get? u := by
  obtain ⟨st, later, hstore, hfresh, hlater, hmissed⟩ :=
    exists_turn settings progress hnodup hb hapart
  have hagree : (g.evalAlone p settings progress b).Agree (g.treeTokens p b)
      ((g.evalContext p settings).evalBlock (g.block b).tokens st) :=
    agree_evalAlone progress hstore hfresh
  rw [hlater.annotations u (hmissed u hu), hagree.tags u hu]

/-- The last pass leaves no tag on tokens that belong to none of its blocks. -/
theorem get?_annotateAll_of_not_mem (progress : Progress) {order : List BlockId} {u : TokenId}
    (hu : ∀ b ∈ order, u ∉ g.treeTokens p b) :
    (g.annotateAll p settings order progress).annotations.get? u = none := by
  rw [annotateAll_eq]
  have hmarks := marks_annotateBlocks (p := p) (g := g) settings progress order {}
  refine hmarks.annotations u fun hmem => ?_
  obtain ⟨b, hb, hub⟩ := List.mem_flatMap.1 hmem
  exact hu b hb hub

/-- **The last pass gives back what the iteration has settled on.**  Let no token occur in the
expressions of two blocks, and let the pass go over the blocks in any order.  Then the turn of a
block ends in the store that the iteration has found after it, it leaves on the tokens of the block
the tags that evaluating the block with an empty table does, and on all others what was there.  So
the pass leaves the same table in every order.  The order of the analysis is one of these. -/
theorem annotation_reproduces (h : g.analyze p settings params clock = .ok r)
    (hapart : ∀ b ∈ g.nodes, ∀ c ∈ g.nodes, b ≠ c →
      ∀ u ∈ g.treeTokens p b, u ∉ g.treeTokens p c) :
    g.reversePostorder.Perm g.nodes ∧
    ∀ order : List BlockId, order.Perm g.nodes →
      (∀ done b rest, order = done ++ b :: rest →
        (g.evalAfter p settings r.progress done b).store = r.progress.storeAfter b ∧
        (∀ u ∈ g.treeTokens p b,
          (g.evalAfter p settings r.progress done b).annotations.get? u =
            (g.evalAlone p settings r.progress b).annotations.get? u) ∧
        ∀ u, u ∉ g.treeTokens p b →
          (g.evalAfter p settings r.progress done b).annotations.get? u =
            (g.annotateBlocks p settings r.progress done {}).annotations.get? u) ∧
      ∀ u, (g.annotateAll p settings order r.progress).annotations.get? u =
        r.annotations.get? u := by
  obtain ⟨hcheck, -, -, hannotations, -⟩ := run_of_analyze h
  have hg : g.Wired := wired_of_check hcheck
  have hrun : g.reversePostorder.Perm g.nodes := reversePostorder_perm hg
  refine ⟨hrun, fun order horder => ⟨?_, ?_⟩⟩
  · rintro done b rest rfl
    have hnodup : (done ++ b :: rest).Nodup := horder.nodup_iff.2 hg.nodup
    have hb : b ∈ g.nodes := horder.mem_iff.1 (by simp)
    have hdone : ∀ c ∈ done, ∀ u ∈ g.treeTokens p b, u ∉ g.treeTokens p c := by
      intro c hc
      have hcb : c ≠ b := (List.nodup_append.1 hnodup).2.2 c hc b (List.mem_cons_self ..)
      exact hapart b hb c (horder.mem_iff.1 (List.mem_append_left _ hc)) hcb.symm
    have hagree : (g.evalAlone p settings r.progress b).Agree (g.treeTokens p b)
        (g.evalAfter p settings r.progress done b) :=
      agree_evalAlone r.progress rfl (fresh_annotateBlocks settings r.progress hdone)
    have hafter : r.progress.storeAfter b = (g.evalAlone p settings r.progress b).store :=
      ((settled_of_analyze h).block b hb).trans (transfer_eq b _)
    exact ⟨hagree.store.trans hafter.symm, hagree.tags,
      (marks_evalAfter r.progress done).annotations⟩
  -- In either order a token has the tag that its block alone gives it.
  · intro u
    rw [hannotations]
    have hof : ∀ {order : List BlockId}, order.Perm g.nodes → ∀ b ∈ g.nodes,
        u ∈ g.treeTokens p b →
        (g.annotateAll p settings order r.progress).annotations.get? u =
          (g.evalAlone p settings r.progress b).annotations.get? u :=
      fun horder b hb hu => get?_annotateAll r.progress (horder.nodup_iff.2 hg.nodup)
        (horder.mem_iff.2 hb)
        (fun c hc hcb => hapart b hb c (horder.mem_iff.1 hc) hcb.symm) hu
    by_cases hmem : ∃ b ∈ g.nodes, u ∈ g.treeTokens p b
    · obtain ⟨b, hb, hu⟩ := hmem
      exact (hof horder b hb hu).trans (hof hrun b hb hu).symm
    · have hnone : ∀ {order : List BlockId}, order.Perm g.nodes →
          (g.annotateAll p settings order r.progress).annotations.get? u = none :=
        fun horder => get?_annotateAll_of_not_mem r.progress fun b hb hu =>
          hmem ⟨b, horder.mem_iff.1 hb, hu⟩
      exact (hnone horder).trans (hnone hrun).symm

end FlowGraph

/-! ### Writes to elements, with steps in their subscripts -/

/-- `i = 0; a[i++] = 7;` and `a[i--] = i;` -/
def steppedWrites : Program where
  tokens := #[
    { text := "=", left := some 1, right := some 2 },
    { text := "i", varId := 1, var := some 0, parent := some 0 },
    { text := "0", isNumber := true, parent := some 0 },
    { text := "=", left := some 4, right := some 8 },
    { text := "[", left := some 5, right := some 6, parent := some 3 },
    { text := "a", parent := some 4 },
    { text := "++", left := some 7, parent := some 4, previous := some 7 },
    { text := "i", varId := 1, var := some 0, parent := some 6 },
    { text := "7", isNumber := true, parent := some 3 },
    { text := "=", left := some 10, right := some 14 },
    { text := "[", left := some 11, right := some 12, parent := some 9 },
    { text := "a", parent := some 10 },
    { text := "--", left := some 13, parent := some 10, previous := some 13 },
    { text := "i", varId := 1, var := some 0, parent := some 12 },
    { text := "i", varId := 1, var := some 0, parent := some 9 }]
  vars := #[{ id := 1, isLocal := true }]

/-- Its graph: entry, exit, the first two statements and the third. -/
def steppedWritesGraph : FlowGraph where
  blocks := #[
    { id := 0, kind := .entry, succs := [0] },
    { id := 1, kind := .exit, preds := [2] },
    { id := 2, tokens := [0, 1, 2, 3, 4, 5, 6, 7, 8], succs := [1], preds := [0] },
    { id := 3, tokens := [9, 10, 11, 12, 13, 14], succs := [2], preds := [1] }]
  edges := #[{ src := 0, dst := 2 }, { src := 2, dst := 3 }, { src := 3, dst := 1 }]
  nodes := [0, 1, 2, 3]
  listed := [0, 1, 2]

/-- The first block ends with `i` stepped up once; its subscript is tagged with the old value. -/
theorem analyze_steppedWrites : ∃ r, steppedWritesGraph.analyze steppedWrites {} [] = .ok r ∧
    (r.progress.storeAfter 2).get 1 = .nonZero ∧ r.annotations.get? 6 = some .zero := by
  have hrun : (steppedWritesGraph.analyze steppedWrites {} []).toOption.any (fun r =>
      (r.progress.storeAfter 2).get 1 = .nonZero ∧ r.annotations.get? 6 = some .zero) = true := by
    decide +kernel
  cases h : steppedWritesGraph.analyze steppedWrites {} [] with
  | error e =>
    rw [h] at hrun
    cases hrun
  | ok r =>
    rw [h] at hrun
    exact ⟨r, rfl, of_decide_eq_true hrun⟩

/-- The blocks taken backwards. -/
theorem annotation_reproduces_steppedWrites : ∃ r,
    steppedWritesGraph.analyze steppedWrites {} [] = .ok r ∧
    (steppedWritesGraph.evalAfter steppedWrites {} r.progress [3] 2).store.get 1 = .nonZero ∧
    (steppedWritesGraph.annotateAll steppedWrites {} [3, 2, 1, 0] r.progress).annotations.get? 6 =
      some .zero := by
  obtain ⟨r, hr, hstore, htag⟩ := analyze_steppedWrites
  obtain ⟨-, hpass⟩ := FlowGraph.annotation_reproduces hr (by decide)
  obtain ⟨hturn, htable⟩ := hpass [3, 2, 1, 0] (by decide)
  refine ⟨r, hr, ?_, ?_⟩
  · rw [(hturn [3] 2 [1, 0] rfl).1]
    exact hstore
  · rw [htable 6]
    exact htag

end DivisorCheck
