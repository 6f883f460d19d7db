/-
  Bodies without loops.

  The iteration takes the blocks in reverse postorder.  Without loops that is a
  topological order of what control may get to, so a turn puts nothing into the
  queue: whatever the block leads to is still waiting for its first turn.  A dead
  block may come later than the blocks it leads to, but its turn leaves the store
  after it as unreachable as it was.

  `OnePass` is what a turn preserves.  What comes into a block no longer changes
  once the block has had its turn (`incoming_step`), and before its turn nothing was
  known there, so that the store before it is just what comes in.  With loops it is
  only above that, because narrowing is not monotone.
-/
import DivisorCheck.Proofs.Analysis.Convergence
import DivisorCheck.Proofs.Flow.Postorder

namespace DivisorCheck

namespace FlowProblem

variable {fp : FlowProblem} {s : Progress} {b c : BlockId}

/-! ### A turn that queues nothing -/

theorem enqueue_of_subset {queue bs : List BlockId} (h : ∀ c ∈ bs, c ∈ queue) :
    enqueue queue bs = queue := by
  obtain ⟨new, heq, -, hnew⟩ := exists_enqueue_eq queue bs
  have hnone : new = [] :=
    List.eq_nil_iff_forall_not_mem.2 fun c hc => (hnew c hc).2 (h c (hnew c hc).1)
  rw [heq, hnone, List.append_nil]

/-- The turn of the block makes nothing else wait: either all that the block leads to waits already,
or the store after the block is what it was. -/
def Spares (fp : FlowProblem) (b : BlockId) (s : Progress) : Prop :=
  (∀ c ∈ fp.graph.succBlocks b, c ∈ s.queue) ∨ (fp.step b s).storeAfter b = s.storeAfter b

theorem Spares.queue_step (h : fp.Spares b s) : (fp.step b s).queue = s.queue := by
  by_cases hidle : fp.Idle s b
  · rw [step_of_idle hidle]
  · rw [(step_of_not_idle hidle).2.2.1]
    split_ifs with hsame
    · rfl
    · refine enqueue_of_subset (h.resolve_right fun hafter => hsame ?_)
      rwa [storeAfter_step, if_pos ⟨rfl, hidle⟩] at hafter

/-- What comes into a block that does not wait is not changed by such a turn. -/
theorem Spares.incoming_step (hg : fp.graph.Wired) (h : fp.Spares b s) (hc : c ∈ fp.graph.nodes)
    (hwait : c ∉ s.queue) : fp.incoming (fp.step b s) c = fp.incoming s c := by
  apply List.foldl_ext
  intro acc e he
  have hsame : (fp.step b s).storeAfter e.src = s.storeAfter e.src := by
    by_cases hsrc : b = e.src
    · subst hsrc
      exact h.resolve_left fun hall => hwait (hall c (hg.mem_succBlocks_src hc he))
    · rw [storeAfter_step, if_neg fun hn => hsrc hn.1]
  rw [hsame]

/-! ### One pass -/

/-- Each of the listed blocks has had one turn, and before it is just what comes in, save before the
entry.  No other block has had any. -/
structure OnePass (fp : FlowProblem) (done : List BlockId) (s : Progress) : Prop where
  iterations : s.iterations = done.length
  fresh : ∀ b, b ∉ done → s.storeBefore b = .unreachable
  exact : ∀ b ∈ done, b ≠ fp.graph.entry → s.storeBefore b = fp.incoming s b

/-- **A turn that makes nothing else wait** goes on with the pass. -/
theorem OnePass.step (hg : fp.graph.Wired) {done rest : List BlockId}
    (hnodup : (done ++ b :: rest).Nodup) (hnodes : ∀ c ∈ done ++ b :: rest, c ∈ fp.graph.nodes)
    (hspares : fp.Spares b { s with queue := rest }) (h : fp.OnePass done s) :
    fp.OnePass (done ++ [b]) (fp.step b { s with queue := rest }) := by
  have hown : b ∉ done := fun hb =>
    (List.nodup_cons.1 (List.nodup_middle.1 hnodup)).1 (List.mem_append_left _ hb)
  rw [List.append_cons] at hnodup hnodes
  have hapart := (List.nodup_append.1 hnodup).2.2
  have hmerged : fp.merged { s with queue := rest } b = fp.merged s b := rfl
  constructor
  · rw [iterations_step, List.length_append, List.length_singleton]
    exact congrArg (· + 1) h.iterations
  · intro c hc
    rw [List.mem_append, List.mem_singleton, not_or] at hc
    rw [storeBefore_step, if_neg fun hbc => hc.2 hbc.symm]
    exact h.fresh c hc.1
  · intro c hc hentry
    -- Whatever leads to the block has had its turn, or is dead: nothing more comes in.
    have hincoming : fp.incoming (fp.step b { s with queue := rest }) c = fp.incoming s c :=
      hspares.incoming_step hg (hnodes c (List.mem_append_left _ hc))
        fun hrest => hapart c hc c hrest rfl
    rw [hincoming, storeBefore_step, hmerged]
    split_ifs with hbc
    · subst hbc
      rw [merged, if_neg hentry, h.fresh b hown, Store.join_unreachable]
    · refine h.exact c ?_ hentry
      exact (List.mem_append.1 hc).resolve_right fun hcb => hbc (List.mem_singleton.1 hcb).symm

section Run

variable {order : List BlockId} {D : BlockId → Prop}

/-- A run is one pass through the order, if the order is topological but for dead blocks. -/
theorem onePass_of_takesFirst (hg : fp.graph.Wired) (hnodup : order.Nodup)
    (hnodes : ∀ b ∈ order, b ∈ fp.graph.nodes)
    (hdead : ∀ s, Relation.ReflTransGen fp.TakesFirst (.start order) s → Dead s D)
    (hforward : ∀ b ∈ order, ¬ D b → ∀ c ∈ fp.graph.succBlocks b, FlowGraph.Precedes order b c)
    (h : Relation.ReflTransGen fp.TakesFirst (.start order) s) :
    ∃ done, order = done ++ s.queue ∧ fp.OnePass done s := by
  induction h with
  | refl => exact ⟨[], rfl, rfl, fun _ _ => rfl, fun b hb => absurd hb List.not_mem_nil⟩
  | @tail s s' hsteps hstep ih =>
    obtain ⟨done, horder, hpass⟩ := ih
    have hdead' : Dead s' D := hdead s' (hsteps.tail hstep)
    obtain ⟨b, rest, hq, rfl⟩ := hstep
    rw [hq] at horder
    -- A dead block leaves the store after it as it was, and a live one leads to what still waits.
    have hspares : fp.Spares b { s with queue := rest } := by
      by_cases hb : D b
      · exact .inr ((hdead' b hb).2.trans (hdead s hsteps b hb).2.symm)
      · refine .inl fun c hc => ?_
        have hlater : FlowGraph.Precedes (done ++ b :: rest) b c :=
          horder ▸ hforward b (by rw [horder]; simp) hb c hc
        exact hlater.mem_rest (horder ▸ hnodup)
    refine ⟨done ++ [b], ?_, hpass.step hg (horder ▸ hnodup) (horder ▸ hnodes) hspares⟩
    rw [hspares.queue_step, ← List.append_cons]
    exact horder

/-- As many turns as there are blocks are enough, and the pass is complete. -/
theorem exists_run_onePass (hg : fp.graph.Wired) (hnodup : order.Nodup)
    (hnodes : ∀ b ∈ order, b ∈ fp.graph.nodes)
    (hdead : ∀ s, Relation.ReflTransGen fp.TakesFirst (.start order) s → Dead s D)
    (hforward : ∀ b ∈ order, ¬ D b → ∀ c ∈ fp.graph.succBlocks b, FlowGraph.Precedes order b c) :
    ∃ s, fp.OnePass order s ∧ ∀ budget, order.length ≤ budget →
      fp.run (fun _ => false) budget (.start order) = .ok s := by
  have hpass := fun s => onePass_of_takesFirst (s := s) hg hnodup hnodes hdead hforward
  have hbound : ∀ s, Relation.ReflTransGen fp.TakesFirst (.start order) s →
      s.iterations ≤ order.length := by
    intro s hs
    obtain ⟨done, horder, h⟩ := hpass s hs
    rw [h.iterations, horder, List.length_append]
    exact Nat.le_add_right _ _
  obtain ⟨s, hsteps, hrun⟩ := exists_run hbound
  obtain ⟨done, horder, h⟩ := hpass s hsteps
  have hzero : (Progress.start order).iterations = 0 := rfl
  have hempty : s.queue = [] := by
    have hend := hrun s.iterations
    rw [if_pos (Nat.le_add_left _ _)] at hend
    exact (takesFirst_of_run hend).2
  rw [hempty, List.append_nil] at horder
  refine ⟨s, horder ▸ h, fun budget hbudget => ?_⟩
  rw [hrun, if_pos]
  rwa [hzero, Nat.zero_add, h.iterations, ← horder]

end Run

end FlowProblem

/-! ### The analysis of a function -/

namespace FlowGraph

variable {g : FlowGraph} {settings : Settings}

/-- **A body without loops is solved in one pass, and exactly.**  On a graph without faults in which
control never comes back to a block, without a time limit and with a turn allowed for each block, the
analysis ends well after just one turn of each block.  The stores then solve the equations of the
graph: before the entry is what the function is entered with, after a block is what it makes of the
store before it, and the store before any other block is the join of what comes in along its edges,
and not only above it. -/
theorem analysis_exact_of_loopFree (p : Program) (params : List VariableId) (clock : Clock)
    (hcheck : g.check = .ok ()) (hloop : g.LoopFree) (htime : settings.timeout = none)
    (hlimit : (g.nodes.length : Int) ≤ settings.maxIterations) :
    ∃ r, g.analyze p settings params clock = .ok r ∧
      r.progress.iterations = g.nodes.length ∧
      r.progress.storeBefore g.entry = g.entryStore p settings params ∧
      (∀ b ∈ g.nodes,
        r.progress.storeAfter b = g.transfer p settings b (r.progress.storeBefore b)) ∧
      ∀ b ∈ g.nodes, b ≠ g.entry → r.progress.storeBefore b =
        Store.joinAll ((g.predEdges b).map fun e => g.along p e (r.progress.storeAfter e.src)) := by
  have hg : g.Wired := wired_of_check hcheck
  have hlength : g.reversePostorder.length = g.nodes.length := (reversePostorder_perm hg).length_eq
  have hnodes : ∀ b ∈ g.reversePostorder, b ∈ g.nodes :=
    fun b hb => mem_nodes_of_mem_reversePostorder hg hb
  have hdead : ∀ s, Relation.ReflTransGen (g.problem p settings params).TakesFirst
      (.start g.reversePostorder) s →
      FlowProblem.Dead s fun b => b ∈ g.nodes ∧ ¬ g.Connects g.entry b :=
    fun s hs => dead_of_not_connects hcheck hs
  obtain ⟨s, hpass, hrun⟩ := FlowProblem.exists_run_onePass hg (reversePostorder_nodup hg.nodup)
    hnodes hdead fun b hb hlive c hc => by
      have hway : g.Connects g.entry b := not_not.1 fun hno => hlive ⟨hnodes b hb, hno⟩
      exact hloop.precedes hway hc
  have hok : g.analyze p settings params clock = .ok (resultAt p g settings s) := by
    have hanalyze : g.analyze p
        { settings with maxIterations := settings.maxIterations, timeout := none } params clock =
        _ := analyze_untimed hcheck settings.maxIterations clock
    rwa [← htime, hrun _ (by omega)] at hanalyze
  have hsettled := settled_of_analyze hok
  refine ⟨_, hok, hpass.iterations.trans hlength, hsettled.entry, hsettled.block,
    fun b hb hentry => ?_⟩
  rw [Store.joinAll, List.foldl_map]
  exact hpass.exact b (mem_reversePostorder hb) hentry

end FlowGraph

/-! ### A guard behind which a body ends -/

/-- `if (x != 0) { return x; x = 0; } y = x;` -/
def guardedReturn : Program where
  tokens := #[
    { text := "!=", left := some 1, right := some 2 },
    { text := "x", varId := 1, var := some 0, parent := some 0 },
    { text := "0", isNumber := true, parent := some 0 },
    { text := "return", left := some 4 },
    { text := "x", varId := 1, var := some 0, parent := some 3 },
    { text := "=", left := some 6, right := some 7 },
    { text := "x", varId := 1, var := some 0, parent := some 5 },
    { text := "0", isNumber := true, parent := some 5 },
    { text := "=", left := some 9, right := some 10 },
    { text := "y", parent := some 8 },
    { text := "x", varId := 1, var := some 0, parent := some 8 }]
  vars := #[{ id := 1, isLocal := true }]

/-- Its graph: entry, exit, condition, the guarded `return`, the dead assignment behind it, and the
assignment that both branches might lead to. -/
def guardedReturnGraph : FlowGraph where
  blocks := #[
    { id := 0, kind := .entry, succs := [0] },
    { id := 1, kind := .exit, preds := [2, 5] },
    { id := 2, kind := .ifCondition, tokens := [1, 0, 2], succs := [1, 3], preds := [0] },
    { id := 3, kind := .returning, tokens := [3, 4], succs := [2], preds := [1] },
    { id := 4, kind := .unreachable, tokens := [6, 5, 7], succs := [4] },
    { id := 5, kind := .ifMerge, tokens := [9, 8, 10], succs := [5], preds := [3, 4] }]
  edges := #[
    { src := 0, dst := 2 },
    { src := 2, dst := 3, kind := .branchTrue },
    { src := 3, dst := 1, kind := .returnOut },
    { src := 2, dst := 5, kind := .branchFalse },
    { src := 4, dst := 5 },
    { src := 5, dst := 1 }]
  nodes := [0, 1, 2, 3, 4, 5]
  listed := [0, 1, 2, 3, 4, 5]

theorem loopFree_guardedReturn : guardedReturnGraph.LoopFree := by
  -- The exit comes last.
  apply FlowGraph.loopFree_of_rank fun b => if b = 1 then 6 else b
  have hrises : ∀ b, ∀ c ∈ guardedReturnGraph.succBlocks b,
      (if b = 1 then 6 else b) < if c = 1 then 6 else c := FlowGraph.forall_succBlocks (by decide)
  exact fun b _ => hrises b

/-- Behind the guard `x` is just what the condition makes of it, and the dead assignment adds to
what the other branch leads to only the store behind it. -/
theorem analysis_exact_guardedReturn :
    guardedReturnGraph.check = .ok () ∧ guardedReturnGraph.LoopFree ∧
    ∃ r, guardedReturnGraph.analyze guardedReturn
        { maxIterations := 6, timeout := none } [] = .ok r ∧
      r.progress.iterations = 6 ∧ r.progress.storeBefore 0 = .top ∧
      r.progress.storeBefore 3 = (r.progress.storeAfter 2).narrow 1 .nonZero ∧
      r.progress.storeBefore 5 =
        ((r.progress.storeAfter 2).narrow 1 .zero).join (r.progress.storeAfter 4) := by
  have hcheck : guardedReturnGraph.check = .ok () := by decide +kernel
  let settings : Settings := { maxIterations := 6, timeout := none }
  have htime : settings.timeout = none := rfl
  obtain ⟨r, hr, hturns, hentry, -, hexact⟩ := FlowGraph.analysis_exact_of_loopFree guardedReturn [] .still
    hcheck loopFree_guardedReturn htime (by decide)
  refine ⟨hcheck, loopFree_guardedReturn, r, hr, hturns, hentry, ?_, ?_⟩
  · rw [hexact 3 (by decide) (by decide)]
    rfl
  · rw [hexact 5 (by decide) (by decide)]
    rfl

end DivisorCheck
