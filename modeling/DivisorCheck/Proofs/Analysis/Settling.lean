/-
  What the worklist iteration settles on.

  `along` need not be monotone, and blocks may be taken from the queue in any
  order; what carries the proof is a single invariant, `Settling`: a block that is
  not waiting agrees with the blocks before it.  A step keeps it whichever block
  it takes (`Settling.step`), because every block that a changed store may
  disagree with is queued again, the block itself included.  When nothing waits,
  the invariant says that all blocks agree (`Settling.settled`).

  `Takes` leaves the choice of the block open, so that what is proved for it holds
  for every discipline of the queue; `run` always takes the first
  (`takesFirst_of_run`).
-/
import DivisorCheck.Analysis
import DivisorCheck.Proofs.Flow.Order
import DivisorCheck.Proofs.Store.Order
import Mathlib.Logic.Relation

namespace DivisorCheck

namespace FlowProblem

variable {fp : FlowProblem}

/-! ### Taking blocks from the queue -/

/-- One step of the iteration on any block of the queue, the others being left in any order. -/
def Takes (fp : FlowProblem) (s s' : Progress) : Prop :=
  ∃ b rest, s.queue.Perm (b :: rest) ∧ s' = fp.step b { s with queue := rest }

/-- One step of the iteration on the first block of the queue. -/
def TakesFirst (fp : FlowProblem) (s s' : Progress) : Prop :=
  ∃ b rest, s.queue = b :: rest ∧ s' = fp.step b { s with queue := rest }

theorem TakesFirst.takes {s s' : Progress} (h : fp.TakesFirst s s') : fp.Takes s s' := by
  obtain ⟨b, rest, hq, rfl⟩ := h
  exact ⟨b, rest, by rw [hq], rfl⟩

/-- A run that ends well is a chain of steps down to an empty queue. -/
theorem takesFirst_of_run {isLate : Nat → Bool} {budget : Nat} {s s' : Progress}
    (h : fp.run isLate budget s = .ok s') :
    Relation.ReflTransGen fp.TakesFirst s s' ∧ s'.queue = [] := by
  induction budget generalizing s with
  | zero =>
    unfold run at h
    split at h
    · cases h
      exact ⟨.refl, by assumption⟩
    · simp at h
  | succ budget ih =>
    unfold run at h
    split at h
    · cases h
      exact ⟨.refl, by assumption⟩
    · rename_i b rest hq
      simp only at h
      split at h
      · simp at h
      · obtain ⟨hsteps, hend⟩ := ih h
        exact ⟨.head ⟨b, rest, hq, rfl⟩ hsteps, hend⟩

/-! ### What a step does to the tables -/

variable {s : Progress} {b c : BlockId}

theorem mem_enqueue {queue bs : List BlockId} :
    c ∈ enqueue queue bs ↔ c ∈ queue ∨ c ∈ bs := by
  unfold enqueue
  induction bs generalizing queue with
  | nil => simp
  | cons a bs ih =>
    rw [List.foldl_cons, ih]
    by_cases ha : a ∈ queue
    · rw [if_pos ha, List.mem_cons]
      constructor
      · rintro (h | h)
        · exact .inl h
        · exact .inr (.inr h)
      · rintro (h | rfl | h)
        · exact .inl h
        · exact .inl ha
        · exact .inr h
    · rw [if_neg ha, List.mem_append, List.mem_singleton, List.mem_cons, or_assoc]

/-- The block has had its turn, and nothing new comes in. -/
def Idle (fp : FlowProblem) (s : Progress) (b : BlockId) : Prop :=
  b ∈ s.visited ∧ fp.merged s b = s.storeBefore b

instance : Decidable (fp.Idle s b) :=
  inferInstanceAs (Decidable (_ ∧ _))

theorem step_of_idle (h : fp.Idle s b) :
    fp.step b s = { s with iterations := s.iterations + 1 } := by
  have hif : b ∈ s.visited ∧
      fp.merged { s with iterations := s.iterations + 1 } b = s.storeBefore b := h
  unfold step
  exact if_pos hif

theorem step_of_not_idle (h : ¬ fp.Idle s b) :
    (fp.step b s).before = s.before.put b (fp.merged s b) ∧
    (fp.step b s).after = (if fp.transfer b (fp.merged s b) = s.storeAfter b then s.after
      else s.after.put b (fp.transfer b (fp.merged s b))) ∧
    (fp.step b s).queue = (if fp.transfer b (fp.merged s b) = s.storeAfter b then s.queue
      else enqueue s.queue (fp.graph.succBlocks b)) ∧
    (fp.step b s).visited = (if b ∈ s.visited then s.visited else b :: s.visited) := by
  have hif : ¬ (b ∈ s.visited ∧
      fp.merged { s with iterations := s.iterations + 1 } b = s.storeBefore b) := h
  have hstep : fp.step b s = _ := if_neg hif
  rw [hstep]
  refine ⟨rfl, ?_, ?_, rfl⟩
  · exact ite_not _ _ _
  · exact ite_not _ _ _

/-- The step leaves the store before another block alone, and joins what comes in to its own. -/
theorem storeBefore_step :
    (fp.step b s).storeBefore c = if b = c then fp.merged s b else s.storeBefore c := by
  by_cases hidle : fp.Idle s b
  · rw [step_of_idle hidle]
    by_cases hbc : b = c
    · subst hbc
      rw [if_pos rfl]
      exact hidle.2.symm
    · rw [if_neg hbc]
      rfl
  · unfold Progress.storeBefore
    rw [(step_of_not_idle hidle).1, StoreTable.get_put]

/-- The step leaves the store after another block alone.  Its own is what the block makes of the
store before it, unless the block had nothing to do. -/
theorem storeAfter_step :
    (fp.step b s).storeAfter c =
      if b = c ∧ ¬ fp.Idle s b then fp.transfer b (fp.merged s b) else s.storeAfter c := by
  by_cases hidle : fp.Idle s b
  · rw [step_of_idle hidle, if_neg (fun h => h.2 hidle)]
    rfl
  · obtain ⟨-, hafter, -, -⟩ := step_of_not_idle hidle
    have hget : (fp.step b s).storeAfter c = (fp.step b s).after.get c := rfl
    rw [hget, hafter]
    by_cases hout : fp.transfer b (fp.merged s b) = s.storeAfter b
    · rw [if_pos hout]
      split_ifs with hbc
      · rw [hout, ← hbc.1]
        rfl
      · rfl
    · rw [if_neg hout, StoreTable.get_put]
      by_cases hbc : b = c
      · rw [if_pos hbc, if_pos ⟨hbc, hidle⟩]
      · rw [if_neg hbc, if_neg (fun h => hbc h.1)]
        rfl

theorem mem_visited_step : c ∈ (fp.step b s).visited ↔ c = b ∨ c ∈ s.visited := by
  have hadd : c ∈ (if b ∈ s.visited then s.visited else b :: s.visited) ↔
      c = b ∨ c ∈ s.visited := by
    split_ifs with hmem
    · exact ⟨.inr, fun h => h.elim (fun hcb => hcb ▸ hmem) id⟩
    · exact List.mem_cons
  by_cases hidle : fp.Idle s b
  · rw [step_of_idle hidle]
    rwa [if_pos hidle.1] at hadd
  · rwa [(step_of_not_idle hidle).2.2.2]

/-- Nothing that waits is forgotten. -/
theorem mem_queue_step (h : c ∈ s.queue) : c ∈ (fp.step b s).queue := by
  by_cases hidle : fp.Idle s b
  · rw [step_of_idle hidle]
    exact h
  · rw [(step_of_not_idle hidle).2.2.1]
    split_ifs
    · exact h
    · exact mem_enqueue.2 (.inl h)

/-- Whoever depends on a store that the step has changed waits. -/
theorem mem_queue_step_of_changed (h : (fp.step b s).storeAfter b ≠ s.storeAfter b)
    (hc : c ∈ fp.graph.succBlocks b) : c ∈ (fp.step b s).queue := by
  rw [storeAfter_step] at h
  split_ifs at h with hidle
  · rw [(step_of_not_idle hidle.2).2.2.1, if_neg h]
    exact mem_enqueue.2 (.inr hc)
  · exact absurd rfl h

/-! ### The invariant -/

/-- Every registered block has had its turn or waits for it, and those that do not wait agree with
the blocks before them. -/
structure Settling (fp : FlowProblem) (s : Progress) : Prop where
  waits : ∀ b ∈ fp.graph.nodes, b ∈ s.visited ∨ b ∈ s.queue
  entry : fp.graph.entry ∈ s.visited → s.storeBefore fp.graph.entry = fp.entryStore
  block : ∀ b ∈ s.visited, s.storeAfter b = fp.transfer b (s.storeBefore b)
  edge : ∀ b ∈ fp.graph.nodes, b ≠ fp.graph.entry → b ∉ s.queue →
    ∀ e ∈ fp.graph.predEdges b, (fp.along e (s.storeAfter e.src)).le (s.storeBefore b) = true

theorem settling_start {order : List BlockId} (h : ∀ b ∈ fp.graph.nodes, b ∈ order) :
    fp.Settling (.start order) where
  waits b hb := .inr (h b hb)
  entry hentry := absurd hentry (List.not_mem_nil)
  block _ hb := absurd hb (List.not_mem_nil)
  edge b hb _ hq := absurd (h b hb) hq

/-- The store before a block, as of now, is above what comes in along each of its edges. -/
theorem along_le_merged (hb : b ≠ fp.graph.entry) {e : Edge} (he : e ∈ fp.graph.predEdges b) :
    (fp.along e (s.storeAfter e.src)).le (fp.merged s b) = true := by
  rw [merged, if_neg hb]
  refine Store.le_trans ?_ (Store.le_join_right _ _)
  exact (Store.le_foldl_join (fun e => fp.along e (s.storeAfter e.src)) _ _).2 e he

/-- **A step keeps the invariant**, whichever block it takes. -/
theorem Settling.step (hg : fp.graph.Wired) {rest : List BlockId} (hq : s.queue.Perm (b :: rest))
    (h : fp.Settling s) : fp.Settling (fp.step b { s with queue := rest }) := by
  have hmerged : fp.merged { s with queue := rest } b = fp.merged s b := rfl
  constructor
  · intro c hc
    rcases h.waits c hc with hv | hw
    · exact .inl (mem_visited_step.2 (.inr hv))
    · rcases List.mem_cons.1 (hq.mem_iff.1 hw) with rfl | hrest
      · exact .inl (mem_visited_step.2 (.inl rfl))
      · exact .inr (mem_queue_step hrest)
  · intro hv
    rw [storeBefore_step, hmerged]
    split_ifs with hb
    · rw [merged, if_pos hb]
    · refine h.entry ?_
      exact (mem_visited_step.1 hv).resolve_left (fun he => hb he.symm)
  · intro c hc
    rw [storeBefore_step, storeAfter_step, hmerged]
    by_cases hbc : b = c
    · subst hbc
      rw [if_pos rfl]
      split_ifs with hrun
      · rfl
      · -- The block had nothing to do, so its stores agreed already.
        have hskip : fp.Idle s b := not_not.1 (fun hn => hrun ⟨rfl, hn⟩)
        rw [hskip.2]
        exact h.block b hskip.1
    · rw [if_neg hbc, if_neg (fun hn => hbc hn.1)]
      exact h.block c ((mem_visited_step.1 hc).resolve_left (fun hcb => hbc hcb.symm))
  · intro c hc hentry hwait e he
    have hdep : c ∈ fp.graph.succBlocks e.src := hg.mem_succBlocks_src hc he
    -- The source has not changed: otherwise the block would wait.
    have hsame : (fp.step b { s with queue := rest }).storeAfter e.src = s.storeAfter e.src := by
      by_cases hbe : b = e.src
      · subst hbe
        by_contra hne
        exact hwait (mem_queue_step_of_changed hne hdep)
      · rw [storeAfter_step, if_neg (fun hn => hbe hn.1)]
        rfl
    rw [hsame, storeBefore_step, hmerged]
    split_ifs with hbc
    · subst hbc
      exact along_le_merged hentry he
    · refine h.edge c hc hentry (fun hw => hwait (mem_queue_step ?_)) e he
      exact (List.mem_cons.1 (hq.mem_iff.1 hw)).resolve_left (fun hcb => hbc hcb.symm)

/-- All that a chain of steps can reach from the start keeps the invariant. -/
theorem settling_of_takes (hg : fp.graph.Wired) {order : List BlockId}
    (horder : ∀ b ∈ fp.graph.nodes, b ∈ order) {s : Progress}
    (h : Relation.ReflTransGen fp.Takes (.start order) s) : fp.Settling s := by
  induction h with
  | refl => exact settling_start horder
  | tail _ hstep ih =>
    obtain ⟨b, rest, hq, rfl⟩ := hstep
    exact ih.step hg hq

/-- The blocks agree with each other along every edge. -/
structure Settled (fp : FlowProblem) (s : Progress) : Prop where
  entry : s.storeBefore fp.graph.entry = fp.entryStore
  block : ∀ b ∈ fp.graph.nodes, s.storeAfter b = fp.transfer b (s.storeBefore b)
  edge : ∀ b ∈ fp.graph.nodes, b ≠ fp.graph.entry → ∀ e ∈ fp.graph.predEdges b,
    (fp.along e (s.storeAfter e.src)).le (s.storeBefore b) = true

theorem Settling.settled (hg : fp.graph.Wired) (h : fp.Settling s) (hq : s.queue = []) :
    fp.Settled s := by
  have hvisited : ∀ b ∈ fp.graph.nodes, b ∈ s.visited := fun b hb =>
    (h.waits b hb).resolve_right (by simp [hq])
  refine ⟨h.entry (hvisited _ hg.entry_mem), fun b hb => h.block b (hvisited b hb), ?_⟩
  exact fun b hb hentry => h.edge b hb hentry (by simp [hq])

end FlowProblem

/-! ### The analysis of a function -/

namespace FlowGraph

variable {p : Program} {g : FlowGraph} {settings : Settings} {params : List VariableId}

/-- What an analysis that ends well consists of: a graph without faults, and a run of the iteration
from its first block to an empty queue. -/
theorem run_of_analyze {clock : Clock} {r : AnalysisResult}
    (h : g.analyze p settings params clock = .ok r) :
    g.check = .ok () ∧
    Relation.ReflTransGen (g.problem p settings params).TakesFirst (.start g.reversePostorder)
      r.progress ∧
    r.progress.queue = [] ∧
    r.annotations = (g.annotateAll p settings g.reversePostorder r.progress).annotations ∧
    r.sites = (g.annotateAll p settings g.reversePostorder r.progress).sites.toList.eraseDups := by
  unfold analyze at h
  split at h
  · simp at h
  · rename_i hcheck
    simp only at h
    split at h
    · simp at h
    · simp at h
    · rename_i progress hrun
      obtain ⟨hsteps, hend⟩ := FlowProblem.takesFirst_of_run hrun
      cases h
      exact ⟨hcheck, hsteps, hend, rfl, rfl⟩

theorem settled_of_analyze {clock : Clock} {r : AnalysisResult}
    (h : g.analyze p settings params clock = .ok r) :
    (g.problem p settings params).Settled r.progress := by
  obtain ⟨hcheck, hsteps, hend, -, -⟩ := run_of_analyze h
  have hg : (g.problem p settings params).graph.Wired := wired_of_check hcheck
  refine (FlowProblem.settling_of_takes hg (fun b hb => mem_reversePostorder hb) ?_).settled hg hend
  exact Relation.ReflTransGen.mono (fun _ _ hstep => hstep.takes) _ _ hsteps

/-- **What the iteration settles on is consistent.**  The store before the entry is the assumed one,
the store after a block is what the block makes of the store before it, and along no edge comes
anything that the store before its block does not cover.  It is so for every analysis that ends
well, and it does not depend on the discipline of the queue: it is so whenever a chain of steps, in
whatever order the blocks were queued first and are taken, has emptied it. -/
theorem analysis_consistent (hcheck : g.check = .ok ()) :
    (∀ (clock : Clock) (r : AnalysisResult), g.analyze p settings params clock = .ok r →
      (g.problem p settings params).Settled r.progress) ∧
    ∀ (order : List BlockId) (s : Progress), (∀ b ∈ g.nodes, b ∈ order) →
      Relation.ReflTransGen (g.problem p settings params).Takes (.start order) s →
      s.queue = [] → (g.problem p settings params).Settled s := by
  have hg : (g.problem p settings params).graph.Wired := wired_of_check hcheck
  refine ⟨fun clock r h => settled_of_analyze h, ?_⟩
  intro order s horder hsteps hend
  exact (FlowProblem.settling_of_takes hg horder hsteps).settled hg hend

end FlowGraph

/-! ### A loop behind its own guard -/

/-- `x = 0; while (x != 0) x = m;`, where nothing is known about `m`. -/
def guardedLoop : Program where
  tokens := #[
    { text := "=", left := some 1, right := some 2 },
    { text := "x", varId := 1, var := some 0, parent := some 0 },
    { text := "0", isNumber := true, parent := some 0 },
    { text := "!=", left := some 4, right := some 5 },
    { text := "x", varId := 1, var := some 0, parent := some 3 },
    { text := "0", isNumber := true, parent := some 3 },
    { text := "=", left := some 7, right := some 8 },
    { text := "x", varId := 1, var := some 0, parent := some 6 },
    { text := "m", parent := some 6 }]
  vars := #[{ id := 1, isLocal := true }]

/-- Its graph: entry, exit, first assignment, condition and body. -/
def guardedLoopGraph : FlowGraph where
  blocks := #[
    { id := 0, kind := .entry, succs := [0] },
    { id := 1, kind := .exit, preds := [4] },
    { id := 2, tokens := [1, 0, 2], succs := [1], preds := [0] },
    { id := 3, kind := .loopCondition, tokens := [4, 3, 5], succs := [2, 4], preds := [1, 3] },
    { id := 4, kind := .loopBody, tokens := [7, 6, 8], succs := [3], preds := [2] }]
  edges := #[
    { src := 0, dst := 2 },
    { src := 2, dst := 3 },
    { src := 3, dst := 4, kind := .branchTrue },
    { src := 4, dst := 3, kind := .backEdge },
    { src := 3, dst := 1, kind := .branchFalse }]
  nodes := [0, 1, 2, 3, 4]
  listed := [0, 1, 2, 3, 4]

/-- The analysis of the loop ends well, with a store before the body that knows nothing. -/
theorem analyze_guardedLoop :
    ∃ r, guardedLoopGraph.analyze guardedLoop {} [] = .ok r ∧
      (r.progress.storeAfter 3).get 1 = .top ∧ (r.progress.storeBefore 4).get 1 = .top := by
  have hrun : (guardedLoopGraph.analyze guardedLoop {} []).toOption.any (fun r =>
      (r.progress.storeAfter 3).get 1 = .top ∧ (r.progress.storeBefore 4).get 1 = .top) = true := by
    decide +kernel
  cases h : guardedLoopGraph.analyze guardedLoop {} [] with
  | error e =>
    rw [h] at hrun
    cases hrun
  | ok r =>
    rw [h] at hrun
    exact ⟨r, rfl, of_decide_eq_true hrun⟩

theorem analysis_consistent_guardedLoop :
    guardedLoopGraph.check = .ok () ∧ ∃ r,
      guardedLoopGraph.analyze guardedLoop {} [] = .ok r ∧
      (guardedLoopGraph.problem guardedLoop {} []).Settled r.progress := by
  have hcheck : guardedLoopGraph.check = .ok () := by decide +kernel
  obtain ⟨r, hr, -⟩ := analyze_guardedLoop
  exact ⟨hcheck, r, hr, (FlowGraph.analysis_consistent hcheck).1 .still r hr⟩

end DivisorCheck
