/-
  How long the iteration takes.

  Stores after blocks may move up and down, because narrowing is not monotone; what
  carries the bound are the stores before blocks.  They only climb, and since no
  fact is ever `bottom`, each climb costs a fact: a store that speaks of `n`
  variables changes `n + 1` times at most (`Store.rank`).  A turn of a block puts
  other blocks into the queue only if it changes the store before it, and then at
  most one for each edge that leaves it.  `Paid` is the account: every turn taken
  and every turn that waits is paid for by the first turns of the blocks, or by the
  rank of a store before a block, once for each of its edges.

  So the turns are bounded (`Paid.iterations_le`), and since the run does not look
  at its budget, any budget that is not exhausted gives the same result
  (`exists_run`).  `FlowGraph.analysis_converges` says so of functions.
-/
import DivisorCheck.Proofs.Analysis.Dead
import DivisorCheck.Proofs.Analysis.Guard
import DivisorCheck.Proofs.Expr.Splitting
import DivisorCheck.Proofs.Expr.Writes
import DivisorCheck.Proofs.Store.Rank
import Mathlib.Algebra.BigOperators.Ring.Finset
import Mathlib.Algebra.Order.BigOperators.Group.Finset

namespace DivisorCheck

/-! ### Variables that are not named -/

namespace EvalContext

variable {cx : EvalContext} {e : Expr} {v : VarId}

/-- What is known of the variable is at most weakened. -/
def Weakens (v : VarId) (s s' : Store) : Prop := (s.get v).le (s'.get v) = true

theorem composes_weakens (cx : EvalContext) (v : VarId) : cx.Composes (Weakens v) where
  refl _ := Tag.le_refl _
  trans := Tag.le_trans
  arms cond s s₁ s₂ h₁ h₂ := by
    rw [Weakens, Store.get_join]
    exact Tag.le_trans (Expr.le_join_narrowBy cond s v) (Tag.join_mono h₁ h₂)
  second first holds s s₁ _ := by
    rw [Weakens, Store.get_join]
    exact Tag.le_join_left _ _

theorem writesKeep_weakens (h : e.Silent cx.program v) : cx.WritesKeep (Weakens v) e := by
  induction e with
  | absent => trivial
  | node t l r ihl ihr =>
    refine ⟨fun _ _ tag s => ?_, fun _ _ s => ?_, ihl h.left, ihr h.right⟩
    · unfold written
      split
      · rename_i w hw
        have hne : w ≠ v := fun hwv => h.left.trackedVar?_ne (hwv ▸ hw)
        exact Store.le_set_of_ne s hne tag
      · -- No tracked variable is written, and what escapes may be forgotten.
        split
        · exact Tag.le_refl _
        · exact Store.le_havoc s _ v
    · exact Tag.le_trans (Store.le_havoc s _ v) (Store.le_havoc _ _ v)

theorem weakens_evalRoots (cx : EvalContext) (roots : List TokenId) (st : EvalState)
    (h : ∀ u ∈ cx.program.treeTokens roots, cx.program.trackedVar? u ≠ some v) :
    Weakens v st.store (roots.foldl cx.evalRoot st).store := by
  induction roots generalizing st with
  | nil => exact Tag.le_refl _
  | cons root roots ih =>
    rw [Program.treeTokens, List.flatMap_cons] at h
    refine Tag.le_trans ?_ (ih _ fun u hu => h u (List.mem_append_right _ hu))
    by_cases hreach : st.store.isUnreachable = true
    · unfold evalRoot
      rw [if_pos hreach, annotateUnreachable_store]
      exact Tag.le_refl _
    by_cases hbare : cx.program.isBareDeclaration root = true
    · rw [evalRoot_bare hbare hreach]
      exact le_undeclared st.store v
    · have heval := related_eval (composes_weakens cx v)
        (writesKeep_weakens fun u hu => h u (List.mem_append_left _ hu)) .operator st
      unfold evalRoot
      simp only
      rwa [if_neg hreach, if_neg hbare]

end EvalContext

/-! ### The account -/

namespace FlowProblem

variable {fp : FlowProblem} {vs : Finset VarId} {s s' : Progress} {b : BlockId}

/-- Blocks and edges know of the listed variables only. -/
structure Limited (fp : FlowProblem) (vs : Finset VarId) : Prop where
  wired : fp.graph.Wired
  entry : fp.entryStore.Within vs
  transfer : ∀ b ∈ fp.graph.nodes, ∀ {s : Store}, s.Within vs → (fp.transfer b s).Within vs
  dead : ∀ b, fp.transfer b .unreachable = .unreachable
  along : ∀ b ∈ fp.graph.nodes, ∀ e ∈ fp.graph.predEdges b, ∀ {s : Store}, s.Within vs →
    (fp.along e s).Within vs

/-- How many edges leave a block. -/
def fan (fp : FlowProblem) (b : BlockId) : Nat := (fp.graph.block b).succs.toFinset.card

/-- The rank of the store before a block. -/
def rankAt (vs : Finset VarId) (s : Progress) (b : BlockId) : Nat := (s.storeBefore b).rank vs.card

/-- What holds of the tables throughout: only registered blocks wait, stores know of the listed
variables only, a block that has had no turn has unreachable stores, and the entry has the one that
it is given from its first turn on. -/
structure Orderly (fp : FlowProblem) (vs : Finset VarId) (s : Progress) : Prop where
  queue : ∀ b ∈ s.queue, b ∈ fp.graph.nodes
  before : ∀ b, (s.storeBefore b).Within vs
  after : ∀ b, (s.storeAfter b).Within vs
  fresh : ∀ b, b ∉ s.visited → s.storeBefore b = .unreachable ∧ s.storeAfter b = .unreachable
  entry : fp.graph.entry ∈ s.visited → s.storeBefore fp.graph.entry = fp.entryStore

/-- Every turn taken or waiting is the first one of its block, or paid for by a change of the store
before a block that leads there. -/
structure Paid (fp : FlowProblem) (vs : Finset VarId) (s : Progress) : Prop
    extends Orderly fp vs s where
  iterations : s.iterations + s.queue.length ≤
    fp.graph.nodes.length + ∑ b ∈ fp.graph.nodes.toFinset, rankAt vs s b * fp.fan b
  updates : s.updates ≤ ∑ b ∈ fp.graph.nodes.toFinset, rankAt vs s b

theorem paid_start {order : List BlockId} (hnodup : order.Nodup)
    (hnodes : ∀ b ∈ order, b ∈ fp.graph.nodes) : fp.Paid vs (.start order) where
  queue := hnodes
  before _ := trivial
  after _ := trivial
  fresh _ _ := ⟨rfl, rfl⟩
  entry hv := absurd hv List.not_mem_nil
  iterations := by
    have hle : order.length ≤ fp.graph.nodes.length := (hnodup.subperm hnodes).length_le
    show 0 + order.length ≤ _
    omega
  updates := Nat.zero_le _

/-- What is queued in addition are different blocks of the list. -/
theorem exists_enqueue_eq (queue bs : List BlockId) :
    ∃ new : List BlockId, enqueue queue bs = queue ++ new ∧ new.Nodup ∧
      ∀ b ∈ new, b ∈ bs ∧ b ∉ queue := by
  induction bs generalizing queue with
  | nil => exact ⟨[], (List.append_nil _).symm, .nil, fun b hb => nomatch hb⟩
  | cons a bs ih =>
    by_cases ha : a ∈ queue
    · obtain ⟨new, heq, hnodup, hnew⟩ := ih queue
      refine ⟨new, ?_, hnodup, fun b hb => ⟨List.mem_cons_of_mem _ (hnew b hb).1, (hnew b hb).2⟩⟩
      rw [← heq, enqueue, List.foldl_cons, if_pos ha, enqueue]
    · obtain ⟨new, heq, hnodup, hnew⟩ := ih (queue ++ [a])
      refine ⟨a :: new, ?_, List.nodup_cons.2 ⟨fun hmem => ?_, hnodup⟩, fun b hb => ?_⟩
      · rw [List.append_cons, ← heq, enqueue, List.foldl_cons, if_neg ha, enqueue]
      · exact (hnew a hmem).2 (by simp)
      · rcases List.mem_cons.1 hb with rfl | hb
        · exact ⟨List.mem_cons_self .., ha⟩
        · obtain ⟨hmem, hout⟩ := hnew b hb
          exact ⟨List.mem_cons_of_mem _ hmem, fun hq => hout (List.mem_append_left _ hq)⟩

theorem length_enqueue_le (queue : List BlockId) (b : BlockId) :
    (enqueue queue (fp.graph.succBlocks b)).length ≤ queue.length + fp.fan b := by
  obtain ⟨new, heq, hnodup, hnew⟩ := exists_enqueue_eq queue (fp.graph.succBlocks b)
  -- Successors may repeat, but what is added does not: it is counted along the edges.
  have hsubset : new.toFinset ⊆
      (fp.graph.block b).succs.toFinset.image fun i => (fp.graph.edge i).dst := by
    intro c hc
    obtain ⟨e, he, rfl⟩ := List.mem_map.1 (hnew c (List.mem_toFinset.1 hc)).1
    obtain ⟨i, hi, rfl⟩ := List.mem_map.1 he
    exact Finset.mem_image_of_mem (fun i => (fp.graph.edge i).dst) (List.mem_toFinset.2 hi)
  have hcard : new.length ≤ fp.fan b :=
    calc new.length = new.toFinset.card := (List.toFinset_card_of_nodup hnodup).symm
      _ ≤ _ := Finset.card_le_card hsubset
      _ ≤ fp.fan b := Finset.card_image_le
  rw [heq, List.length_append]
  omega

theorem Limited.incoming (hfp : fp.Limited vs) (h : ∀ c, (s.storeAfter c).Within vs)
    (hb : b ∈ fp.graph.nodes) : (fp.incoming s b).Within vs := by
  have hfold : ∀ es : List Edge, (∀ e ∈ es, e ∈ fp.graph.predEdges b) → ∀ acc : Store,
      acc.Within vs →
      (es.foldl (fun acc e => acc.join (fp.along e (s.storeAfter e.src))) acc).Within vs := by
    intro es hes
    induction es with
    | nil => exact fun acc hacc => hacc
    | cons e es ih =>
      obtain ⟨he, hrest⟩ := List.forall_mem_cons.1 hes
      exact fun acc hacc => ih hrest _ (hacc.join (hfp.along b hb e he (h e.src)))
  exact hfold _ (fun _ he => he) .unreachable trivial

theorem Limited.merged (hfp : fp.Limited vs) (h : fp.Orderly vs s) (hb : b ∈ fp.graph.nodes) :
    (fp.merged s b).Within vs := by
  unfold FlowProblem.merged
  split
  · exact hfp.entry
  · exact (h.before b).join (hfp.incoming h.after hb)

/-- A turn that changes the store before its block raises the rank of it. -/
theorem Limited.rank_lt_merged (hfp : fp.Limited vs) (h : fp.Orderly vs s)
    (hb : b ∈ fp.graph.nodes) (hne : fp.merged s b ≠ s.storeBefore b) :
    rankAt vs s b < (fp.merged s b).rank vs.card := by
  by_cases hentry : b = fp.graph.entry
  · -- The entry has its store from its first turn on, so this is the first.
    subst hentry
    have hmerged : fp.merged s fp.graph.entry = fp.entryStore := if_pos rfl
    have hnew : fp.graph.entry ∉ s.visited := fun hv =>
      hne (hmerged.trans (h.entry hv).symm)
    have hbefore := (h.fresh _ hnew).1
    rw [rankAt, hbefore]
    exact (hfp.merged h hb).rank_pos fun hdead => hne (hdead.trans hbefore.symm)
  · have hmerged : fp.merged s b = (s.storeBefore b).join (fp.incoming s b) := if_neg hentry
    rw [rankAt, hmerged]
    exact (h.before b).rank_lt_join (hfp.incoming h.after hb) (hmerged ▸ hne)

theorem rankAt_step (c : BlockId) :
    rankAt vs (fp.step b s) c =
      if b = c then (fp.merged s b).rank vs.card else rankAt vs s c := by
  rw [rankAt, storeBefore_step]
  split_ifs <;> rfl

theorem updates_step (b : BlockId) (s : Progress) :
    (fp.step b s).updates =
      if fp.merged s b = s.storeBefore b then s.updates else s.updates + 1 := by
  by_cases hidle : fp.Idle s b
  · rw [step_of_idle hidle, if_pos hidle.2]
  · have hif : ¬ (b ∈ s.visited ∧
        fp.merged { s with iterations := s.iterations + 1 } b = s.storeBefore b) := hidle
    have hstep : fp.step b s = _ := if_neg hif
    rw [hstep]
    rfl

/-- A turn that leaves the store before its block as it was queues nothing. -/
theorem Limited.queue_step_of_eq (hfp : fp.Limited vs) (h : fp.Orderly vs s)
    (hsame : fp.merged s b = s.storeBefore b) : (fp.step b s).queue = s.queue := by
  by_cases hidle : fp.Idle s b
  · rw [step_of_idle hidle]
  · obtain ⟨hbefore, hafter⟩ := h.fresh b fun hv => hidle ⟨hv, hsame⟩
    rw [(step_of_not_idle hidle).2.2.1, if_pos]
    rw [hsame, hbefore, hafter, hfp.dead]

theorem length_queue_step_le (fp : FlowProblem) (b : BlockId) (s : Progress) :
    (fp.step b s).queue.length ≤ s.queue.length + fp.fan b := by
  by_cases hidle : fp.Idle s b
  · rw [step_of_idle hidle]
    exact Nat.le_add_right _ _
  · rw [(step_of_not_idle hidle).2.2.1]
    split
    · exact Nat.le_add_right _ _
    · exact length_enqueue_le s.queue b

/-- What a sum of weighted ranks gains when one of them rises. -/
theorem sum_rankAt_step (hb : b ∈ fp.graph.nodes)
    (hrank : rankAt vs s b < (fp.merged s b).rank vs.card) (weight : BlockId → Nat) :
    ∑ c ∈ fp.graph.nodes.toFinset, rankAt vs s c * weight c + weight b ≤
      ∑ c ∈ fp.graph.nodes.toFinset, rankAt vs (fp.step b s) c * weight c := by
  have hmem : b ∈ fp.graph.nodes.toFinset := List.mem_toFinset.2 hb
  -- Only the term of the block itself changes.
  have hothers : ∑ c ∈ fp.graph.nodes.toFinset.erase b, rankAt vs (fp.step b s) c * weight c =
      ∑ c ∈ fp.graph.nodes.toFinset.erase b, rankAt vs s c * weight c := by
    refine Finset.sum_congr rfl fun c hc => ?_
    rw [rankAt_step, if_neg (Finset.ne_of_mem_erase hc).symm]
  have hown : rankAt vs s b * weight b + weight b ≤ rankAt vs (fp.step b s) b * weight b := by
    rw [rankAt_step, if_pos rfl, ← Nat.succ_mul]
    exact Nat.mul_le_mul_right _ hrank
  rw [← Finset.add_sum_erase _ _ hmem, ← Finset.add_sum_erase _ _ hmem, hothers]
  omega

theorem Orderly.pop {rest : List BlockId} (hq : s.queue = b :: rest) (h : fp.Orderly vs s) :
    fp.Orderly vs { s with queue := rest } where
  queue c hc := h.queue c (by rw [hq]; exact List.mem_cons_of_mem _ hc)
  before := h.before
  after := h.after
  fresh := h.fresh
  entry := h.entry

theorem Orderly.step (hfp : fp.Limited vs) (hb : b ∈ fp.graph.nodes) (h : fp.Orderly vs s) :
    fp.Orderly vs (fp.step b s) where
  queue c hc := by
    by_cases hidle : fp.Idle s b
    · rw [step_of_idle hidle] at hc
      exact h.queue c hc
    · rw [(step_of_not_idle hidle).2.2.1] at hc
      split at hc
      · exact h.queue c hc
      · rcases mem_enqueue.1 hc with hrest | hsucc
        · exact h.queue c hrest
        · exact hfp.wired.mem_nodes_of_succ hb hsucc
  before c := by
    rw [storeBefore_step]
    split
    · exact hfp.merged h hb
    · exact h.before c
  after c := by
    rw [storeAfter_step]
    split
    · exact hfp.transfer b hb (hfp.merged h hb)
    · exact h.after c
  fresh c hc := by
    rw [mem_visited_step, not_or] at hc
    have hbc : b ≠ c := fun heq => hc.1 heq.symm
    rw [storeBefore_step, storeAfter_step, if_neg hbc, if_neg fun hand => hbc hand.1]
    exact h.fresh c hc.2
  entry hv := by
    rw [storeBefore_step]
    split
    · rename_i hb
      rw [merged, if_pos hb]
    · rename_i hb
      exact h.entry ((mem_visited_step.1 hv).resolve_left fun heq => hb heq.symm)

/-- **A turn is paid for.**  The block has been taken from the queue, and its turn is due. -/
theorem Orderly.paid_step (hfp : fp.Limited vs) (h : fp.Orderly vs s) (hb : b ∈ fp.graph.nodes)
    (hturns : s.iterations + 1 + s.queue.length ≤
      fp.graph.nodes.length + ∑ c ∈ fp.graph.nodes.toFinset, rankAt vs s c * fp.fan c)
    (hupdates : s.updates ≤ ∑ c ∈ fp.graph.nodes.toFinset, rankAt vs s c) :
    fp.Paid vs (fp.step b s) := by
  by_cases hsame : fp.merged s b = s.storeBefore b
  · -- No rank has changed, and nobody else has to take a turn.
    have hranks : ∀ c, rankAt vs (fp.step b s) c = rankAt vs s c := by
      intro c
      rw [rankAt_step]
      split
      · rename_i hbc
        rw [hsame, hbc, rankAt]
      · rfl
    refine ⟨h.step hfp hb, ?_, ?_⟩
    · simp only [iterations_step, hfp.queue_step_of_eq h hsame, hranks]
      exact hturns
    · simp only [updates_step, if_pos hsame, hranks]
      exact hupdates
  · -- The rank has risen, by one at least, and pays for a turn of each successor.
    have hrank := hfp.rank_lt_merged h hb hsame
    refine ⟨h.step hfp hb, ?_, ?_⟩
    · have hgain := sum_rankAt_step hb hrank fp.fan
      have hlength := length_queue_step_le fp b s
      rw [iterations_step]
      omega
    · have hgain := sum_rankAt_step hb hrank fun _ => 1
      simp only [mul_one] at hgain
      rw [updates_step, if_neg hsame]
      omega

/-- Whatever a run comes to, the account is kept. -/
theorem paid_of_takesFirst (hfp : fp.Limited vs) {order : List BlockId} (hnodup : order.Nodup)
    (hnodes : ∀ b ∈ order, b ∈ fp.graph.nodes)
    (h : Relation.ReflTransGen fp.TakesFirst (.start order) s) : fp.Paid vs s := by
  induction h with
  | refl => exact paid_start hnodup hnodes
  | @tail s _ _ hstep ih =>
    obtain ⟨b, rest, hq, rfl⟩ := hstep
    have hb : b ∈ fp.graph.nodes := ih.queue b (by rw [hq]; exact List.mem_cons_self ..)
    have hturns := ih.iterations
    rw [hq, List.length_cons] at hturns
    apply (ih.toOrderly.pop hq).paid_step hfp hb
    · show s.iterations + 1 + rest.length ≤ fp.graph.nodes.length +
        ∑ c ∈ fp.graph.nodes.toFinset, rankAt vs s c * fp.fan c
      omega
    · exact ih.updates

/-- No rank exceeds the number of variables by more than one. -/
theorem Paid.iterations_le (h : fp.Paid vs s) :
    s.iterations ≤ fp.graph.nodes.length +
      (vs.card + 1) * ∑ b ∈ fp.graph.nodes.toFinset, fp.fan b := by
  have hsum : ∑ b ∈ fp.graph.nodes.toFinset, rankAt vs s b * fp.fan b ≤
      (vs.card + 1) * ∑ b ∈ fp.graph.nodes.toFinset, fp.fan b := by
    rw [Finset.mul_sum]
    exact Finset.sum_le_sum fun b _ => Nat.mul_le_mul_right _ (Store.rank_le _ _)
  have hpaid := h.iterations
  omega

theorem Paid.updates_le (h : fp.Paid vs s) :
    s.updates ≤ (vs.card + 1) * fp.graph.nodes.length := by
  calc s.updates ≤ ∑ b ∈ fp.graph.nodes.toFinset, rankAt vs s b := h.updates
    _ ≤ ∑ _b ∈ fp.graph.nodes.toFinset, (vs.card + 1) :=
        Finset.sum_le_sum fun b _ => Store.rank_le _ _
    _ = fp.graph.nodes.toFinset.card * (vs.card + 1) := by
        exact Finset.sum_const_nat fun _ _ => rfl
    _ ≤ (vs.card + 1) * fp.graph.nodes.length := by
        rw [Nat.mul_comm]
        exact Nat.mul_le_mul_left _ (List.toFinset_card_le _)

/-! ### The run -/

theorem iterations_le_of_takesFirst {s' : Progress}
    (h : Relation.ReflTransGen fp.TakesFirst s s') : s.iterations ≤ s'.iterations := by
  rcases Relation.reflTransGen_iff_eq_or_transGen.1 h with rfl | hsteps
  · exact Nat.le_refl _
  · exact (iterations_lt_of_transGen hsteps).le

/-- **A run that takes boundedly many turns has one end.**  Any budget that suffices leads there, and
any other is used up. -/
theorem exists_run {bound : Nat}
    (h : ∀ s', Relation.ReflTransGen fp.TakesFirst s s' → s'.iterations ≤ bound) :
    ∃ s', Relation.ReflTransGen fp.TakesFirst s s' ∧ ∀ budget,
      fp.run (fun _ => false) budget s =
        if s'.iterations ≤ s.iterations + budget then .ok s'
        else .error (.outOfIterations (s.iterations + budget)) := by
  obtain ⟨left, hleft⟩ : ∃ left, bound ≤ s.iterations + left := ⟨bound, Nat.le_add_left _ _⟩
  induction left generalizing s with
  | zero =>
    -- Nothing can be waiting, or one more turn would be too many.
    have hempty : s.queue = [] := by
      cases hq : s.queue with
      | nil => rfl
      | cons b rest =>
        have hstep : fp.TakesFirst s (fp.step b { s with queue := rest }) := ⟨b, rest, hq, rfl⟩
        have hturns := h _ (.single hstep)
        rw [hstep.iterations] at hturns
        omega
    refine ⟨s, .refl, fun budget => ?_⟩
    unfold run
    rw [if_pos (Nat.le_add_right _ _)]
    simp only [hempty]
  | succ left ih =>
    cases hq : s.queue with
    | nil =>
      refine ⟨s, .refl, fun budget => ?_⟩
      unfold run
      rw [if_pos (Nat.le_add_right _ _)]
      simp only [hq]
    | cons b rest =>
      have hstep : fp.TakesFirst s (fp.step b { s with queue := rest }) := ⟨b, rest, hq, rfl⟩
      have hturn := hstep.iterations
      obtain ⟨s', hsteps, hrun⟩ := ih (fun s' hs' => h s' (.head hstep hs')) (by rw [hturn]; omega)
      have hlater := iterations_le_of_takesFirst hsteps
      refine ⟨s', .head hstep hsteps, fun budget => ?_⟩
      -- Without budget the run ends here, and the turns to come are too many for it.
      cases budget with
      | zero =>
        have hmore : ¬ s'.iterations ≤ s.iterations + 0 := by omega
        unfold run
        rw [if_neg hmore]
        simp only [hq]
        rfl
      | succ budget =>
        unfold run
        have hcount : s.iterations + 1 + budget = s.iterations + (budget + 1) := by omega
        simp only [hq, Bool.false_eq_true, if_false, hrun budget, hturn, hcount]

end FlowProblem

/-! ### The analysis of a function -/

namespace FlowGraph

variable {p : Program} {g : FlowGraph} {settings : Settings} {params : List VariableId}

/-- The variables that the iteration can know of: those that the store at entry speaks of, and those
that the expressions of the blocks name. -/
def knownVars (p : Program) (g : FlowGraph) (settings : Settings) (params : List VariableId) :
    Finset VarId :=
  ((g.entryStore p settings params).tracked ++
    (g.nodes.flatMap (g.treeTokens p)).filterMap p.trackedVar?).toFinset

theorem trackedVar?_ne_of_notMem {v : VarId} (hv : v ∉ g.knownVars p settings params) {b : BlockId}
    (hb : b ∈ g.nodes) : ∀ u ∈ g.treeTokens p b, p.trackedVar? u ≠ some v := by
  intro u hu htracked
  refine hv (List.mem_toFinset.2 (List.mem_append_right _ ?_))
  exact List.mem_filterMap.2 ⟨u, List.mem_flatMap.2 ⟨b, hb, hu⟩, htracked⟩

/-- What a condition names, the expressions of its block name. -/
theorem silent_condition {v : VarId} {b : BlockId}
    (hv : ∀ u ∈ g.treeTokens p b, p.trackedVar? u ≠ some v) :
    (p.exprOf (p.conditionRoot? (g.block b).tokens)).Silent p v := by
  cases hroot : p.conditionRoot? (g.block b).tokens with
  | none => exact fun u hu => nomatch hu
  | some root =>
    have hmem : root ∈ p.expressionRoots (g.block b).tokens :=
      (List.mem_filter.1 (List.mem_of_getLast? hroot)).1
    exact fun u hu => hv u (List.mem_flatMap.2 ⟨root, hmem, hu⟩)

theorem within_entryStore :
    (g.entryStore p settings params).Within (g.knownVars p settings params) := by
  by_cases hopen : g.entryStore p settings params = .unreachable
  · rw [hopen]
    trivial
  · refine Store.within_of_live (live_entryStore hopen) fun v hv => ?_
    by_contra hfact
    refine hv (List.mem_toFinset.2 (List.mem_append_left _ ?_))
    cases hstore : g.entryStore p settings params with
    | unreachable => exact absurd hstore hopen
    | reachable f =>
      rw [hstore] at hfact
      exact List.mem_map.2 ⟨_, Store.mem_entries_of_get_ne_top hfact, rfl⟩

theorem within_transfer {b : BlockId} (hb : b ∈ g.nodes) {s : Store}
    (hs : s.Within (g.knownVars p settings params)) :
    (g.transfer p settings b s).Within (g.knownVars p settings params) := by
  cases s with
  | unreachable =>
    rw [transfer_unreachable]
    trivial
  | reachable f =>
    refine Store.within_of_live (live_transfer p g settings b hs.1) fun v hv => ?_
    -- A variable that is not named keeps `top`: what is known of it can only get less.
    have hweak : EvalContext.Weakens v (.reachable f) (g.transfer p settings b (.reachable f)) := by
      rw [transfer_eq]
      exact EvalContext.weakens_evalRoots (g.evalContext p settings) _
        { store := .reachable f } (trackedVar?_ne_of_notMem hv hb)
    rw [EvalContext.Weakens, hs.2 v hv] at hweak
    revert hweak
    cases (g.transfer p settings b (.reachable f)).get v <;> decide

theorem within_along {e : Edge} (hsrc : e.src ∈ g.nodes) {s : Store}
    (hs : s.Within (g.knownVars p settings params)) :
    (g.along p e s).Within (g.knownVars p settings params) := by
  cases s with
  | unreachable =>
    rw [along_unreachable]
    trivial
  | reachable f =>
    refine Store.within_of_live (live_along p g e hs.1) fun v hv => ?_
    have hsilent := silent_condition (g := g) (trackedVar?_ne_of_notMem hv hsrc)
    have hreach : Store.reachable f ≠ .unreachable := hs.1.ne_unreachable
    unfold along
    cases e.kind
    case branchTrue => exact (hsilent.get_narrowBy true hreach).trans (hs.2 v hv)
    case branchFalse => exact (hsilent.get_narrowBy false hreach).trans (hs.2 v hv)
    case switchCase => exact (hsilent.get_narrowByCase _ _).trans (hs.2 v hv)
    case exception =>
      simp only
      rw [Store.get_havoc hreach, hs.2 v hv, ite_self]
    all_goals exact hs.2 v hv

theorem limited_problem (hcheck : g.check = .ok ()) :
    (g.problem p settings params).Limited (g.knownVars p settings params) where
  wired := wired_of_check hcheck
  entry := within_entryStore
  transfer _ hb _ hs := within_transfer hb hs
  dead := transfer_unreachable p g settings
  along b hb e he _ hs := within_along ((wired_of_check hcheck).of_pred b hb e he).2.1 hs

/-- Every edge that leaves a block is registered, and leaves no other block. -/
theorem sum_fan_le (hcheck : g.check = .ok ()) :
    ∑ b ∈ g.nodes.toFinset, (g.problem p settings params).fan b ≤ g.listed.length := by
  have hsuccs : ∀ b ∈ g.nodes, ∀ i ∈ (g.block b).succs, i ∈ g.listed ∧ (g.edge i).src = b :=
    fun b hb => (lists_of_blockFault?_eq_none ((faults_of_check hcheck).2.2.2 b hb)).1
  -- An edge has one source, so no two blocks count the same edge.
  have hapart : (g.nodes.toFinset : Set BlockId).PairwiseDisjoint
      fun b => (g.block b).succs.toFinset := by
    intro b hb c hc hbc
    refine Finset.disjoint_left.2 fun i hib hic => hbc ?_
    rw [Finset.mem_coe, List.mem_toFinset] at hb hc
    rw [← (hsuccs b hb i (List.mem_toFinset.1 hib)).2, (hsuccs c hc i (List.mem_toFinset.1 hic)).2]
  calc ∑ b ∈ g.nodes.toFinset, (g.problem p settings params).fan b
      = (g.nodes.toFinset.biUnion fun b => (g.block b).succs.toFinset).card :=
        (Finset.card_biUnion hapart).symm
    _ ≤ g.listed.toFinset.card := by
        refine Finset.card_le_card fun i hi => ?_
        obtain ⟨b, hb, hib⟩ := Finset.mem_biUnion.1 hi
        rw [List.mem_toFinset] at hb hib ⊢
        exact (hsuccs b hb i hib).1
    _ ≤ g.listed.length := List.toFinset_card_le _

/-- What the analysis makes of the tables that the iteration ends with. -/
def resultAt (p : Program) (g : FlowGraph) (settings : Settings) (progress : Progress) :
    AnalysisResult :=
  let st := g.annotateAll p settings g.reversePostorder progress
  { annotations := st.annotations, sites := st.sites.toList.eraseDups, progress }

/-- Without a time limit the clock plays no part, and the limit on turns none but as a budget. -/
theorem analyze_untimed (hcheck : g.check = .ok ()) (limit : Int) (clock : Clock) :
    g.analyze p { settings with maxIterations := limit, timeout := none } params clock =
      match (g.problem p settings params).run (fun _ => false) limit.toNat
        (.start g.reversePostorder) with
      | .error (.outOfIterations n) => .error ⟨g.name, .tooManyIterations n⟩
      | .error (.outOfTime n) => .error ⟨g.name, .tooSlow (.whole 0) n⟩
      | .ok progress => .ok (resultAt p g settings progress) := by
  unfold analyze
  rw [hcheck]
  rfl

/-- **The iteration converges within a computable budget.**  On a graph without faults and without a
time limit there is a number of turns, at most one for each block and, for each edge, one for each
variable and one more, such that the analysis ends well just if it may take as many, always with the
same result, and runs out of turns otherwise.  The store before each block changes at most once for
each variable and once more. -/
theorem analysis_converges (p : Program) (g : FlowGraph) (settings : Settings)
    (params : List VariableId) (hcheck : g.check = .ok ()) :
    ∃ (turns : Nat) (r : AnalysisResult),
      turns ≤ g.nodes.length + ((g.knownVars p settings params).card + 1) * g.listed.length ∧
      r.progress.iterations = turns ∧
      r.progress.updates ≤ ((g.knownVars p settings params).card + 1) * g.nodes.length ∧
      ∀ (limit : Int) (clock : Clock),
        g.analyze p { settings with maxIterations := limit, timeout := none } params clock =
          if turns ≤ limit.toNat then .ok r
          else .error ⟨g.name, .tooManyIterations limit.toNat⟩ := by
  have hlimited : (g.problem p settings params).Limited (g.knownVars p settings params) :=
    limited_problem hcheck
  have hpaid : ∀ s, Relation.ReflTransGen (g.problem p settings params).TakesFirst
      (.start g.reversePostorder) s →
      (g.problem p settings params).Paid (g.knownVars p settings params) s := fun s hsteps =>
    FlowProblem.paid_of_takesFirst hlimited (reversePostorder_nodup hlimited.wired.nodup)
      (fun _ hb => mem_nodes_of_mem_reversePostorder hlimited.wired hb) hsteps
  have hbound : ∀ s, Relation.ReflTransGen (g.problem p settings params).TakesFirst
      (.start g.reversePostorder) s → s.iterations ≤ g.nodes.length +
        ((g.knownVars p settings params).card + 1) * g.listed.length := fun s hsteps =>
    (hpaid s hsteps).iterations_le.trans
      (Nat.add_le_add_left (Nat.mul_le_mul_left _ (sum_fan_le hcheck)) _)
  obtain ⟨progress, hsteps, hrun⟩ := FlowProblem.exists_run hbound
  refine ⟨progress.iterations, resultAt p g settings progress, hbound progress hsteps, rfl,
    (hpaid progress hsteps).updates_le, fun limit clock => ?_⟩
  have hzero : (Progress.start g.reversePostorder).iterations = 0 := rfl
  rw [analyze_untimed hcheck, hrun limit.toNat, hzero, Nat.zero_add]
  split_ifs <;> rfl

end FlowGraph

/-- `x = 0; while (x != 0) x = m;` settles, and the bounds speak of one variable. -/
theorem analysis_converges_guardedLoop :
    guardedLoopGraph.check = .ok () ∧ guardedLoopGraph.knownVars guardedLoop {} [] = {1} ∧
    ∃ (turns : Nat) (r : AnalysisResult),
      turns ≤ guardedLoopGraph.nodes.length +
        ((guardedLoopGraph.knownVars guardedLoop {} []).card + 1) *
          guardedLoopGraph.listed.length ∧
      r.progress.iterations = turns ∧
      r.progress.updates ≤
        ((guardedLoopGraph.knownVars guardedLoop {} []).card + 1) * guardedLoopGraph.nodes.length ∧
      ∀ (limit : Int) (clock : Clock),
        guardedLoopGraph.analyze guardedLoop
            { ({} : Settings) with maxIterations := limit, timeout := none } [] clock =
          if turns ≤ limit.toNat then .ok r
          else .error ⟨guardedLoopGraph.name, .tooManyIterations limit.toNat⟩ := by
  have hcheck : guardedLoopGraph.check = .ok () := by decide +kernel
  exact ⟨hcheck, by decide +kernel,
    FlowGraph.analysis_converges guardedLoop guardedLoopGraph {} [] hcheck⟩

end DivisorCheck
