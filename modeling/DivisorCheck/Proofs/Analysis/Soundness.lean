/-
  No division by zero is missed.

  What evaluation promises about an expression it promises about a block, and what
  an edge lets through is true of the states that take it.  Since the settled
  stores agree along every edge, an induction over the way from the entry shows
  that the store before a block is true of every state in which control may stand
  there (`describes_of_reaches`).

  The tags that are reported come from a last pass over all blocks.  Each block
  works on its own tokens, so what the pass leaves on the tokens of one block is
  what its evaluation has left there (`flagged_of_execBlock`).
-/
import DivisorCheck.Proofs.Analysis.LastPass
import DivisorCheck.Proofs.Analysis.Settling
import DivisorCheck.Proofs.Expr.Soundness
import Mathlib.Data.List.Pairwise

namespace DivisorCheck

open EvalContext (Fresh)

/-! ### Blocks -/

namespace EvalContext

variable {cx : EvalContext} {root : TokenId} {roots : List TokenId} {st : EvalState} {σ : State}
  {o : Outcome Int}

theorem describes_undeclared {s : Store} {σ' : State} (hs : s.Describes σ)
    (hσ' : ∀ v, v ∉ (cx.program.trackedVar? root).toList → σ' v = σ v) :
    (cx.undeclared root s).Describes σ' := by
  intro w
  unfold undeclared
  cases hroot : cx.program.trackedVar? root with
  | none =>
    have hw := hσ' w (by rw [hroot]; exact List.not_mem_nil)
    rw [hw]
    exact hs w
  | some v =>
    rw [Store.get_forget (Store.Live.of_describes hs).ne_unreachable]
    split_ifs with hvw
    · trivial
    · have hw := hσ' w (by rw [hroot]; simp [Ne.symm hvw])
      rw [hw]
      exact hs w

/-! ### The top-level expressions of a block -/

theorem promises_evalRoot (hwf : (cx.program.expr root).WellFormed cx.program)
    (hnodup : (cx.program.expr root).tokens.Nodup)
    (hfresh : Fresh (cx.program.expr root).tokens.tail st) (hσ : st.store.Describes σ)
    (h : cx.execRoot root σ o) :
    Promises cx.program (cx.program.expr root).extent (cx.evalRoot st root) (fun _ => True) o := by
  have hreach : ¬ st.store.isUnreachable = true := fun hnot =>
    (Store.Live.of_describes hσ).ne_unreachable (Store.isUnreachable_iff.1 hnot)
  unfold execRoot at h
  by_cases hbare : cx.program.isBareDeclaration root = true
  · rw [if_pos hbare] at h
    rw [evalRoot_bare hbare hreach]
    obtain ⟨n, σ', hσ', rfl⟩ := Run.change_any_iff.1 h
    exact ⟨trivial, describes_undeclared hσ hσ'⟩
  · rw [if_neg hbare] at h
    have heval := sound_eval hwf hnodup .operator st σ hfresh hσ o h
    unfold evalRoot
    simp only
    rw [if_neg hreach, if_neg hbare]
    exact heval.weaken (.refl _) fun _ _ => trivial

/-- What a promise about some top-level expressions speaks of. -/
def rootsExtent (p : Program) (roots : List TokenId) : Extent where
  divisors := p.treeTokens roots
  touched := p.treeTokens roots

theorem promises_evalRoots (hwf : ∀ root ∈ roots, (cx.program.expr root).WellFormed cx.program)
    (hnodup : (cx.program.treeTokens roots).Nodup) (hfresh : Fresh (cx.program.treeTokens roots) st)
    (hσ : st.store.Describes σ) {n : Int} (h : cx.execRoots roots n σ o) :
    Promises cx.program (rootsExtent cx.program roots) (roots.foldl cx.evalRoot st)
      (fun _ => True) o := by
  induction roots generalizing st σ n with
  | nil =>
    cases h
    exact ⟨trivial, hσ⟩
  | cons root roots ih =>
    have hrootwf := hwf root (List.mem_cons_self ..)
    have hrestwf := fun u hu => hwf u (List.mem_cons_of_mem root hu)
    have htokens : cx.program.treeTokens (root :: roots) =
        (cx.program.expr root).tokens ++ cx.program.treeTokens roots := List.flatMap_cons ..
    rw [htokens] at hnodup hfresh
    obtain ⟨hroot, hrest, hapart⟩ := List.nodup_append.1 hnodup
    have hframe := frame_evalRoot cx root st
    have hfreshRoot : Fresh (cx.program.expr root).tokens.tail st := fun u hu =>
      hfresh u (List.mem_append_left _ (List.mem_of_mem_tail hu))
    have hfreshRest : Fresh (cx.program.treeTokens roots) (cx.evalRoot st root) := by
      refine Fresh.of_marks (fun u hu => hfresh u (List.mem_append_right _ hu)) hframe.toMarks ?_
      exact fun u hu hu' => hapart u hu' u hu rfl
    have hwithin : (cx.program.expr root).extent.Within (rootsExtent cx.program (root :: roots)) := by
      refine ⟨fun _ hu => absurd hu List.not_mem_nil, fun u hu => ?_, fun u hu => ?_⟩
      · show u ∈ cx.program.treeTokens (root :: roots)
        rw [htokens]
        exact List.mem_append_left _ (List.mem_of_mem_tail hu)
      · show u ∈ cx.program.treeTokens (root :: roots)
        rw [htokens]
        exact List.mem_append_left _ hu
    have hwithinRest : (rootsExtent cx.program roots).Within
        (rootsExtent cx.program (root :: roots)) := by
      have hsub : ∀ u ∈ cx.program.treeTokens roots,
          u ∈ cx.program.treeTokens (root :: roots) := by
        intro u hu
        rw [htokens]
        exact List.mem_append_right _ hu
      exact ⟨fun _ hu => hu, hsub, hsub⟩
    rw [List.foldl_cons]
    refine Promises.bind h (fun o => promises_evalRoot hrootwf hroot hfreshRoot hσ) hwithin
      (frame_evalRoots cx roots _) hwithinRest.touched ?_ ?_
    · intro u hu hu'
      exact hapart u (List.mem_of_mem_tail hu) u hu' rfl
    · intro m σ₁ _ _ hσ₁ hrun
      exact (ih hrestwf hrest hfreshRest hσ₁ hrun).weaken hwithinRest fun _ h => h

end EvalContext

namespace FlowGraph

open EvalContext (rootsExtent)

variable {p : Program} {g : FlowGraph} {settings : Settings} {params : List VariableId}
  {b : BlockId} {σ σ' : State} {n : Int} {r : AnalysisResult}

theorem WellFormed.treeTokens_nodup (hwf : g.WellFormed p) (hb : b ∈ g.nodes) :
    (g.treeTokens p b).Nodup :=
  (List.nodup_flatMap.1 hwf.apart).1 b hb

/-- Different blocks have different tokens in their expressions. -/
theorem WellFormed.not_mem_treeTokens (hwf : g.WellFormed p) {c : BlockId}
    (hb : b ∈ g.nodes) (hc : c ∈ g.nodes) (hbc : b ≠ c) {t : TokenId}
    (ht : t ∈ g.treeTokens p b) : t ∉ g.treeTokens p c := by
  have hsymm : Std.Symm (Function.onFun List.Disjoint (g.treeTokens p)) :=
    ⟨fun _ _ h => List.Disjoint.symm h⟩
  have hpairs := (List.nodup_flatMap.1 hwf.apart).2
  exact fun ht' => hpairs.forall hb hc hbc ht ht'

theorem exists_of_execBlock {o : Outcome Int} (h : g.execBlock p settings b σ o) :
    ∃ n, (g.evalContext p settings).execRoots (p.expressionRoots (g.block b).tokens) n σ o := by
  rcases h with ⟨⟨m, heq⟩, hrun⟩ | ⟨_, heq⟩ | ⟨_, heq⟩
  · cases heq
    exact ⟨_, hrun⟩
  · cases heq
  · cases heq

theorem WellFormed.promises_execBlock (hwf : g.WellFormed p) (hb : b ∈ g.nodes) {st : EvalState}
    (hfresh : Fresh (g.treeTokens p b) st) (hσ : st.store.Describes σ) {o : Outcome Int}
    (h : g.execBlock p settings b σ o) :
    Promises p (rootsExtent p (p.expressionRoots (g.block b).tokens))
      ((g.evalContext p settings).evalBlock (g.block b).tokens st) (fun _ => True) o := by
  obtain ⟨n, hrun⟩ := exists_of_execBlock h
  exact EvalContext.promises_evalRoots (hwf.trees b hb) (hwf.treeTokens_nodup hb) hfresh hσ hrun

/-! ### Edges -/

/-- The store after a block is true of the states in which the block ends, and of those in which it
raises an exception as far as the block does not assign the variable. -/
theorem WellFormed.promises_transfer (hwf : g.WellFormed p) (hb : b ∈ g.nodes) {s : Store}
    (hs : s.Describes σ) {o : Outcome Int} (h : g.execBlock p settings b σ o) :
    match o with
    | .value _ σ' => (g.transfer p settings b s).Describes σ'
    | .divisionByZero _ => True
    | .raised σ' =>
      ∀ v, p.Spares (g.treeTokens p b) v → ((g.transfer p settings b s).get v).Holds (σ' v) := by
  have hpromise := hwf.promises_execBlock hb (EvalContext.fresh_empty _ s) hs h
  rw [transfer_eq]
  cases o with
  | value m σ' => exact hpromise.2
  | divisionByZero d => trivial
  | raised σ' => exact hpromise

/-- The condition of a decision has run last, and has given the value of the block. -/
theorem WellFormed.exec_condition (hwf : g.WellFormed p) (hb : b ∈ g.nodes) {e : Edge}
    (he : e ∈ g.succEdges b)
    (hkind : e.kind = .branchTrue ∨ e.kind = .branchFalse ∨ e.kind = .switchCase)
    {root : TokenId} (hroot : p.conditionRoot? (g.block b).tokens = some root)
    (h : g.execBlock p settings b σ (.value n σ')) :
    (p.expr root).WellFormed p ∧
      ∃ σ₁, (g.evalContext p settings).exec (p.expr root) .operator σ₁ (.value n σ') := by
  obtain ⟨m, hrun⟩ := exists_of_execBlock h
  have hlast := hwf.condition b hb e he hkind
  rw [hroot] at hlast
  have hmem : root ∈ (p.expressionRoots (g.block b).tokens).filter
      (fun t => !p.isBareDeclaration t) := List.mem_of_getLast? hroot
  obtain ⟨hmem, hbare⟩ := List.mem_filter.1 hmem
  obtain ⟨σ₁, hlastrun⟩ := EvalContext.execRoots_value_last hlast.symm hrun
  unfold EvalContext.execRoot at hlastrun
  have hnot : ¬ p.isBareDeclaration root = true := by simpa using hbare
  rw [evalContext, if_neg hnot] at hlastrun
  exact ⟨hwf.trees b hb root hmem, σ₁, hlastrun⟩

theorem exprOf_some (p : Program) (t : TokenId) : p.exprOf (some t) = p.expr t := rfl

theorem WellFormed.describes_narrowBy (hwf : g.WellFormed p) (hb : b ∈ g.nodes) {e : Edge}
    (he : e ∈ g.succEdges b)
    (hkind : e.kind = .branchTrue ∨ e.kind = .branchFalse ∨ e.kind = .switchCase) {s : Store}
    (hs : s.Describes σ') (h : g.execBlock p settings b σ (.value n σ')) :
    ((p.exprOf (p.conditionRoot? (g.block b).tokens)).narrowBy p (g.escaped p)
      (decide (n ≠ 0)) s).Describes σ' := by
  cases hroot : p.conditionRoot? (g.block b).tokens with
  | none => exact hs
  | some root =>
    obtain ⟨hrootwf, σ₁, hrun⟩ := hwf.exec_condition hb he hkind hroot h
    intro v
    have hnarrow : (((p.expr root).narrowBy (g.evalContext p settings).program
        (g.evalContext p settings).escaped (decide (n ≠ 0)) s).get v).Holds (σ' v) :=
      Expr.narrowBy_sound hrootwf hrun (hs v)
    exact hnarrow

theorem WellFormed.describes_narrowByCase (hwf : g.WellFormed p) (hb : b ∈ g.nodes) {e : Edge}
    (he : e ∈ g.succEdges b) (hkind : e.kind = .switchCase) {s : Store} (hs : s.Describes σ')
    (h : g.execBlock p settings b σ (.value n σ')) (hadmits : e.Admits p n) :
    ((p.exprOf (p.conditionRoot? (g.block b).tokens)).narrowByCase p (p.exprOf e.value)
      s).Describes σ' := by
  unfold Expr.narrowByCase
  split
  · rename_i k v hlabel hsubject
    -- The label says what the value is, and the subject that the variable has it.
    have hn : n = k := by
      unfold Edge.Admits at hadmits
      rw [hkind] at hadmits
      refine hadmits k ?_
      cases hvalue : e.value with
      | none =>
        rw [hvalue] at hlabel
        cases hlabel
      | some t =>
        have hcast := hwf.label b hb e he hkind t hvalue
        have hstrip : (p.exprOf (some t)).stripCasts p = p.exprOf (some t) := by
          rw [exprOf_some]
          unfold Program.expr Program.exprOf Program.exprWithin Expr.stripCasts
          rw [if_neg (by simp [hcast])]
        rw [hvalue, hstrip] at hlabel
        exact hlabel
    have hvalue : σ' v = n := by
      cases hroot : p.conditionRoot? (g.block b).tokens with
      | none =>
        rw [hroot] at hsubject
        cases hsubject
      | some root =>
        obtain ⟨hrootwf, σ₁, hrun⟩ := hwf.exec_condition hb he (.inr (.inr hkind)) hroot h
        rw [hroot, exprOf_some, hrootwf.stripCasts] at hsubject
        obtain ⟨t, ht, hname, hlit⟩ := hrootwf.leaf_of_trackedVar? hsubject
        rw [ht] at hrun
        obtain ⟨⟨hread, hsame⟩, -⟩ := (EvalContext.exec_name_iff hname hlit).1 hrun
        rw [hread, hsame]
    intro w
    rw [Store.get_narrow]
    split_ifs with hw
    · subst hw
      refine (hs v).narrow ?_
      rw [hvalue, hn]
      exact Tag.holds_ofInt k
    · exact hs w
  · exact hs

/-- **What arrives along an edge is true of the states that take it.** -/
theorem WellFormed.describes_along (hwf : g.WellFormed p) (hb : b ∈ g.nodes) {e : Edge}
    (he : e ∈ g.succEdges b) (hsrc : e.src = b) {s : Store} (hs : s.Describes σ')
    (h : g.execBlock p settings b σ (.value n σ')) (hadmits : e.Admits p n) :
    (g.along p e s).Describes σ' := by
  unfold along
  rw [hsrc]
  cases hkind : e.kind
  case branchTrue =>
    have hn : n ≠ 0 := by simpa [Edge.Admits, hkind] using hadmits
    have hnarrow := hwf.describes_narrowBy hb he (.inl hkind) hs h
    rwa [decide_eq_true hn] at hnarrow
  case branchFalse =>
    have hn : n = 0 := by simpa [Edge.Admits, hkind] using hadmits
    have hnarrow := hwf.describes_narrowBy hb he (.inr (.inl hkind)) hs h
    rwa [decide_eq_false (not_not.2 hn)] at hnarrow
  case switchCase => exact hwf.describes_narrowByCase hb he hkind hs h hadmits
  case exception => exact EvalContext.describes_havoc hs fun _ _ => rfl
  all_goals exact hs

/-- What arrives along an exception edge is true wherever in the block the exception was raised. -/
theorem WellFormed.describes_along_exception (hwf : g.WellFormed p) (hb : b ∈ g.nodes) {e : Edge}
    (he : e ∈ g.succEdges b) (hsrc : e.src = b) (hkind : e.kind = .exception) {s : Store}
    (hs : s ≠ .unreachable)
    (h : ∀ v, p.Spares (g.treeTokens p b) v → (s.get v).Holds (σ' v)) :
    (g.along p e s).Describes σ' := by
  unfold along
  rw [hsrc, hkind]
  intro v
  show ((s.havoc (p.assigned (g.block b).tokens)).get v).Holds (σ' v)
  rw [Store.get_havoc hs]
  split_ifs with hv
  · trivial
  · refine h v fun t ht hassigns => hv ?_
    have hmem := hwf.guarded b hb e he hkind t ht
    rw [Program.assigned, List.mem_eraseDups]
    exact List.mem_filterMap.2 ⟨t, hmem, hassigns⟩

/-! ### Ways through the graph -/

/-- Without a contract, the function may be called in any state. -/
theorem describes_entryStore
    (h : (settings.contract (nameOr g.name anonymousName)).isEmpty = true) (σ : State) :
    (g.entryStore p settings params).Describes σ := by
  unfold entryStore
  extract_lets contract
  rw [if_pos h]
  exact fun _ => trivial

/-- What arrives along an edge, the store before its block covers. -/
theorem WellFormed.describes_dst (hwf : g.WellFormed p) (hg : g.Wired) {s : Progress}
    (hsettled : (g.problem p settings params).Settled s) (hb : b ∈ g.nodes) {e : Edge}
    (he : e ∈ g.succEdges b) (h : (g.along p e (s.storeAfter b)).Describes σ') :
    e.dst ∈ g.nodes ∧ (s.storeBefore e.dst).Describes σ' := by
  obtain ⟨hsrc, hdst, hpred⟩ := hg.of_succ b hb e he
  have hentry : e.dst ≠ g.entry := by
    intro heq
    rw [heq, hwf.entry] at hpred
    cases hpred
  have hle : (g.along p e (s.storeAfter e.src)).le (s.storeBefore e.dst) = true :=
    hsettled.edge e.dst hdst hentry e hpred
  rw [hsrc] at hle
  exact ⟨hdst, h.mono (Store.le_iff.1 hle)⟩

/-- **What has settled is true wherever control may stand.** -/
theorem WellFormed.describes_of_reaches (hwf : g.WellFormed p) (hg : g.Wired) {s : Progress}
    (hsettled : (g.problem p settings params).Settled s)
    (h : g.Reaches p settings params b σ) : b ∈ g.nodes ∧ (s.storeBefore b).Describes σ := by
  induction h with
  | entry hσ =>
    refine ⟨hg.entry_mem, ?_⟩
    have hentry : s.storeBefore g.entry = g.entryStore p settings params := hsettled.entry
    rwa [hentry]
  | edge _ hrun he hadmits ih =>
    obtain ⟨hb, hσ⟩ := ih
    have hafter : s.storeAfter _ = g.transfer p settings _ _ := hsettled.block _ hb
    have hend := hwf.promises_transfer hb hσ hrun
    refine hwf.describes_dst hg hsettled hb he ?_
    rw [hafter]
    exact hwf.describes_along hb he (hg.of_succ _ hb _ he).1 hend hrun hadmits
  | exception _ hrun he hkind ih =>
    obtain ⟨hb, hσ⟩ := ih
    have hafter : s.storeAfter _ = g.transfer p settings _ _ := hsettled.block _ hb
    have hend := hwf.promises_transfer hb hσ hrun
    refine hwf.describes_dst hg hsettled hb he ?_
    rw [hafter]
    exact hwf.describes_along_exception hb he (hg.of_succ _ hb _ he).1 hkind
      (live_transfer p g settings _ (Store.Live.of_describes hσ)).ne_unreachable hend

/-! ### The last pass -/

/-- A division by zero in a block has been flagged when the pass is over. -/
theorem WellFormed.flagged_of_execBlock (hwf : g.WellFormed p) {progress : Progress}
    {order : List BlockId} (horder : ∀ b ∈ order, b ∈ g.nodes) (hnodup : order.Nodup)
    (hb : b ∈ order) (hσ : (progress.storeBefore b).Describes σ) {d : TokenId}
    (h : g.execBlock p settings b σ (.divisionByZero d)) :
    Flagged p (rootsExtent p (p.expressionRoots (g.block b).tokens)) d
      (g.annotateAll p settings order progress) := by
  have hapart : ∀ c ∈ order, c ≠ b → ∀ u ∈ g.treeTokens p b, u ∉ g.treeTokens p c :=
    fun c hc hcb u hu => hwf.not_mem_treeTokens (horder b hb) (horder c hc) (Ne.symm hcb) hu
  obtain ⟨st, later, hstore, hfresh, hlater, hmissed⟩ :=
    exists_turn settings progress hnodup hb hapart
  have hdescribes : st.store.Describes σ := hstore ▸ hσ
  have hflagged := hwf.promises_execBlock (horder b hb) hfresh hdescribes h
  exact Flagged.of_marks hflagged (.refl _) hlater hmissed

/-- **No division by zero is missed.**  Wherever control may stand, the store that the analysis
has settled on is true of the state.  And if a run of the block divides by zero there, the division
is listed as a site, and its divisor bears a tag that admits zero. -/
theorem analysis_sound (hwf : g.WellFormed p) {clock : Clock}
    (h : g.analyze p settings params clock = .ok r) (hreach : g.Reaches p settings params b σ) :
    (r.progress.storeBefore b).Describes σ ∧
    ∀ d, g.execBlock p settings b σ (.divisionByZero d) →
      d ∈ r.sites ∧ ∃ u, (p.token d).right = some u ∧ (r.tagOf u).mayBeZero = true := by
  obtain ⟨hcheck, -, -, hannotations, hsites⟩ := run_of_analyze h
  have hg := wired_of_check hcheck
  obtain ⟨hb, hσ⟩ := hwf.describes_of_reaches hg (settled_of_analyze h) hreach
  refine ⟨hσ, fun d hrun => ?_⟩
  have horder : ∀ c ∈ g.reversePostorder, c ∈ g.nodes := fun c hc =>
    mem_nodes_of_mem_reversePostorder hg hc
  obtain ⟨hsite, u, -, hright, tag, htag, hzero⟩ := hwf.flagged_of_execBlock horder
    (reversePostorder_nodup hg.nodup) (mem_reversePostorder hb) hσ hrun
  refine ⟨?_, u, hright, ?_⟩
  · rw [hsites, List.mem_eraseDups, Array.mem_toList_iff]
    exact hsite.resolve_right fun hpending => List.not_mem_nil hpending.1
  · rw [AnalysisResult.tagOf, hannotations, htag]
    exact hzero

end FlowGraph

/-! ### A division behind the wrong guard -/

/-- `if (m == 0) 1 / m;`, where nothing is known about `m`. -/
def guardedDivision : Program where
  tokens := #[
    { text := "==", left := some 1, right := some 2 },
    { text := "m", varId := 1, var := some 0, parent := some 0 },
    { text := "0", isNumber := true, parent := some 0 },
    { text := "/", left := some 4, right := some 5 },
    { text := "1", isNumber := true, parent := some 3 },
    { text := "m", varId := 1, var := some 0, parent := some 3 }]
  vars := #[{ id := 1, isArgument := true }]

/-- Its graph: entry, exit, condition and division. -/
def guardedDivisionGraph : FlowGraph where
  blocks := #[
    { id := 0, kind := .entry, succs := [0] },
    { id := 1, kind := .exit, preds := [2, 3] },
    { id := 2, kind := .ifCondition, tokens := [1, 0, 2], succs := [1, 2], preds := [0] },
    { id := 3, kind := .ifTrue, tokens := [4, 3, 5], succs := [3], preds := [1] }]
  edges := #[
    { src := 0, dst := 2 },
    { src := 2, dst := 3, kind := .branchTrue },
    { src := 2, dst := 1, kind := .branchFalse },
    { src := 3, dst := 1 }]
  nodes := [0, 1, 2, 3]
  listed := [0, 1, 2, 3]

theorem analyze_guardedDivision :
    ∃ r, guardedDivisionGraph.analyze guardedDivision {} [] = .ok r := by
  have hrun : (guardedDivisionGraph.analyze guardedDivision {} []).toOption.isSome = true := by
    decide +kernel
  cases h : guardedDivisionGraph.analyze guardedDivision {} [] with
  | error e =>
    rw [h] at hrun
    cases hrun
  | ok r => exact ⟨r, rfl⟩

section GuardedDivision

/-- How its blocks are evaluated. -/
def guardedDivisionContext : EvalContext := guardedDivisionGraph.evalContext guardedDivision {}

theorem allows_guardedDivision (t : TokenId) (n : Int) : guardedDivisionContext.Allows t n := by
  intro hflow
  cases hflow

theorem exec_guardedDivision_name (t : TokenId) (ht : t = 1 ∨ t = 5) :
    guardedDivisionContext.exec (.node t .absent .absent) .operator (fun _ => 0) (.value 0 fun _ => 0) := by
  have hname : ∀ t, t = 1 ∨ t = 5 → guardedDivisionContext.program.trackedVar? t = some 1 := by
    rintro t (rfl | rfl) <;> rfl
  have hlit : ∀ t, t = 1 ∨ t = 5 → guardedDivisionContext.program.literalTag? t = none := by
    rintro t (rfl | rfl) <;> decide +kernel
  exact (EvalContext.exec_name_iff (hname t ht) (hlit t ht)).2
    ⟨⟨rfl, rfl⟩, allows_guardedDivision t 0⟩

theorem exec_guardedDivision_condition :
    guardedDivisionContext.exec (guardedDivision.expr 0) .operator (fun _ => 0) (.value 1 fun _ => 0) := by
  have htree : guardedDivision.expr 0 =
      .node 0 (.node 1 .absent .absent) (.node 2 .absent .absent) := by decide +kernel
  have hzero : guardedDivisionContext.exec (.node 2 .absent .absent) .operator (fun _ => 0)
      (.value 0 fun _ => 0) :=
    (EvalContext.exec_literal_iff (by decide +kernel)).2
      ⟨⟨rfl, rfl⟩, allows_guardedDivision 2 0⟩
  rw [htree, EvalContext.exec_binary (by decide +kernel), Run.mayRaise_value_iff,
    Run.only_value_iff]
  exact ⟨.value (exec_guardedDivision_name 1 (.inl rfl)) (.value hzero rfl),
    allows_guardedDivision 0 1⟩

theorem exec_guardedDivision_division :
    guardedDivisionContext.exec (guardedDivision.expr 3) .operator (fun _ => 0) (.divisionByZero 3) := by
  have htree : guardedDivision.expr 3 =
      .node 3 (.node 4 .absent .absent) (.node 5 .absent .absent) := by decide +kernel
  have hone : guardedDivisionContext.exec (.node 4 .absent .absent) .operator (fun _ => 0)
      (.value 1 fun _ => 0) :=
    (EvalContext.exec_literal_iff (by decide +kernel)).2
      ⟨⟨rfl, rfl⟩, allows_guardedDivision 4 1⟩
  rw [htree, EvalContext.exec_binary (by decide +kernel)]
  exact .inl ⟨.value hone (.value (exec_guardedDivision_name 5 (.inr rfl)) rfl),
    fun _ _ heq => nomatch heq⟩

/-- Control may stand before the division with zero in `m`. -/
theorem reaches_guardedDivision :
    guardedDivisionGraph.Reaches guardedDivision {} [] 3 (fun _ => 0) := by
  have hstart : guardedDivisionGraph.Reaches guardedDivision {} [] 0 (fun _ => 0) :=
    .entry (FlowGraph.describes_entryStore rfl _)
  have hentry : guardedDivisionGraph.execBlock guardedDivision {} 0 (fun _ => 0)
      (.value 0 fun _ => 0) := .value ⟨0, rfl⟩ rfl
  have hcond : guardedDivisionGraph.execBlock guardedDivision {} 2 (fun _ => 0)
      (.value 1 fun _ => 0) :=
    EvalContext.execBlock_of_exec (by decide +kernel) (by decide +kernel)
      exec_guardedDivision_condition
  have hsecond : guardedDivisionGraph.Reaches guardedDivision {} [] 2 (fun _ => 0) :=
    .edge (e := { src := 0, dst := 2 }) hstart hentry (by decide) trivial
  exact .edge (e := { src := 2, dst := 3, kind := .branchTrue }) hsecond hcond (by decide)
    (by decide : (1 : Int) ≠ 0)

theorem analysis_sound_guardedDivision :
    guardedDivisionGraph.WellFormed guardedDivision ∧ ∃ r,
      guardedDivisionGraph.analyze guardedDivision {} [] = .ok r ∧
      guardedDivisionGraph.Reaches guardedDivision {} [] 3 (fun _ => 0) ∧
      guardedDivisionGraph.execBlock guardedDivision {} 3 (fun _ => 0) (.divisionByZero 3) ∧
      (r.progress.storeBefore 3).Describes (fun _ => 0) ∧ 3 ∈ r.sites ∧
      ∃ u, (guardedDivision.token 3).right = some u ∧ (r.tagOf u).mayBeZero = true := by
  have hwf : guardedDivisionGraph.WellFormed guardedDivision := by decide +kernel
  have hrun : guardedDivisionGraph.execBlock guardedDivision {} 3 (fun _ => 0)
      (.divisionByZero 3) :=
    EvalContext.execBlock_of_exec (by decide +kernel) (by decide +kernel)
      exec_guardedDivision_division
  obtain ⟨r, hr⟩ := analyze_guardedDivision
  obtain ⟨hdescribes, hflagged⟩ := FlowGraph.analysis_sound hwf hr reaches_guardedDivision
  exact ⟨hwf, r, hr, reaches_guardedDivision, hrun, hdescribes, hflagged 3 hrun⟩

end GuardedDivision

end DivisorCheck
