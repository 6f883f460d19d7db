/-
  Dead code.

  A store is unreachable at first, and it becomes reachable only if something
  reachable flows into it.  So what no way from the entry leads to stays
  unreachable throughout the iteration (`FlowProblem.unreachable_of_takesFirst`),
  whereas a block that a way leads to has a store without impossible variables in
  the end, since nothing that happens on the way makes a variable impossible
  (`FlowProblem.Settled.live`): narrowing keeps what it was told before.

  The tag `bottom` follows the stores (`FlowGraph.bottom_marks_dead_code`).  All
  tokens of dead blocks have it, and of the others only operands of questions about
  sizes.  Such an operand has it if the question is asked; one in the body of a
  lambda is not.
-/
import DivisorCheck.Proofs.Analysis.LastPass
import DivisorCheck.Proofs.Analysis.Settling
import DivisorCheck.Proofs.Expr.Splitting
import DivisorCheck.Proofs.Expr.Unrun

namespace DivisorCheck

/-! ### Stores without impossible variables -/

namespace Store

variable {s s' : Store}

theorem Live.mono (h : s.Live) (hle : s.le s' = true) : s'.Live :=
  fun v => Tag.ne_bottom_of_le (le_iff.1 hle v) (h v)

theorem live_top : Store.top.Live := fun _ => Tag.noConfusion

theorem join_unreachable : Store.join .unreachable s = s := by
  cases s <;> rfl

end Store

namespace Expr

variable {p : Program} {e : Expr} {escaped : List VarId}

theorem live_narrowByCase (subject label : Expr) {s : Store} (hs : s.Live) :
    (subject.narrowByCase p label s).Live := by
  unfold narrowByCase
  split
  · rename_i n v _ _
    exact hs.set (Tag.narrow_ne_bottom (hs v) (Tag.ne_bottom_of_holds (Tag.holds_ofInt n))) v
  · exact hs

end Expr

/-! ### The iteration -/

namespace FlowProblem

variable {fp : FlowProblem} {s s' : Progress} {D : BlockId → Prop}

/-- The blocks of a set have unreachable stores. -/
def Dead (s : Progress) (D : BlockId → Prop) : Prop :=
  ∀ b, D b → s.storeBefore b = .unreachable ∧ s.storeAfter b = .unreachable

/-- A step keeps a set of blocks dead into which nothing reachable leads. -/
theorem Dead.step (htransfer : ∀ b, fp.transfer b .unreachable = .unreachable)
    (halong : ∀ e, fp.along e .unreachable = .unreachable)
    (hentry : D fp.graph.entry → fp.entryStore = .unreachable)
    (hpred : ∀ b, D b → ∀ e ∈ fp.graph.predEdges b, D e.src) (h : Dead s D) (b : BlockId) :
    Dead (fp.step b s) D := by
  have hmerged : D b → fp.merged s b = .unreachable := by
    intro hb
    unfold merged
    split_ifs with heq
    · exact hentry (heq ▸ hb)
    · rw [(h b hb).1, Store.join_unreachable]
      unfold incoming
      have hall : ∀ es : List Edge, (∀ e ∈ es, D e.src) →
          es.foldl (fun (acc : Store) e => acc.join (fp.along e (s.storeAfter e.src)))
            .unreachable = .unreachable := by
        intro es hes
        induction es with
        | nil => rfl
        | cons e es ih =>
          obtain ⟨he, hrest⟩ := List.forall_mem_cons.1 hes
          rw [List.foldl_cons, (h e.src he).2, halong, Store.join_unreachable]
          exact ih hrest
      exact hall _ (hpred b hb)
  intro c hc
  rw [storeBefore_step, storeAfter_step]
  constructor
  · split_ifs with hbc
    · exact hmerged (hbc ▸ hc)
    · exact (h c hc).1
  · split_ifs with hbc
    · rw [hmerged (hbc.1 ▸ hc), htransfer]
    · exact (h c hc).2

/-- Whatever is dead at the start stays dead. -/
theorem unreachable_of_takesFirst (htransfer : ∀ b, fp.transfer b .unreachable = .unreachable)
    (halong : ∀ e, fp.along e .unreachable = .unreachable)
    (hentry : D fp.graph.entry → fp.entryStore = .unreachable)
    (hpred : ∀ b, D b → ∀ e ∈ fp.graph.predEdges b, D e.src) {order : List BlockId}
    (h : Relation.ReflTransGen fp.TakesFirst (.start order) s) : Dead s D := by
  induction h with
  | refl => exact fun _ _ => ⟨rfl, rfl⟩
  | @tail s _ _ hstep ih =>
    obtain ⟨b, rest, -, rfl⟩ := hstep
    have hrest : Dead { s with queue := rest } D := ih
    exact hrest.step htransfer halong hentry hpred b

/-- A block that a way from the entry leads to has stores without impossible variables. -/
theorem Settled.live (h : fp.Settled s) (hg : fp.graph.Wired) (hentry : fp.entryStore.Live)
    (htransfer : ∀ b (s : Store), s.Live → (fp.transfer b s).Live)
    (halong : ∀ e (s : Store), s.Live → (fp.along e s).Live) {b : BlockId}
    (hb : fp.graph.Connects fp.graph.entry b) :
    b ∈ fp.graph.nodes ∧ (s.storeBefore b).Live ∧ (s.storeAfter b).Live := by
  have hafter : ∀ {b}, b ∈ fp.graph.nodes → (s.storeBefore b).Live → (s.storeAfter b).Live := by
    intro b hb hlive
    rw [h.block b hb]
    exact htransfer b _ hlive
  have hstart : (s.storeBefore fp.graph.entry).Live := by
    rw [h.entry]
    exact hentry
  induction hb with
  | refl => exact ⟨hg.entry_mem, hstart, hafter hg.entry_mem hstart⟩
  | @tail b c _ hc ih =>
    obtain ⟨hb, -, hlive⟩ := ih
    obtain ⟨e, he, rfl⟩ := List.mem_map.1 hc
    obtain ⟨hsrc, hdst, hpred⟩ := hg.of_succ b hb e he
    have hbefore : (s.storeBefore e.dst).Live := by
      by_cases hentry : e.dst = fp.graph.entry
      · rw [hentry]
        exact hstart
      · refine (halong e _ ?_).mono (h.edge e.dst hdst hentry e hpred)
        rw [hsrc]
        exact hlive
    exact ⟨hdst, hbefore, hafter hdst hbefore⟩

end FlowProblem

/-! ### The analysis of a function -/

namespace FlowGraph

open EvalContext (Fresh)

variable {p : Program} {g : FlowGraph} {settings : Settings} {params : List VariableId}
  {b : BlockId}

theorem transfer_unreachable (p : Program) (g : FlowGraph) (settings : Settings) (b : BlockId) :
    g.transfer p settings b .unreachable = .unreachable := by
  simp [transfer, Store.isUnreachable]

theorem along_unreachable (p : Program) (g : FlowGraph) (e : Edge) :
    g.along p e .unreachable = .unreachable := by
  unfold along
  cases e.kind
  case branchTrue => exact Expr.narrowBy_unreachable true
  case branchFalse => exact Expr.narrowBy_unreachable false
  case switchCase => exact Expr.narrowByCase_unreachable _ _
  all_goals rfl

theorem live_along (p : Program) (g : FlowGraph) (e : Edge) {s : Store} (hs : s.Live) :
    (g.along p e s).Live := by
  unfold along
  cases e.kind
  case branchTrue => exact Expr.narrowBy_ne_bottom hs true
  case branchFalse => exact Expr.narrowBy_ne_bottom hs false
  case switchCase => exact Expr.live_narrowByCase _ _ hs
  case exception => exact hs.havoc _
  all_goals exact hs

/-- At no point of a run is there anything to know of the blocks that no way leads to. -/
theorem dead_of_not_connects (hcheck : g.check = .ok ()) {order : List BlockId} {s : Progress}
    (hsteps : Relation.ReflTransGen (g.problem p settings params).TakesFirst (.start order) s) :
    FlowProblem.Dead s fun b => b ∈ g.nodes ∧ ¬ g.Connects g.entry b := by
  have hg : g.Wired := wired_of_check hcheck
  apply FlowProblem.unreachable_of_takesFirst (transfer_unreachable p g settings)
    (along_unreachable p g) (fun hentry => absurd .refl hentry.2) ?_ hsteps
  -- An edge from a block that a way leads to shows a way to its other end.
  rintro b ⟨hb, hno⟩ e he
  exact ⟨(hg.of_pred b hb e he).2.1, fun hway => hno (hway.tail (hg.mem_succBlocks_src hb he))⟩

/-- What a contract assumes makes nothing impossible, unless it makes the body unreachable. -/
theorem live_entryStore (h : g.entryStore p settings params ≠ .unreachable) :
    (g.entryStore p settings params).Live := by
  have hassume : ∀ (contract : List (String × Tag)) (s : Store) (v : VariableId),
      s.Live ∨ s = .unreachable →
      (assume p contract s v).Live ∨ assume p contract s v = .unreachable := by
    intro contract s v hs
    unfold assume
    extract_lets param varId
    split
    · exact hs
    · split
      · exact hs
      · rename_i tag _
        split_ifs with _ hbottom
        · exact hs
        · exact .inr rfl
        · exact hs.imp (fun hlive => hlive.set hbottom _) fun heq => by rw [heq]; rfl
  have hfold : ∀ (contract : List (String × Tag)) (vs : List VariableId) (s : Store),
      s.Live ∨ s = .unreachable →
      (vs.foldl (assume p contract) s).Live ∨ vs.foldl (assume p contract) s = .unreachable := by
    intro contract vs
    induction vs with
    | nil => exact fun s hs => hs
    | cons v vs ih => exact fun s hs => ih _ (hassume contract s v hs)
  simp only [entryStore] at h ⊢
  split_ifs at h ⊢
  · exact Store.live_top
  · exact (hfold _ params .top (.inl Store.live_top)).resolve_right h

/-- Only what the expressions of dead blocks consist of, and operands of questions about sizes, are
tagged `bottom`. -/
theorem bottomWithin_annotateAll (p : Program) (g : FlowGraph) (settings : Settings)
    (order : List BlockId) (progress : Progress) (S : Set TokenId)
    (hdead : ∀ b ∈ order, progress.storeBefore b = .unreachable → ∀ u ∈ g.treeTokens p b, u ∈ S)
    (hlive : ∀ b ∈ order, progress.storeBefore b ≠ .unreachable → (progress.storeBefore b).Live ∧
      ∀ root ∈ p.expressionRoots (g.block b).tokens, ∀ u,
        p.InSizeOperand (p.expr root).subterms u → u ∈ S) :
    (g.annotateAll p settings order progress).BottomWithin S := by
  have hall : ∀ st : EvalState, st.BottomWithin S →
      (g.annotateBlocks p settings progress order st).BottomWithin S := by
    induction order with
    | nil => exact fun st h => h
    | cons b order ih =>
      intro st h
      refine ih (fun c hc => hdead c (List.mem_cons_of_mem _ hc))
        (fun c hc => hlive c (List.mem_cons_of_mem _ hc)) _ ?_
      have hstart : (st.on (progress.storeBefore b)).BottomWithin S := h
      by_cases hb : progress.storeBefore b = .unreachable
      · exact EvalContext.bottomWithin_evalRoots_of_unreachable (g.evalContext p settings) _ hb
          (hdead b (List.mem_cons_self ..) hb) hstart
      · obtain ⟨hstore, hsize⟩ := hlive b (List.mem_cons_self ..) hb
        exact EvalContext.keepsWithin_evalRoots (g.evalContext p settings) _ hstore hsize hstart
  refine hall {} fun u hu => ?_
  cases hu

section Analyze

variable {clock : Clock} {r : AnalysisResult}

theorem dead_of_analyze (h : g.analyze p settings params clock = .ok r) {D : BlockId → Prop}
    (hentry : D g.entry → g.entryStore p settings params = .unreachable)
    (hpred : ∀ b, D b → ∀ e ∈ g.predEdges b, D e.src) : FlowProblem.Dead r.progress D := by
  obtain ⟨-, hsteps, -⟩ := run_of_analyze h
  exact FlowProblem.unreachable_of_takesFirst (transfer_unreachable p g settings)
    (along_unreachable p g) hentry hpred hsteps

theorem unreachable_of_not_connects (h : g.analyze p settings params clock = .ok r)
    (hb : b ∈ g.nodes) (hno : ¬ g.Connects g.entry b) :
    r.progress.storeBefore b = .unreachable ∧ r.progress.storeAfter b = .unreachable := by
  obtain ⟨hcheck, hsteps, -⟩ := run_of_analyze h
  exact dead_of_not_connects hcheck hsteps b ⟨hb, hno⟩

theorem live_of_connects (h : g.analyze p settings params clock = .ok r)
    (hopen : g.entryStore p settings params ≠ .unreachable) (hway : g.Connects g.entry b) :
    (r.progress.storeBefore b).Live ∧ (r.progress.storeAfter b).Live := by
  have hg : (g.problem p settings params).graph.Wired := wired_of_check (run_of_analyze h).1
  exact ((settled_of_analyze h).live hg (live_entryStore hopen)
    (fun b _ => live_transfer p g settings b) (fun e _ => live_along p g e) hway).2

/-- The turn of a block in the last pass. -/
theorem turn_of_analyze (h : g.analyze p settings params clock = .ok r)
    (hapart : ∀ b ∈ g.nodes, ∀ c ∈ g.nodes, b ≠ c →
      ∀ u ∈ g.treeTokens p b, u ∉ g.treeTokens p c) (hb : b ∈ g.nodes) :
    ∃ st : EvalState, st.store = r.progress.storeBefore b ∧ Fresh (g.treeTokens p b) st ∧
      ∀ u ∈ g.treeTokens p b, r.annotations.get? u =
        ((g.evalContext p settings).evalBlock (g.block b).tokens st).annotations.get? u := by
  obtain ⟨hcheck, -, -, hannotations, -⟩ := run_of_analyze h
  have hg : g.Wired := wired_of_check hcheck
  obtain ⟨st, later, hstore, hfresh, hlater, hmissed⟩ :=
    exists_turn (p := p) settings r.progress (reversePostorder_nodup hg.nodup)
      (mem_reversePostorder hb) fun c hc hcb =>
        hapart b hb c (mem_nodes_of_mem_reversePostorder hg hc) (Ne.symm hcb)
  refine ⟨st, hstore, hfresh, fun u hu => ?_⟩
  rw [hannotations]
  exact hlater.annotations u (hmissed u hu)

/-- Where the tag `bottom` comes from. -/
theorem origin_of_bottom (h : g.analyze p settings params clock = .ok r)
    (hopen : g.entryStore p settings params ≠ .unreachable) {u : TokenId}
    (hu : r.annotations.get? u = some .bottom) :
    ∃ b ∈ g.nodes, ¬ g.Connects g.entry b ∧ u ∈ g.treeTokens p b ∨
      ∃ root ∈ p.expressionRoots (g.block b).tokens,
        p.InSizeOperand (p.expr root).subterms u := by
  obtain ⟨hcheck, -, -, hannotations, -⟩ := run_of_analyze h
  have hnode := fun b hb => mem_nodes_of_mem_reversePostorder (wired_of_check hcheck) (b := b) hb
  rw [hannotations] at hu
  refine bottomWithin_annotateAll p g settings g.reversePostorder r.progress
    { u | ∃ b ∈ g.nodes, ¬ g.Connects g.entry b ∧ u ∈ g.treeTokens p b ∨
      ∃ root ∈ p.expressionRoots (g.block b).tokens, p.InSizeOperand (p.expr root).subterms u }
    (fun b hb hstore u hu => ?_) (fun b hb hstore => ?_) u hu
  · have hno : ¬ g.Connects g.entry b := fun hway =>
      (live_of_connects h hopen hway).1.ne_unreachable hstore
    exact ⟨b, hnode b hb, .inl ⟨hno, hu⟩⟩
  · have hway : g.Connects g.entry b := not_not.1 fun hno =>
      hstore (unreachable_of_not_connects h (hnode b hb) hno).1
    exact ⟨(live_of_connects h hopen hway).1,
      fun root hroot u hu => ⟨b, hnode b hb, .inr ⟨root, hroot, hu⟩⟩⟩

/-- **`bottom` marks dead code.**  Let no token occur in the expressions of two blocks.  If the
contract of the function lets its body be reached, then the stores of a block are unreachable
exactly if no way leads to it from the entry, and the others have no impossible variables.  A token
is tagged `bottom` only if it belongs to a block that no way leads to or lies in the operand of a
question about sizes; all tokens of the expressions of such a block are, and so is the operand of a
question that is asked, in a block whose expressions share no token.  If the contract does not let
the body be reached, no store is reachable. -/
theorem bottom_marks_dead_code (h : g.analyze p settings params clock = .ok r)
    (hapart : ∀ b ∈ g.nodes, ∀ c ∈ g.nodes, b ≠ c →
      ∀ u ∈ g.treeTokens p b, u ∉ g.treeTokens p c) :
    (g.entryStore p settings params ≠ .unreachable →
      (∀ b ∈ g.nodes,
        (r.progress.storeBefore b = .unreachable ↔ ¬ g.Connects g.entry b) ∧
        (r.progress.storeAfter b = .unreachable ↔ ¬ g.Connects g.entry b) ∧
        (r.progress.storeBefore b ≠ .unreachable → (r.progress.storeBefore b).Live) ∧
        (r.progress.storeAfter b ≠ .unreachable → (r.progress.storeAfter b).Live)) ∧
      (∀ u, r.annotations.get? u = some .bottom →
        ∃ b ∈ g.nodes, ¬ g.Connects g.entry b ∧ u ∈ g.treeTokens p b ∨
          ∃ root ∈ p.expressionRoots (g.block b).tokens,
            p.InSizeOperand (p.expr root).subterms u) ∧
      (∀ b ∈ g.nodes, ¬ g.Connects g.entry b →
        ∀ u ∈ g.treeTokens p b, r.annotations.get? u = some .bottom) ∧
      (∀ b ∈ g.nodes, (g.treeTokens p b).Nodup →
        ∀ u, p.InSizeOperand (p.evaluatedIn (p.expressionRoots (g.block b).tokens)) u →
          r.annotations.get? u = some .bottom)) ∧
    (g.entryStore p settings params = .unreachable →
      ∀ b ∈ g.nodes,
        r.progress.storeBefore b = .unreachable ∧ r.progress.storeAfter b = .unreachable) := by
  have hg : g.Wired := wired_of_check (run_of_analyze h).1
  refine ⟨fun hopen => ?_, fun hclosed b hb => ?_⟩
  -- Stores come first: they settle which blocks the last pass finds unreachable.
  · have hcut := fun b (hb : b ∈ g.nodes) hno => unreachable_of_not_connects h hb hno
    have hlive := fun b (hway : g.Connects g.entry b) => live_of_connects h hopen hway
    have hdead : ∀ b ∈ g.nodes, ¬ g.Connects g.entry b →
        ∀ u ∈ g.treeTokens p b, r.annotations.get? u = some .bottom := by
      intro b hb hno u hu
      obtain ⟨st, hstore, -, htags⟩ := turn_of_analyze h hapart hb
      rw [htags u hu]
      exact EvalContext.get?_evalRoots_of_unreachable _ (hstore.trans (hcut b hb hno).1) (.inl hu)
    refine ⟨fun b hb => ?_, fun u hu => ?_, hdead, fun b hb hnodup u hu => ?_⟩
    · by_cases hway : g.Connects g.entry b
      · obtain ⟨hbefore, hafter⟩ := hlive b hway
        simp [hway, hbefore, hafter, hbefore.ne_unreachable, hafter.ne_unreachable]
      · obtain ⟨hbefore, hafter⟩ := hcut b hb hway
        simp [hway, hbefore, hafter]
    · exact origin_of_bottom h hopen hu
    -- A question that is asked in a dead block is tagged with the whole block.
    · have hmem : u ∈ g.treeTokens p b := hu.mem_treeTokens
      by_cases hway : g.Connects g.entry b
      · obtain ⟨st, hstore, hfresh, htags⟩ := turn_of_analyze h hapart hb
        rw [htags u hmem]
        have hst : st.store.Live := hstore ▸ (hlive b hway).1
        have htree : ((g.evalContext p settings).program.treeTokens
            (p.expressionRoots (g.block b).tokens)).Nodup := hnodup
        exact EvalContext.unrun_evalRoots htree hfresh hst hu
      · exact hdead b hb hway u hmem
  · refine dead_of_analyze h (D := fun b => b ∈ g.nodes) (fun _ => hclosed) ?_ b hb
    exact fun b hb e he => (hg.of_pred b hb e he).2.1

end Analyze

end FlowGraph

/-! ### A question about sizes, and a statement behind it -/

/-- `return sizeof(x); y = 0;` -/
def sizeReturned : Program where
  tokens := #[
    { text := "return", left := some 1 },
    { text := "(", left := some 2, right := some 3, parent := some 0 },
    { text := "sizeof", parent := some 1 },
    { text := "x", parent := some 1 },
    { text := "=", left := some 5, right := some 6 },
    { text := "y", parent := some 4 },
    { text := "0", isNumber := true, parent := some 4 }]

/-- Its graph: entry, exit, and the two statements, the second one being dead. -/
def sizeReturnedGraph : FlowGraph where
  blocks := #[
    { id := 0, kind := .entry, succs := [0] },
    { id := 1, kind := .exit, preds := [1, 2] },
    { id := 2, tokens := [0, 1, 2, 3], succs := [1], preds := [0] },
    { id := 3, kind := .unreachable, tokens := [4, 5, 6], succs := [2] }]
  edges := #[
    { src := 0, dst := 2 },
    { src := 2, dst := 1, kind := .returnOut },
    { src := 3, dst := 1 }]
  nodes := [0, 1, 2, 3]
  listed := [0, 1, 2]

theorem analyze_sizeReturned : ∃ r, sizeReturnedGraph.analyze sizeReturned {} [] = .ok r := by
  have hrun : (sizeReturnedGraph.analyze sizeReturned {} []).toOption.isSome = true := by
    decide +kernel
  cases h : sizeReturnedGraph.analyze sizeReturned {} [] with
  | error e =>
    rw [h] at hrun
    cases hrun
  | ok r => exact ⟨r, rfl⟩

theorem not_connects_sizeReturned : ¬ sizeReturnedGraph.Connects 0 3 := by
  intro hway
  rcases Relation.ReflTransGen.cases_tail hway with heq | ⟨b, -, hb⟩
  · cases heq
  · -- No edge enters the block.
    have hnone : ∀ b, ∀ c ∈ sizeReturnedGraph.succBlocks b, c ≠ 3 :=
      FlowGraph.forall_succBlocks (by decide)
    exact hnone b 3 hb rfl

theorem bottom_marks_dead_code_sizeReturned : ∃ r,
    sizeReturnedGraph.analyze sizeReturned {} [] = .ok r ∧
    r.progress.storeBefore 3 = .unreachable ∧ (r.progress.storeBefore 2).Live ∧
    r.annotations.get? 3 = some .bottom ∧ r.annotations.get? 5 = some .bottom := by
  obtain ⟨r, hr⟩ := analyze_sizeReturned
  obtain ⟨hopen, -⟩ := FlowGraph.bottom_marks_dead_code hr (by decide)
  obtain ⟨hstores, -, hdead, hasked⟩ := hopen (by decide)
  have hway : sizeReturnedGraph.Connects 0 2 := .single (by decide)
  refine ⟨r, hr, ?_, ?_, ?_, ?_⟩
  · exact (hstores 3 (by decide)).1.2 not_connects_sizeReturned
  · refine (hstores 2 (by decide)).2.2.1 fun hcut => ?_
    exact (hstores 2 (by decide)).1.1 hcut hway
  · refine hasked 2 (by decide) (by decide) 3 ⟨1, .node 2 .absent .absent, .node 3 .absent .absent,
      by decide, by decide, by decide⟩
  · exact hdead 3 (by decide) not_connects_sizeReturned 5 (by decide)

/-! ### Operands that are not marked -/

/-- The graph of a body without branches. -/
def straightGraph (ts : List TokenId) : FlowGraph where
  blocks := #[
    { id := 0, kind := .entry, succs := [0] },
    { id := 1, kind := .exit, preds := [1] },
    { id := 2, tokens := ts, succs := [1], preds := [0] }]
  edges := #[{ src := 0, dst := 2 }, { src := 2, dst := 1 }]
  nodes := [0, 1, 2]
  listed := [0, 1]

/-- `sizeof(x)` in the body of a lambda. -/
def querySkipped : Program where
  tokens := #[
    { text := "(", left := some 1, right := some 2, scope := some 0 },
    { text := "sizeof", parent := some 0, scope := some 0 },
    { text := "x", parent := some 0, scope := some 0 }]
  scopes := #[{ kind := "Lambda" }]

/-- `sizeof(x)` and `-x`, both with the same token `x`. -/
def operandShared : Program where
  tokens := #[
    { text := "(", left := some 1, right := some 2 },
    { text := "sizeof", parent := some 0 },
    { text := "x", parent := some 3 },
    { text := "-", left := some 2 }]

theorem analyze_querySkipped : ∃ r, (straightGraph [0, 1, 2]).analyze querySkipped {} [] = .ok r ∧
    r.annotations.get? 2 = none := by
  have hrun : ((straightGraph [0, 1, 2]).analyze querySkipped {} []).toOption.any
      (fun r => r.annotations.get? 2 = none) = true := by decide +kernel
  cases h : (straightGraph [0, 1, 2]).analyze querySkipped {} [] with
  | error e =>
    rw [h] at hrun
    cases hrun
  | ok r =>
    rw [h] at hrun
    exact ⟨r, rfl, of_decide_eq_true hrun⟩

theorem analyze_operandShared :
    ∃ r, (straightGraph [0, 1, 2, 3]).analyze operandShared {} [] = .ok r ∧
      r.annotations.get? 2 = some .top := by
  have hrun : ((straightGraph [0, 1, 2, 3]).analyze operandShared {} []).toOption.any
      (fun r => r.annotations.get? 2 = some .top) = true := by decide +kernel
  cases h : (straightGraph [0, 1, 2, 3]).analyze operandShared {} [] with
  | error e =>
    rw [h] at hrun
    cases hrun
  | ok r =>
    rw [h] at hrun
    exact ⟨r, rfl, of_decide_eq_true hrun⟩

/-- **Not all operands of questions about sizes are marked.**  One in the body of a lambda is not
evaluated and has no tag at all.  One that is also used outside its question, in the same block, has
the tag that it gets there. -/
theorem size_operands_not_marked :
    (¬ ∀ (p : Program) (g : FlowGraph) (settings : Settings) (params : List VariableId)
      (r : AnalysisResult), g.analyze p settings params = .ok r →
      (∀ b ∈ g.nodes, ∀ c ∈ g.nodes, b ≠ c → ∀ u ∈ g.treeTokens p b, u ∉ g.treeTokens p c) →
      g.entryStore p settings params ≠ .unreachable →
      ∀ u, r.annotations.get? u = some .bottom ↔
        (∃ b ∈ g.nodes, ¬ g.Connects g.entry b ∧ u ∈ g.treeTokens p b) ∨
        ∃ t ∈ g.tokens, p.isSizeQuery t = true ∧ u ∈ (p.exprOf (p.token t).right).tokens) ∧
    ¬ ∀ (p : Program) (g : FlowGraph) (settings : Settings) (params : List VariableId)
      (r : AnalysisResult), g.analyze p settings params = .ok r →
      (∀ b ∈ g.nodes, ∀ c ∈ g.nodes, b ≠ c → ∀ u ∈ g.treeTokens p b, u ∉ g.treeTokens p c) →
      g.entryStore p settings params ≠ .unreachable →
      ∀ b ∈ g.nodes, ∀ u, p.InSizeOperand (p.evaluatedIn (p.expressionRoots (g.block b).tokens)) u →
        r.annotations.get? u = some .bottom := by
  constructor
  · intro hclaim
    obtain ⟨r, hr, hnone⟩ := analyze_querySkipped
    have hmarked := (hclaim _ _ {} [] r hr (by decide) (by decide) 2).2
      (.inr ⟨0, by decide, by decide, by decide⟩)
    rw [hnone] at hmarked
    cases hmarked
  · intro hclaim
    obtain ⟨r, hr, htop⟩ := analyze_operandShared
    have hmarked := hclaim _ _ {} [] r hr (by decide) (by decide) 2 (by decide) 2
      ⟨0, .node 1 .absent .absent, .node 2 .absent .absent, by decide, by decide, by decide⟩
    rw [htop] at hmarked
    cases hmarked

end DivisorCheck
