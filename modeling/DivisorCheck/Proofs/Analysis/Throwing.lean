/-
  What is known where an exception is caught.

  An exception may leave a block before any of its writes.  Along an exception edge,
  therefore, nothing is known about the variables that the block assigns; about the
  others evaluation only ever forgets, so what is known of them after the block was
  known at every point within it.  Together with an edge from each block of the body
  of a `try` to each of its handlers, this makes the store before a handler good for
  every state that the body can throw in.
-/
import DivisorCheck.Proofs.Analysis.Dead
import DivisorCheck.Proofs.Flow.Visited

namespace DivisorCheck

namespace EvalContext

variable {cx : EvalContext} {st : EvalState}

/-- What is known after some of the expressions covers what is known after all of them, apart from
the variables that they assign. -/
theorem evalRoots_take_le_havoc (cx : EvalContext) {roots ts : List TokenId} {s : Store}
    (hs : s = .unreachable ∨ s.Live) (hts : ∀ u ∈ cx.program.treeTokens roots, u ∈ ts) (k : Nat) :
    ((roots.take k).foldl cx.evalRoot { store := s }).store.le
      ((roots.foldl cx.evalRoot { store := s }).store.havoc (cx.program.assigned ts)) = true := by
  rcases hs with rfl | hlive
  · rw [evalRoots_of_unreachable _ rfl, evalRoots_of_unreachable _ rfl]
    rfl
  have hend : (roots.foldl cx.evalRoot { store := s }).store ≠ .unreachable :=
    (live_evalRoots cx roots hlive).ne_unreachable
  refine Store.le_iff.2 fun v => ?_
  rw [Store.get_havoc hend]
  split_ifs with hv
  · exact Tag.le_top _
  · -- The expressions that are still to come change a variable that they do not assign only upwards.
    have hframe := frame_evalRoots cx (roots.drop k) ((roots.take k).foldl cx.evalRoot { store := s })
    rw [← List.foldl_append, List.take_append_drop] at hframe
    refine hframe.store v fun t ht hassigns => hv ?_
    obtain ⟨root, hroot, htree⟩ := List.mem_flatMap.1 ht
    have hmem : t ∈ ts := hts t (List.mem_flatMap.2 ⟨root, List.mem_of_mem_drop hroot, htree⟩)
    rw [Program.assigned, List.mem_eraseDups]
    exact List.mem_filterMap.2 ⟨t, hmem, hassigns⟩

end EvalContext

namespace FlowGraph

variable {p : Program} {g : FlowGraph} {settings : Settings} {params : List VariableId}
  {clock : Clock} {r : AnalysisResult} {b h : BlockId}

/-- The store after the first top-level expressions of a block, given the store before it. -/
def storeWithin (p : Program) (g : FlowGraph) (settings : Settings) (b : BlockId) (k : Nat)
    (s : Store) : Store :=
  (((p.expressionRoots (g.block b).tokens).take k).foldl (g.evalContext p settings).evalRoot
    { store := s }).store

/-- What arrives along an exception edge covers every store within its block. -/
theorem storeWithin_le_along {e : Edge} (hsrc : e.src = b) (hkind : e.kind = .exception) {s : Store}
    (hs : s = .unreachable ∨ s.Live) (htokens : ∀ u ∈ g.treeTokens p b, u ∈ (g.block b).tokens)
    (k : Nat) :
    (g.storeWithin p settings b k s).le (g.along p e (g.transfer p settings b s)) = true := by
  have hcovers : (g.storeWithin p settings b k s).le
      (((g.evalContext p settings).evalBlock (g.block b).tokens { store := s }).store.havoc
        (p.assigned (g.block b).tokens)) = true :=
    EvalContext.evalRoots_take_le_havoc (g.evalContext p settings) hs htokens k
  have halong : ∀ s', g.along p e s' = s'.havoc (p.assigned (g.block b).tokens) := by
    intro s'
    unfold along
    rw [hkind, hsrc]
  rw [halong, transfer_eq]
  exact hcovers

/-- Where an exception edge leads, every store within its block is covered. -/
theorem storeWithin_le_of_throws (hg : g.Sound) (hentry : (g.block 0).kind = .entry)
    (hr : g.analyze p settings params clock = .ok r) (hthrows : g.Throws b h)
    (hway : g.Connects g.entry b) (htokens : ∀ u ∈ g.treeTokens p b, u ∈ (g.block b).tokens)
    (k : Nat) :
    (g.storeWithin p settings b k (r.progress.storeBefore b)).le (r.progress.storeBefore h) = true := by
  have hsettled := settled_of_analyze hr
  have hwired := wired_of_check (run_of_analyze hr).1
  have hlive : r.progress.storeBefore b = .unreachable ∨ (r.progress.storeBefore b).Live := by
    by_cases hopen : g.entryStore p settings params = .unreachable
    · exact .inl (dead_of_analyze hr (D := fun _ => True) (fun _ => hopen) (fun _ _ _ _ => trivial) b
        trivial).1
    · exact .inr (live_of_connects hr hopen hway).1
  rcases hthrows with hedge | hdead
  · obtain ⟨hlegal, -⟩ := hg.legal_of_mem hedge
    have hb : b ∈ g.nodes := by
      rw [hg.nodes, List.mem_range]
      exact hlegal.held
    obtain ⟨-, hdst, hpred⟩ := hwired.of_succ b hb _ hedge
    have hne : h ≠ g.entry := by
      rw [hg.entry]
      exact hlegal.target.ne_entry
    have hbefore := hsettled.edge h hdst hne _ hpred
    rw [hsettled.block b hb] at hbefore
    have hwithin : (g.storeWithin p settings b k (r.progress.storeBefore b)).le _ = true :=
      storeWithin_le_along (e := { src := b, dst := h, kind := .exception }) rfl rfl hlive htokens k
    exact Store.le_trans hwithin hbefore
  · -- No way leads to dead code.
    exfalso
    rcases Relation.ReflTransGen.cases_tail hway with heq | ⟨c, -, hc⟩
    · rw [heq, hg.entry, hentry] at hdead
      cases hdead
    · obtain ⟨e, he, rfl⟩ := List.mem_map.1 hc
      have hpred := hg.predEdges_of_unreachable hdead
      obtain ⟨i, hi, hedge, -⟩ := hg.mem_succEdges.1 he
      have hmem : e ∈ g.predEdges e.dst := hg.mem_predEdges.2 ⟨i, hi, hedge, rfl⟩
      rw [hpred] at hmem
      cases hmem

end FlowGraph

/-- **A handler covers every state that its `try` can throw in.** -/
theorem Program.handlers_cover {p : Program} {f : FunctionId} {g : FlowGraph} {first last : TokenId}
    {settings : Settings} {params : List VariableId} {clock : Clock} {r : AnalysisResult}
    (hf : p.functionBody? f = some (first, last)) (hg : p.flowGraph f = .ok (some g))
    (hr : g.analyze p settings params clock = .ok r) {depth : Nat} {v : Visit}
    (hv : Body.Reaches p (p.function f).name first last (depth + 1) v) {t brace close : TokenId}
    (ht : v.start = some t) (hword : p.text t = "try")
    (hbody : Body.braced? p (p.nextOf t) = some (brace, close)) :
    ∃ clauses w, Body.TriedIn p v brace close clauses w ∧
      Body.Reaches p (p.function f).name first last depth w ∧
      ∃ a s, (Body.statement p depth).answer w = .ok (a, s) ∧
        ∀ b, w.placed s b ≠ [] → g.Connects g.entry b →
          (∀ u ∈ g.treeTokens p b, u ∈ (g.block b).tokens) →
            ∀ h ∈ clauses.map (·.2), ∀ k,
              (g.storeWithin p settings b k (r.progress.storeBefore b)).le
                (r.progress.storeBefore h) = true := by
  obtain ⟨first', last', hf', hof⟩ := Program.exists_ofBody hg
  obtain ⟨rfl, rfl⟩ := Prod.mk.inj (Option.some.inj (hf.symm.trans hf'))
  obtain ⟨out, s', M, hrow, -, hstretch, hbuilt⟩ := Body.built_of_ofBody hof
  obtain ⟨clauses, w, htried, hw⟩ := Body.exists_tryBody hrow hv ht hword hbody
  obtain ⟨a, s, hanswer, hstands⟩ := Body.stands_of_reaches hrow hw
  refine ⟨clauses, w, htried, hw, a, s, hanswer, fun b hplaced hway htokens h hh k => ?_⟩
  have hhandlers : w.targets.handlers = some (clauses.map (·.2)) := by
    obtain ⟨tryBlock, s₀, -, rfl⟩ := htried
    rfl
  have hthrows := Body.throws_of_placed hbuilt hstretch.sound hstands hanswer hhandlers hplaced hh
  exact FlowGraph.storeWithin_le_of_throws hbuilt.sound (congrArg Look.kind hbuilt.entry) hr hthrows
    hway htokens k

/-- `{ try { d = 0; d = 2; } catch (int e) { return 10 / d; } }` -/
def triedWrites : Program where
  tokens := #[
    { text := "\x7b", next := some 1, link := some 24 },
    { text := "try", next := some 2, isName := true },
    { text := "\x7b", next := some 3, link := some 11 },
    { text := "d", next := some 4, isName := true, varId := 1, var := some 0, parent := some 4 },
    { text := "=", next := some 5, left := some 3, right := some 5 },
    { text := "0", next := some 6, isNumber := true, parent := some 4 },
    { text := ";", next := some 7 },
    { text := "d", next := some 8, isName := true, varId := 1, var := some 0, parent := some 8 },
    { text := "=", next := some 9, left := some 7, right := some 9 },
    { text := "2", next := some 10, isNumber := true, parent := some 8 },
    { text := ";", next := some 11 },
    { text := "\x7d", next := some 12, link := some 2 },
    { text := "catch", next := some 13, isName := true },
    { text := "(", next := some 14, link := some 16 },
    { text := "int", next := some 15, isName := true },
    { text := "e", next := some 16, isName := true },
    { text := ")", next := some 17, link := some 13 },
    { text := "\x7b", next := some 18, link := some 23 },
    { text := "return", next := some 19, isName := true, left := some 20 },
    { text := "10", next := some 20, isNumber := true, parent := some 20 },
    { text := "/", next := some 21, left := some 19, right := some 21, parent := some 18 },
    { text := "d", next := some 22, isName := true, varId := 1, var := some 0, parent := some 20 },
    { text := ";", next := some 23 },
    { text := "\x7d", next := some 24, link := some 17 },
    { text := "\x7d", link := some 0 }]
  vars := #[{ id := 1, isLocal := true }]
  functions := #[{ name := some "f" }]
  scopes := #[{ kind := "Function", function := some 0, bodyStart := some 0, bodyEnd := some 24 }]

/-- The reading of the `try` in `triedWrites`. -/
def triedWritesVisit : Visit where
  targets := {}
  limit := 24
  start := some 1
  current := some 2
  builder := Body.begun (some "f")

theorem analyze_triedWrites : ∃ g r, triedWrites.flowGraph 0 = .ok (some g) ∧
    g.analyze triedWrites {} [] = .ok r ∧ g.entry = 0 ∧ 2 ∈ g.succBlocks 0 ∧ 3 ∈ g.succBlocks 2 ∧
    ∀ u ∈ g.treeTokens triedWrites 3, u ∈ (g.block 3).tokens := by
  have hrun : triedWrites.buildsTo 0 (fun g => (g.analyze triedWrites {} []).toOption.isSome ∧
      g.entry = 0 ∧ 2 ∈ g.succBlocks 0 ∧ 3 ∈ g.succBlocks 2 ∧
      ∀ u ∈ g.treeTokens triedWrites 3, u ∈ (g.block 3).tokens) = true := by decide +kernel
  obtain ⟨g, hg, htest⟩ := Program.exists_of_buildsTo hrun
  obtain ⟨hresult, hrest⟩ := of_decide_eq_true htest
  cases hr : g.analyze triedWrites {} [] with
  | error e =>
    rw [hr] at hresult
    cases hresult
  | ok r => exact ⟨g, r, hg, hr, hrest⟩

theorem placed_triedWrites {clauses : List (TokenId × BlockId)} {w : Visit} {a : AfterStatement}
    {s : BodyBuilder} (hw : Body.TriedIn triedWrites triedWritesVisit 2 11 clauses w)
    (hanswer : (Body.statement triedWrites 1457).answer w = .ok (a, s)) :
    clauses.map (·.2) = [4] ∧ w.placed s 3 ≠ [] := by
  have htest : (match Body.openTry triedWrites (some 2) 11 (Body.begun (some "f")) with
      | .error _ => false
      | .ok ((tryBlock, clauses), s₀) =>
        let w : Visit := ⟨{ handlers := some (clauses.map (·.2)) }, 24, some 2, some tryBlock, s₀⟩
        match (Body.statement triedWrites 1457).answer w with
        | .error _ => false
        | .ok (_, s) => decide (clauses.map (·.2) = [4] ∧ w.placed s 3 ≠ [])) = true := by
    decide +kernel
  obtain ⟨tryBlock, s₀, hopen, rfl⟩ := hw
  simp only [triedWritesVisit] at hopen hanswer ⊢
  simp only [hopen, hanswer] at htest
  exact of_decide_eq_true htest

theorem handlers_cover_triedWrites : ∃ g r, triedWrites.flowGraph 0 = .ok (some g) ∧
    g.analyze triedWrites {} [] = .ok r ∧ ∀ k,
      (g.storeWithin triedWrites {} 3 k (r.progress.storeBefore 3)).le (r.progress.storeBefore 4) =
        true := by
  obtain ⟨g, r, hg, hr, hentry, hfirst, hsecond, htokens⟩ := analyze_triedWrites
  have hv : Body.Reaches triedWrites (some "f") 0 24 (1457 + 1) triedWritesVisit :=
    Body.reaches_first rfl (by decide)
  have hf : triedWrites.functionBody? 0 = some (0, 24) := by decide
  have hbody : Body.braced? triedWrites (triedWrites.nextOf 1) = some (2, 11) := by decide
  obtain ⟨clauses, w, hw, -, a, s, hanswer, hcovers⟩ :=
    Program.handlers_cover hf hg hr hv rfl (by decide) hbody
  obtain ⟨hclauses, hplaced⟩ := placed_triedWrites hw hanswer
  have hway : g.Connects g.entry 3 := by
    rw [hentry]
    exact .tail (.single hfirst) hsecond
  refine ⟨g, r, hg, hr, fun k => hcovers 3 hplaced hway htokens 4 ?_ k⟩
  rw [hclauses]
  exact List.mem_singleton_self 4

end DivisorCheck
