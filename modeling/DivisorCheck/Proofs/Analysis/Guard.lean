/-
  What a guard is worth in the end.

  Behind `if (v != 0)` one expects `v` to be nonzero.  The store before the
  guarded block is not computed from the final store at the guard, though: it is
  the join of what came along the edge at every turn of the block.  An early turn
  may have found `v` to be zero at the guard, before a loop that leads back there
  gave `v` another value, and narrowing keeps a definite fact that contradicts what
  the branch asserts.  That zero stays in the join.

  `guard_survives` says exactly when: if nothing is known about `v` at the guard in
  the end, then behind it `v` is `nonZero`, unless some turn of the block saw a
  zero there (`SawZero`), and `top` if one did.  The invariant that carries the run
  is `zero_le_before_iff`; whether the guard holds depends on nothing else.
-/
import DivisorCheck.Proofs.Analysis.Settling

namespace DivisorCheck

/-! ### Conditions -/

namespace Tag

/-- Zero is below a join only if it is below one of the sides. -/
theorem zero_le_join_iff {a b : Tag} :
    zero.le (a.join b) = true ↔ zero.le a = true ∨ zero.le b = true := by
  cases a <;> cases b <;> simp [join, le]

/-- Of all tags, only `zero` survives as zero when a branch asserts the contrary. -/
theorem zero_le_narrow_nonZero_iff {a : Tag} :
    zero.le (a.narrow .nonZero) = true ↔ a = .zero := by
  cases a <;> decide

end Tag

namespace Expr

variable {p : Program} {e : Expr} {v : VarId}

/-- A condition that holds just when the variable is not zero: the variable alone, or a comparison
`v != 0`. -/
def TestsNonZero (p : Program) (v : VarId) : Expr → Prop
  | absent => False
  | node t l r =>
    p.isCast t = false ∧
      ((p.text t = "!=" ∧ (l.stripCasts p).trackedVar? p = some v ∧
          (r.stripCasts p).isZeroLiteral p = true) ∨
        (p.text t ≠ "&&" ∧ l = absent ∧ r = absent ∧ p.trackedVar? t = some v))

theorem isAbsent_eq_false_of_stripCasts_ne (h : e.stripCasts p ≠ absent) : e.isAbsent = false := by
  cases e with
  | absent => exact absurd rfl h
  | node t l r => rfl

/-- Taking such a branch narrows that one variable. -/
theorem TestsNonZero.narrowBy (h : e.TestsNonZero p v) (escaped : List VarId) (s : Store) :
    e.narrowBy p escaped true s = s.narrow v .nonZero := by
  cases e with
  | absent => exact h.elim
  | node t l r =>
    obtain ⟨hcast, ⟨hop, hv, hzero⟩ | ⟨hand, rfl, rfl, hv⟩⟩ := h
    · have hl : l.isAbsent = false := by
        refine isAbsent_eq_false_of_stripCasts_ne (p := p) fun hl => ?_
        rw [hl] at hv
        cases hv
      have hr : r.isAbsent = false := by
        refine isAbsent_eq_false_of_stripCasts_ne (p := p) fun hr => ?_
        rw [hr] at hzero
        cases hzero
      simp [Expr.narrowBy, hcast, hop, hl, hr, comparedWithZero?, hzero, assertZero, hv]
    · have htop : (node t absent absent).trackedVar? p = some v := hv
      simp [Expr.narrowBy, hcast, hand, isAbsent, assertZero, htop]

end Expr

/-! ### The turns of a block -/

namespace FlowProblem

variable {fp : FlowProblem} {start s : Progress} {b c : BlockId} {v : VarId}

/-- At some turn of `b` on the way from `start` to `s`, the variable was zero after `c`. -/
def SawZero (fp : FlowProblem) (start s : Progress) (b c : BlockId) (v : VarId) : Prop :=
  ∃ turn, Relation.ReflTransGen fp.TakesFirst start turn ∧ turn.queue.head? = some b ∧
    (turn.storeAfter c).get v = .zero ∧ Relation.TransGen fp.TakesFirst turn s

theorem iterations_step (b : BlockId) (s : Progress) :
    (fp.step b s).iterations = s.iterations + 1 := by
  simp only [step]
  split_ifs <;> rfl

theorem TakesFirst.iterations {s s' : Progress} (h : fp.TakesFirst s s') :
    s'.iterations = s.iterations + 1 := by
  obtain ⟨b, rest, -, rfl⟩ := h
  exact iterations_step b _

theorem iterations_lt_of_transGen {s s' : Progress} (h : Relation.TransGen fp.TakesFirst s s') :
    s.iterations < s'.iterations := by
  induction h with
  | single hstep =>
    have := hstep.iterations
    omega
  | tail _ hstep ih =>
    have := hstep.iterations
    omega

/-- Taking the first block leaves no choice. -/
theorem takesFirst_rightUnique : Relator.RightUnique fp.TakesFirst := by
  rintro s _ _ ⟨b, rest, hq, rfl⟩ ⟨b', rest', hq', rfl⟩
  rw [hq] at hq'
  cases hq'
  rfl

/-- What comes before the end of one more step comes before that step, or is its beginning. -/
theorem reflTransGen_of_transGen_tail {turn s' : Progress}
    (hturn : Relation.ReflTransGen fp.TakesFirst start turn)
    (hs : Relation.ReflTransGen fp.TakesFirst start s) (hstep : fp.TakesFirst s s')
    (h : Relation.TransGen fp.TakesFirst turn s') :
    Relation.ReflTransGen fp.TakesFirst turn s := by
  rcases Relation.ReflTransGen.total_of_right_unique takesFirst_rightUnique hturn hs with hle | hge
  · exact hle
  · rcases Relation.reflTransGen_iff_eq_or_transGen.1 hge with rfl | hlt
    · exact .refl
    · -- No state comes after itself, since each step counts one iteration more.
      have h₁ := iterations_lt_of_transGen hlt
      have h₂ := iterations_lt_of_transGen h
      have h₃ := hstep.iterations
      omega

/-- One more step has seen a zero if the steps before have, or if it is a turn of the block and
finds one. -/
theorem sawZero_tail_iff {s' : Progress} (hs : Relation.ReflTransGen fp.TakesFirst start s)
    (hstep : fp.TakesFirst s s') :
    fp.SawZero start s' b c v ↔
      fp.SawZero start s b c v ∨ (s.queue.head? = some b ∧ (s.storeAfter c).get v = .zero) := by
  constructor
  · rintro ⟨turn, hturn, hhead, hzero, hlater⟩
    have hle := reflTransGen_of_transGen_tail hturn hs hstep hlater
    rcases Relation.reflTransGen_iff_eq_or_transGen.1 hle with rfl | hlt
    · exact .inr ⟨hhead, hzero⟩
    · exact .inl ⟨turn, hturn, hhead, hzero, hlt⟩
  · rintro (⟨turn, hturn, hhead, hzero, hlater⟩ | ⟨hhead, hzero⟩)
    · exact ⟨turn, hturn, hhead, hzero, hlater.tail hstep⟩
    · exact ⟨s, hs, hhead, hzero, .single hstep⟩

/-! ### What the turns leave behind -/

/-- The edge is the only one into the block, and narrows the variable to be nonzero. -/
structure Guards (fp : FlowProblem) (e : Edge) (b : BlockId) (v : VarId) : Prop where
  not_entry : b ≠ fp.graph.entry
  only : fp.graph.predEdges b = [e]
  narrows : ∀ s, fp.along e s = s.narrow v .nonZero

/-- What a turn of the guarded block makes of the variable. -/
theorem Guards.get_merged {e : Edge} (h : fp.Guards e b v) (s : Progress) :
    (fp.merged s b).get v =
      ((s.storeBefore b).get v).join (((s.storeAfter e.src).get v).narrow .nonZero) := by
  have hincoming : fp.incoming s b = (s.storeAfter e.src).narrow v .nonZero := by
    rw [incoming, h.only, List.foldl_cons, List.foldl_nil, h.narrows]
    rfl
  rw [merged, if_neg h.not_entry, Store.get_join, hincoming, Store.get_narrow, if_pos rfl]

/-- **The store before a guarded block covers zero exactly if a turn saw one**, at every point of a
run. -/
theorem zero_le_before_iff {e : Edge} (h : fp.Guards e b v) {order : List BlockId}
    (hs : Relation.ReflTransGen fp.TakesFirst (.start order) s) :
    Tag.zero.le ((s.storeBefore b).get v) = true ↔ fp.SawZero (.start order) s b e.src v := by
  induction hs with
  | refl =>
    constructor
    · intro hle
      cases hle
    · rintro ⟨turn, -, -, -, hlater⟩
      exact absurd (iterations_lt_of_transGen hlater) (Nat.not_lt_zero _)
  | @tail s s' hs hstep ih =>
    rw [sawZero_tail_iff hs hstep, ← ih]
    obtain ⟨b', rest, hq, rfl⟩ := hstep
    have hmerged : fp.merged { s with queue := rest } b' = fp.merged s b' := rfl
    rw [storeBefore_step, hmerged, hq, List.head?_cons, Option.some.injEq]
    by_cases hbb : b' = b
    · subst hbb
      rw [if_pos rfl, h.get_merged, Tag.zero_le_join_iff, Tag.zero_le_narrow_nonZero_iff]
      simp
    · rw [if_neg hbb]
      simp only [hbb, false_and, or_false]
      rfl

/-- Behind the guard, in the end: the variable is nonzero, or unknown because of a turn that saw a
zero. -/
theorem Settled.get_guarded {e : Edge} (hsettled : fp.Settled s) (h : fp.Guards e b v)
    (hb : b ∈ fp.graph.nodes) (htop : (s.storeAfter e.src).get v = .top) :
    (s.storeBefore b).get v = .nonZero ∨ (s.storeBefore b).get v = .top := by
  have hedge := hsettled.edge b hb h.not_entry e (by rw [h.only]; exact List.mem_singleton_self e)
  rw [h.narrows] at hedge
  have hle := Store.le_iff.1 hedge v
  rw [Store.get_narrow, if_pos rfl, htop] at hle
  cases htag : (s.storeBefore b).get v with
  | bottom => rw [htag] at hle; cases hle
  | zero => rw [htag] at hle; cases hle
  | nonZero => exact .inl rfl
  | top => exact .inr rfl

end FlowProblem

namespace FlowGraph

variable {p : Program} {g : FlowGraph} {settings : Settings} {params : List VariableId}

/-- A branch on a test for a nonzero variable guards the block behind it. -/
theorem guards_of_testsNonZero {e : Edge} {b : BlockId} {v : VarId} (hb : b ≠ g.entry)
    (hpred : g.predEdges b = [e]) (hkind : e.kind = .branchTrue)
    (hcond : (p.exprOf (p.conditionRoot? (g.block e.src).tokens)).TestsNonZero p v) :
    (g.problem p settings params).Guards e b v := by
  refine ⟨hb, hpred, fun s => ?_⟩
  have halong : (g.problem p settings params).along e s = g.along p e s := rfl
  rw [halong, along, hkind]
  exact hcond.narrowBy _ s

/-- A token that names a nonzero variable is nonzero when it is evaluated. -/
theorem evaluate_name {cx : EvalContext} {t : TokenId} {v : VarId} {st : EvalState}
    (hv : cx.program.trackedVar? t = some v) (hlit : cx.program.literalTag? t = none)
    (hst : st.store.get v = .nonZero) :
    (cx.evaluate (.node t .absent .absent) st).1 = .nonZero := by
  have hreach : st.store.isUnreachable = false := by
    cases hs : st.store with
    | unreachable => rw [hs] at hst; cases hst
    | reachable f => rfl
  have hleaf : cx.leafTag t st = .nonZero := by simp [EvalContext.leafTag, hv, hlit, hst]
  rw [EvalContext.evaluate_leaf cx hreach, hleaf]
  rfl

/-- **When a nonzero guard survives.**  Say that nothing is known about the variable at the guard in
the end.  If some turn of the guarded block saw it to be zero at the guard, then behind the guard it
is `top`.  Otherwise it is `nonZero` there, and so is a token that names it.  The entry alone keeps
the store that it was given. -/
theorem guard_survives {clock : Clock} {r : AnalysisResult} {e : Edge} {b : BlockId} {v : VarId}
    (h : g.analyze p settings params clock = .ok r) (hb : b ∈ g.nodes)
    (hpred : g.predEdges b = [e]) (hkind : e.kind = .branchTrue)
    (hcond : (p.exprOf (p.conditionRoot? (g.block e.src).tokens)).TestsNonZero p v)
    (htop : (r.progress.storeAfter e.src).get v = .top) :
    let sawZero := (g.problem p settings params).SawZero (.start g.reversePostorder) r.progress
      b e.src v
    (b = g.entry → r.progress.storeBefore b = g.entryStore p settings params) ∧
    (b ≠ g.entry → sawZero → (r.progress.storeBefore b).get v = .top) ∧
    (b ≠ g.entry → ¬ sawZero → (r.progress.storeBefore b).get v = .nonZero ∧
      ∀ (t : TokenId) (st : EvalState), p.trackedVar? t = some v → p.literalTag? t = none →
        st.store = r.progress.storeBefore b →
        ((g.evalContext p settings).evaluate (.node t .absent .absent) st).1 = .nonZero) := by
  intro sawZero
  have hsettled := settled_of_analyze h
  have htag : b ≠ g.entry → ((r.progress.storeBefore b).get v = .nonZero ∧ ¬ sawZero) ∨
      ((r.progress.storeBefore b).get v = .top ∧ sawZero) := by
    intro hentry
    have hguards : (g.problem p settings params).Guards e b v :=
      guards_of_testsNonZero hentry hpred hkind hcond
    obtain ⟨-, hsteps, -, -, -⟩ := run_of_analyze h
    have hzero := FlowProblem.zero_le_before_iff hguards hsteps
    rcases hsettled.get_guarded hguards hb htop with htag | htag
    · rw [htag] at hzero
      exact .inl ⟨htag, fun hsaw => by simpa [Tag.le] using hzero.2 hsaw⟩
    · rw [htag] at hzero
      exact .inr ⟨htag, hzero.1 (Tag.le_top _)⟩
  refine ⟨?_, ?_, ?_⟩
  · rintro rfl
    exact hsettled.entry
  · intro hentry hsaw
    exact ((htag hentry).resolve_left fun hno => hno.2 hsaw).1
  · intro hentry hsaw
    have hnonZero := ((htag hentry).resolve_right fun hyes => hsaw hyes.2).1
    refine ⟨hnonZero, fun t st hv hlit hst => evaluate_name hv hlit ?_⟩
    rw [hst]
    exact hnonZero

theorem conditionRoot_guardedLoop :
    (guardedLoop.exprOf (guardedLoop.conditionRoot? (guardedLoopGraph.block 3).tokens)).TestsNonZero
      guardedLoop 1 := by
  have hexpr : guardedLoop.exprOf (guardedLoop.conditionRoot? (guardedLoopGraph.block 3).tokens)
      = .node 3 (.node 4 .absent .absent) (.node 5 .absent .absent) := by decide +kernel
  rw [hexpr]
  refine ⟨by decide, .inl ⟨by decide, by decide, by decide +kernel⟩⟩

theorem guard_survives_guardedLoop :
    ∃ r, guardedLoopGraph.analyze guardedLoop {} [] = .ok r ∧
      (r.progress.storeAfter 3).get 1 = .top ∧
      ((guardedLoopGraph.problem guardedLoop {} []).SawZero
        (.start guardedLoopGraph.reversePostorder) r.progress 4 3 1 →
        (r.progress.storeBefore 4).get 1 = .top) := by
  obtain ⟨r, hr, htop, -⟩ := analyze_guardedLoop
  exact ⟨r, hr, htop, (guard_survives (e := guardedLoopGraph.edge 2) hr (by decide) (by decide)
    (by decide) conditionRoot_guardedLoop htop).2.1 (by decide)⟩

/-- **A nonzero guard need not survive.**  In `x = 0; while (x != 0) x = m;` the first turn of the
body sees the zero that precedes the loop. -/
theorem guard_lost : ¬ ∀ (p : Program) (g : FlowGraph) (settings : Settings)
    (params : List VariableId) (clock : Clock) (r : AnalysisResult) (e : Edge) (b : BlockId)
    (v : VarId), g.analyze p settings params clock = .ok r → b ∈ g.nodes → b ≠ g.entry →
    g.predEdges b = [e] → e.kind = .branchTrue →
    (p.exprOf (p.conditionRoot? (g.block e.src).tokens)).TestsNonZero p v →
    (r.progress.storeAfter e.src).get v = .top →
    (r.progress.storeBefore b).get v = .nonZero := by
  intro hall
  obtain ⟨r, hr, hafter, hbefore⟩ := analyze_guardedLoop
  have := hall guardedLoop guardedLoopGraph {} [] .still r (guardedLoopGraph.edge 2) 4 1 hr
    (by decide) (by decide) (by decide) (by decide) conditionRoot_guardedLoop hafter
  rw [hbefore] at this
  cases this

end FlowGraph

end DivisorCheck
