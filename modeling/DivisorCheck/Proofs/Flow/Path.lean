/-
  The paths of a graph from a block to the exit, as a language of traces.

  Leaving a block along an edge that stands for a decision leaves this decision in
  the trace, with the tokens of the block as what was decided; leaving it along any
  other edge leaves the tokens themselves.  So the language of a block is a sum over
  its edges (`paths_eq`).

  While a graph is being built there is a block that tokens are still added to and
  that no edge leaves yet.  What can be said about it later is said about the rest
  of the block, from the tokens on that it has now (`ahead`).
-/
import DivisorCheck.Flow.Graph
import DivisorCheck.Proofs.Code.Behaviour
import Mathlib.Algebra.BigOperators.Group.List.Basic
import Mathlib.Algebra.BigOperators.Ring.List

namespace DivisorCheck

/-- Is control passed on without a decision? -/
def EdgeKind.isPlain : EdgeKind → Bool
  | branchTrue => false
  | branchFalse => false
  | switchCase => false
  | switchDefault => false
  | _ => true

/-- What is left in the trace when control leaves a block with the given tokens along the edge. -/
def Edge.events (e : Edge) (ts : List TokenId) : List Event :=
  match e.kind with
  | .branchTrue => [.decide ts true]
  | .branchFalse => [.decide ts false]
  | .switchCase => [.choose ts e.label]
  | .switchDefault => [.choose ts none]
  | _ => ts.map .token

theorem Edge.events_of_isPlain {e : Edge} (h : e.kind.isPlain = true) (ts : List TokenId) :
    e.events ts = ts.map .token := by
  unfold events
  cases hkind : e.kind <;> rw [hkind] at h <;> first | rfl | cases h

namespace FlowGraph

/-- A path from a block to the exit leaves a trace. -/
inductive Path (g : FlowGraph) : BlockId → List Event → Prop where
  | stop : Path g g.exit []
  | step {b : BlockId} {e : Edge} {trace : List Event} :
    e ∈ g.succEdges b → Path g e.dst trace → Path g b (e.events (g.block b).tokens ++ trace)

/-- The traces of the paths from a block to the exit. -/
def paths (g : FlowGraph) (b : BlockId) : Language Event := { trace | g.Path b trace }

/-- The traces of what is left of the paths when a number of tokens of the block are done. -/
def ahead (g : FlowGraph) (b : BlockId) (done : Nat) : Language Event :=
  emitted ((g.block b).tokens.drop done) * ((g.succEdges b).map fun e => g.paths e.dst).sum

variable {g : FlowGraph} {b : BlockId}

theorem mem_sum_iff {α : Type} (l : List α) (f : α → Language Event) (trace : List Event) :
    trace ∈ (l.map f).sum ↔ ∃ x ∈ l, trace ∈ f x := by
  induction l with
  | nil => simp
  | cons x l ih =>
    rw [List.map_cons, List.sum_cons, Language.mem_add, ih]
    simp

/-- **The paths from a block go on along its edges.** -/
theorem paths_eq (g : FlowGraph) (b : BlockId) :
    g.paths b = (if b = g.exit then 1 else 0) +
      ((g.succEdges b).map fun e => {e.events (g.block b).tokens} * g.paths e.dst).sum := by
  ext trace
  rw [Language.mem_add, mem_sum_iff]
  constructor
  · intro h
    cases h with
    | stop =>
      refine .inl ?_
      rw [if_pos rfl]
      exact Language.nil_mem_one
    | step he hrest =>
      exact .inr ⟨_, he, Language.mem_mul.2 ⟨_, rfl, _, hrest, rfl⟩⟩
  · rintro (h | ⟨e, he, h⟩)
    · split_ifs at h with hb
      · obtain rfl := (Language.mem_one _).1 h
        rw [hb]
        exact .stop
      · exact absurd h (Language.notMem_zero _)
    · obtain ⟨x, hx, y, hy, rfl⟩ := Language.mem_mul.1 h
      obtain rfl : x = e.events (g.block b).tokens := hx
      exact Path.step he hy

theorem paths_of_ne_exit (hb : b ≠ g.exit) :
    g.paths b =
      ((g.succEdges b).map fun e => {e.events (g.block b).tokens} * g.paths e.dst).sum := by
  rw [paths_eq, if_neg hb, zero_add]

/-- A block that no decision leaves is its tokens and what comes then. -/
theorem paths_eq_ahead (hb : b ≠ g.exit) (hplain : ∀ e ∈ g.succEdges b, e.kind.isPlain = true) :
    g.paths b = g.ahead b 0 := by
  have hevents : ((g.succEdges b).map fun e => {e.events (g.block b).tokens} * g.paths e.dst) =
      (g.succEdges b).map fun e => emitted (g.block b).tokens * g.paths e.dst := by
    refine List.map_congr_left fun e he => ?_
    rw [Edge.events_of_isPlain (hplain e he)]
    rfl
  rw [paths_of_ne_exit hb, hevents, List.sum_map_mul_left]
  rfl

theorem emitted_append (ts us : List TokenId) : emitted (ts ++ us) = emitted ts * emitted us := by
  unfold emitted
  rw [List.map_append, Language.mul_def]
  exact Set.image2_singleton.symm

theorem emitted_nil : emitted [] = 1 := rfl

/-- Tokens that have been added to the block come first in what is left of it. -/
theorem ahead_eq_mul {ts us : List TokenId} (h : ts ++ us <+: (g.block b).tokens) :
    g.ahead b ts.length = emitted us * g.ahead b (ts ++ us).length := by
  obtain ⟨rest, hrest⟩ := h
  unfold ahead
  rw [← hrest, List.drop_left, List.append_assoc, List.drop_left, emitted_append, mul_assoc]

/-- A block that is done is left along its one edge. -/
theorem ahead_of_edge {e : Edge} (hsucc : g.succEdges b = [e]) :
    g.ahead b (g.block b).tokens.length = g.paths e.dst := by
  unfold ahead
  rw [hsucc, List.drop_length, emitted_nil, one_mul]
  simp

theorem paths_of_edge {ts : List TokenId} {e : Edge} (hb : b ≠ g.exit)
    (htokens : (g.block b).tokens = ts) (hsucc : g.succEdges b = [e])
    (hplain : e.kind.isPlain = true) : g.paths b = emitted ts * g.paths e.dst := by
  have hall : ∀ e' ∈ g.succEdges b, e'.kind.isPlain = true := by
    intro e' he
    rw [hsucc] at he
    rw [List.mem_singleton.1 he, hplain]
  rw [paths_eq_ahead hb hall, ← htokens]
  unfold ahead
  rw [hsucc, List.drop_zero]
  simp

/-- A condition leads on either way; one without tokens has to hold. -/
theorem paths_of_condition {cond : List TokenId} {yes no : BlockId} (hb : b ≠ g.exit)
    (htokens : (g.block b).tokens = cond)
    (hsucc : g.succEdges b = { src := b, dst := yes, kind := .branchTrue } ::
      if cond = [] then [] else [{ src := b, dst := no, kind := .branchFalse }]) :
    g.paths b = decided cond true * g.paths yes +
      (if cond = [] then 0 else decided cond false) * g.paths no := by
  rw [paths_of_ne_exit hb, hsucc, htokens]
  split_ifs
  · simp [Edge.events, decided]
  · simp [Edge.events, decided]

/-- A condition leads on either way. -/
theorem paths_of_branch {cond : List TokenId} {yes no : BlockId} (hb : b ≠ g.exit)
    (htokens : (g.block b).tokens = cond)
    (hsucc : g.succEdges b = [{ src := b, dst := yes, kind := .branchTrue },
      { src := b, dst := no, kind := .branchFalse }]) :
    g.paths b = decided cond true * g.paths yes + decided cond false * g.paths no := by
  rw [paths_of_ne_exit hb, hsucc, htokens]
  simp [Edge.events, decided]

end FlowGraph

end DivisorCheck
