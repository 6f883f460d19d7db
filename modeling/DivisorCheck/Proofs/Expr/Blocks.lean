/-
  What evaluating the top-level expressions of a block leaves alone.

  Whatever the links of a program look like, the tree that they draw from a token
  shows no operand that they do not have.  That is all it takes for evaluation to
  be confined to the expression, so the bounds hold for every block of every graph.
-/
import DivisorCheck.Analysis
import DivisorCheck.Proofs.Execution.Graph
import DivisorCheck.Proofs.Expr.Frame

namespace DivisorCheck

namespace EvalContext

variable {cx : EvalContext} {root : TokenId} {roots : List TokenId} {st : EvalState}

/-! ### One expression -/

theorem mem_tokens_expr (p : Program) (t : TokenId) : t ∈ (p.expr t).tokens :=
  List.mem_cons_self ..

/-- What a bare declaration leaves of the store. -/
def undeclared (cx : EvalContext) (root : TokenId) (s : Store) : Store :=
  match cx.program.trackedVar? root with
  | some v => s.forget v
  | none => s

theorem evalRoot_bare (hbare : cx.program.isBareDeclaration root = true)
    (hreach : ¬ st.store.isUnreachable = true) :
    cx.evalRoot st root = cx.annotate root .top (st.on (cx.undeclared root st.store)) := by
  unfold evalRoot
  simp only
  rw [if_neg hreach, if_pos hbare]
  rfl

theorem evalRoot_of_unreachable (hst : st.store = .unreachable) :
    cx.evalRoot st root = cx.annotateUnreachable (cx.program.expr root) st := by
  unfold evalRoot
  simp only
  rw [if_pos (Store.isUnreachable_iff.2 hst)]

theorem le_undeclared (s : Store) (v : VarId) :
    (s.get v).le ((cx.undeclared root s).get v) = true := by
  unfold undeclared
  split
  · rename_i w _
    by_cases hs : s = .unreachable
    · subst hs
      exact Tag.le_refl _
    · rw [Store.get_forget hs]
      split_ifs
      · exact Tag.le_top _
      · exact Tag.le_refl _
  · exact Tag.le_refl _

theorem frame_evalRoot (cx : EvalContext) (root : TokenId) (st : EvalState) :
    Frame cx.program (cx.program.expr root).tokens st (cx.evalRoot st root) := by
  by_cases hreach : st.store.isUnreachable = true
  · unfold evalRoot
    rw [if_pos hreach]
    exact .annotateUnreachable cx (fun _ hu => hu) st
  by_cases hbare : cx.program.isBareDeclaration root = true
  · rw [evalRoot_bare hbare hreach]
    have hstore : Frame cx.program (cx.program.expr root).tokens st
        (st.on (cx.undeclared root st.store)) := .on _ _ st fun v _ => le_undeclared _ v
    exact hstore.trans (.annotate cx (mem_tokens_expr _ root) .top _)
  · have heval := (confined_of_linked (cx.program.linked_expr root) .operator).frame st
    unfold evalRoot
    simp only
    rwa [if_neg hreach, if_neg hbare]

/-! ### All of them -/

theorem evalRoots_of_unreachable (roots : List TokenId) (hst : st.store = .unreachable) :
    (roots.foldl cx.evalRoot st).store = .unreachable := by
  induction roots generalizing st with
  | nil => exact hst
  | cons root roots ih =>
    rw [List.foldl_cons, evalRoot_of_unreachable hst]
    exact ih ((annotateUnreachable_store _).trans hst)

theorem frame_evalRoots (cx : EvalContext) (roots : List TokenId) (st : EvalState) :
    Frame cx.program (cx.program.treeTokens roots) st (roots.foldl cx.evalRoot st) := by
  induction roots generalizing st with
  | nil => exact .refl _ _ st
  | cons root roots ih =>
    have hfirst := frame_evalRoot cx root st
    have hrest := ih (cx.evalRoot st root)
    rw [Program.treeTokens, List.flatMap_cons]
    exact (hfirst.mono fun u hu => List.mem_append_left _ hu).trans
      (hrest.mono fun u hu => List.mem_append_right _ hu)

theorem live_evalRoot (cx : EvalContext) (root : TokenId) (hst : st.store.Live) :
    (cx.evalRoot st root).store.Live := by
  have hreach : ¬ st.store.isUnreachable = true := fun hnot =>
    hst.ne_unreachable (Store.isUnreachable_iff.1 hnot)
  by_cases hbare : cx.program.isBareDeclaration root = true
  · rw [evalRoot_bare hbare hreach]
    exact fun v => Tag.ne_bottom_of_le (le_undeclared st.store v) (hst v)
  · have heval := (confined_of_linked (cx.program.linked_expr root) .operator).live st hst
    unfold evalRoot
    simp only
    rw [if_neg hreach, if_neg hbare]
    exact heval.2

theorem live_evalRoots (cx : EvalContext) (roots : List TokenId) (hst : st.store.Live) :
    (roots.foldl cx.evalRoot st).store.Live := by
  induction roots generalizing st with
  | nil => exact hst
  | cons root roots ih => exact ih (live_evalRoot cx root hst)

end EvalContext

/-! ### The store after a block -/

namespace FlowGraph

variable {p : Program} {g : FlowGraph} {settings : Settings}

/-- The store after a block is what evaluating the block leaves: where `transfer` skips the block,
evaluation would not have changed the store. -/
theorem transfer_eq (b : BlockId) (s : Store) :
    g.transfer p settings b s =
      ((g.evalContext p settings).evalBlock (g.block b).tokens { store := s }).store := by
  unfold transfer
  extract_lets ts
  split_ifs with hskip
  · rcases Bool.or_eq_true_iff.1 hskip with hdead | hempty
    · have hs := Store.isUnreachable_iff.1 hdead
      exact hs.trans (EvalContext.evalRoots_of_unreachable _ hs).symm
    · have hts : (g.block b).tokens = [] := List.isEmpty_iff.1 hempty
      rw [hts]
      rfl
  · rfl

theorem live_transfer (p : Program) (g : FlowGraph) (settings : Settings) (b : BlockId) {s : Store}
    (hs : s.Live) : (g.transfer p settings b s).Live := by
  rw [transfer_eq]
  exact EvalContext.live_evalRoots _ _ hs

end FlowGraph

end DivisorCheck
