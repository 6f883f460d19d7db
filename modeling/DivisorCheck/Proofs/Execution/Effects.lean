/-
  What running an expression leaves alone.

  `Expr.clobbered` lists the variables that an expression may change.  A run of
  the expression that ends with a value has left all others as they were
  (`exec_preserves`): every write is either one by name, which `Program.assigned`
  finds at the operator, or one of those that `Expr.spoiledAt` accounts for.
-/
import DivisorCheck.Proofs.Execution.Expr
import DivisorCheck.Proofs.Expr.WellFormed

namespace DivisorCheck

/-! ### Runs that leave a variable alone -/

namespace Run

variable {α β : Type} {v : VarId}

/-- A run that ends with a value has not changed the variable. -/
def Preserves (v : VarId) (m : Run α) : Prop :=
  ∀ σ a σ', m σ (.value a σ') → σ' v = σ v

theorem preserves_pure (a : α) : Preserves v (pure a : Run α) := by
  intro σ b σ' h
  cases h
  rfl

theorem preserves_any : Preserves v (any : Run α) := by
  intro σ a σ' h
  rw [any_value_iff.1 h]

theorem preserves_read (w : VarId) : Preserves v (read w) := by
  intro σ a σ' h
  rw [(read_value_iff.1 h).2]

theorem preserves_divideByZero (d : TokenId) : Preserves v (divideByZero d : Run α) := by
  intro σ a σ' h
  exact absurd h not_divideByZero_value

theorem preserves_assign {w : VarId} (h : w ≠ v) (n : Int) : Preserves v (assign w n) := by
  intro σ a σ' hrun
  rw [assign_value_iff.1 hrun, State.update, if_neg h]

theorem preserves_change {vs : List VarId} (h : v ∉ vs) : Preserves v (change vs) := by
  intro σ a σ' hrun
  exact change_value_iff.1 hrun v h

theorem Preserves.bind {m : Run α} {f : α → Run β} (hm : Preserves v m)
    (hf : ∀ a, Preserves v (f a)) : Preserves v (m >>= f) := by
  intro σ b σ' h
  obtain ⟨a, σ₁, hrun, hrest⟩ := bind_value_iff.1 h
  rw [hf a σ₁ b σ' hrest, hm σ a σ₁ hrun]

theorem Preserves.ite {m m' : Run α} (c : Prop) [Decidable c] (hm : Preserves v m)
    (hm' : Preserves v m') : Preserves v (if c then m else m') := by
  split
  · exact hm
  · exact hm'

theorem Preserves.mayRaise_only {m : Run α} {P : α → Prop} (hm : Preserves v m) :
    Preserves v (mayRaise (only P m)) := by
  intro σ a σ' h
  exact hm σ a σ' (only_value_iff.1 (mayRaise_value_iff.1 h)).1

end Run

namespace Expr

variable {p : Program} {t : TokenId} {l r : Expr} {v : VarId} {escaped : List VarId}

theorem mem_clobbered_node : v ∈ (node t l r).clobbered p escaped ↔
    p.assignsAt t = some v ∨ v ∈ spoiledAt p escaped (node t l r) ∨
      v ∈ l.clobbered p escaped ∨ v ∈ r.clobbered p escaped := by
  simp only [clobbered, Program.assigned, tokens, subterms, List.mem_eraseDups, List.mem_append,
    List.mem_filterMap, List.mem_cons, List.mem_flatMap]
  constructor
  · rintro (⟨u, rfl | hl | hr, hu⟩ | ⟨e, rfl | hl | hr, he⟩)
    · exact .inl hu
    · exact .inr (.inr (.inl (.inl ⟨u, hl, hu⟩)))
    · exact .inr (.inr (.inr (.inl ⟨u, hr, hu⟩)))
    · exact .inr (.inl he)
    · exact .inr (.inr (.inl (.inr ⟨e, hl, he⟩)))
    · exact .inr (.inr (.inr (.inr ⟨e, hr, he⟩)))
  · rintro (ht | hs | (⟨u, hl, hu⟩ | ⟨e, hl, he⟩) | ⟨u, hr, hu⟩ | ⟨e, hr, he⟩)
    · exact .inl ⟨t, .inl rfl, ht⟩
    · exact .inr ⟨_, .inl rfl, hs⟩
    · exact .inl ⟨u, .inr (.inl hl), hu⟩
    · exact .inr ⟨e, .inr (.inl hl), he⟩
    · exact .inl ⟨u, .inr (.inr hr), hu⟩
    · exact .inr ⟨e, .inr (.inr hr), he⟩

end Expr

namespace EvalContext

variable {cx : EvalContext} {t : TokenId} {l r : Expr} {v : VarId}

open Run

/-- A write leaves the variable alone if its target neither names it nor may reach it. -/
theorem preserves_execWrite (hwf : (Expr.node t l r).WellFormed cx.program)
    (hkind : (cx.program.isAssignment t || cx.program.isStep t) = true)
    (hcall : cx.program.isCall t = false)
    (hv : v ∉ (Expr.node t l r).clobbered cx.program cx.escaped)
    {runTarget : Run Int} (hrun : Preserves v runTarget) (n : Int) :
    Preserves v (cx.execWrite l runTarget n) := by
  rw [Expr.mem_clobbered_node, not_or, not_or, hwf.assignsAt hkind] at hv
  obtain ⟨hname, hspoiled, -⟩ := hv
  obtain ⟨-, -, -, hlwf, -⟩ := hwf
  unfold execWrite
  cases htrack : l.trackedVar? cx.program with
  | some w =>
    refine preserves_assign (fun hwv => hname ?_) n
    rw [htrack, hwv]
  | none =>
    refine hrun.bind fun _ => ?_
    -- An untracked target is an indirect write unless it is a plain name.
    have hindirect : (Expr.node t l r).writesIndirectly cx.program = true → v ∉ cx.escaped := by
      intro hw hmem
      exact hspoiled (by simp [Expr.spoiledAt, hcall, hw, hmem])
    cases l with
    | absent =>
      refine preserves_change (hindirect ?_)
      simp [Expr.writesIndirectly, hkind, Expr.stripCasts]
    | node u a b =>
      by_cases hplain : cx.program.namesPlainly u = true
      · simp only [Expr.token?, hplain, if_true]
        exact preserves_pure ()
      · simp only [Expr.token?, hplain]
        refine preserves_change (hindirect ?_)
        have hu : cx.program.trackedVar? u = none := htrack
        simp [Expr.writesIndirectly, hkind, hlwf.stripCasts, hu, hplain]

theorem preserves_execBinary (op : String) (a b : Int) : Preserves v (execBinary t op a b) := by
  unfold execBinary
  split <;> try exact preserves_pure _
  · exact Preserves.ite _ (preserves_divideByZero t) (preserves_pure _)
  · exact Preserves.ite _ (preserves_divideByZero t) (preserves_pure _)
  · exact preserves_any

theorem preserves_execUnary (op : String) (a : Int) : Preserves v (execUnary op a) := by
  unfold execUnary
  refine Preserves.ite _ (preserves_pure _) (Preserves.ite _ (preserves_pure _) ?_)
  exact Preserves.ite _ (preserves_pure _) preserves_any

theorem preserves_execLeaf : Preserves v (cx.execLeaf t) := by
  unfold execLeaf
  split
  · exact preserves_pure _
  · split
    · exact preserves_read _
    · exact preserves_any

theorem preserves_execConditional {cond runThen runElse : Run Int} (hcond : Preserves v cond)
    (hthen : Preserves v runThen) (helse : Preserves v runElse) :
    Preserves v (execConditional cond runThen runElse) :=
  hcond.bind fun _ => Preserves.ite _ hthen helse

/-- The operation of a node changes at most what the node is said to clobber, if that is so for its
operands. -/
theorem preserves_execOperation (hwf : (Expr.node t l r).WellFormed cx.program)
    (hv : v ∉ (Expr.node t l r).clobbered cx.program cx.escaped)
    {runLeft runRight runArguments runChoice : Run Int}
    (hl : Preserves v runLeft) (hr : Preserves v runRight) (hargs : Preserves v runArguments)
    (hchoice : Preserves v runChoice) :
    Preserves v (cx.execOperation t l r runLeft runRight runArguments runChoice) := by
  have hop := Program.operation_cases cx.program t l r
  unfold execOperation
  extract_lets p
  cases hkind : cx.program.operation t l r <;> rw [hkind] at hop <;> simp only [p]
  case leaf => exact preserves_execLeaf
  case cast | member => exact hl.bind fun _ => preserves_any
  case sizeQuery => exact preserves_any
  case choice => exact hchoice
  case unary => exact hl.bind fun _ => preserves_execUnary _ _
  case comma => exact hl.bind fun _ => hr
  case binary => exact hl.bind fun _ => hr.bind fun _ => preserves_execBinary _ _ _
  case assignment =>
    have hwrite := fun {m : Run Int} (hm : Preserves v m) n =>
      preserves_execWrite hwf (by simp [hop.1]) hop.2 hv hm n
    refine Preserves.ite _ ?_ ?_
    · exact hr.bind fun n => (hwrite hl n).bind fun _ => preserves_pure n
    · exact hl.bind fun old => hr.bind fun _ => (preserves_execBinary _ _ _).bind fun n =>
        (hwrite (preserves_pure old) n).bind fun _ => preserves_pure n
  case increment =>
    exact hl.bind fun old =>
      (preserves_execWrite hwf (by simp [hop.1]) hop.2.2 hv (preserves_pure old) _).bind fun _ =>
        preserves_pure _
  case call =>
    rw [Expr.mem_clobbered_node, not_or, not_or] at hv
    have hspoiled := hv.2.1
    simp only [Expr.spoiledAt, hop.1, hop.2] at hspoiled
    have hcallee : Preserves v (if l.isLeaf then any else runLeft) :=
      Preserves.ite _ preserves_any hl
    refine hcallee.bind fun _ => hargs.bind fun _ => ?_
    exact (preserves_change (by simpa using hspoiled)).bind fun _ => preserves_any
  case shortCircuit =>
    refine hl.bind fun a => Preserves.ite _ ?_ (preserves_pure _)
    exact hr.bind fun _ => preserves_pure _

/-- **An expression changes only what it clobbers.** -/
theorem preserves_exec {e : Expr} (hwf : e.WellFormed cx.program)
    (hv : v ∉ e.clobbered cx.program cx.escaped) (role : CommaRole) :
    Preserves v (cx.exec e role) := by
  induction e using Expr.induction_arms generalizing role with
  | habsent => exact preserves_any
  | hnode t l r ihl ihr iharms =>
    have hsub := hv
    rw [Expr.mem_clobbered_node, not_or, not_or, not_or] at hsub
    obtain ⟨-, -, hvl, hvr⟩ := hsub
    obtain ⟨-, -, -, hlwf, hrwf⟩ := id hwf
    have hl := fun role => ihl hlwf hvl role
    have hr := fun role => ihr hrwf hvr role
    rw [exec_node]
    refine Preserves.ite _ ((hl _).bind fun _ => (hr _).bind fun _ => preserves_any) ?_
    refine Preserves.mayRaise_only (preserves_execOperation hwf hv (hl _) (hr _) (hr _) ?_)
    cases r with
    | absent => exact (hl _).bind fun _ => preserves_any
    | node colon a b =>
      refine Preserves.ite _ ?_ ((hl _).bind fun _ => (hr _).bind fun _ => preserves_any)
      obtain ⟨iha, ihb⟩ := iharms colon a b rfl
      obtain ⟨-, -, -, hawf, hbwf⟩ := hrwf
      rw [Expr.mem_clobbered_node, not_or, not_or, not_or] at hvr
      exact preserves_execConditional (hl _) (iha hawf hvr.2.2.1 _) (ihb hbwf hvr.2.2.2 _)

end EvalContext

end DivisorCheck
