/-
  What evaluation may change.

  Evaluation changes the store at the writes and calls of an expression.  For a
  second operand and for the arms of a choice it narrows the store, and afterwards
  it joins what came out, so the narrowing leaves nothing behind.  A relation
  between stores that the writes and calls keep to, and that composes in these
  ways, therefore holds between the store before an expression and the store after
  it (`related_eval`).

  `Expr.clobbered` finds the same changes without evaluating.  It looks through
  the conversions around the target of a write, which `EvalContext.write` does not:
  where the target is a conversion of a variable that is named directly, evaluation
  forgets what escapes and `clobbered` does not say so.  Apart from that it covers
  every change (`evaluate_changes`).
-/
import DivisorCheck.Proofs.Expr.Frame

namespace DivisorCheck

namespace Expr

variable {p : Program} {t : TokenId} {l r : Expr} {v : VarId} {escaped : List VarId}

/-- Narrowing only adds to what is known. -/
theorem narrowBy_le {s : Store} (hs : s ≠ .unreachable) (e : Expr) (holds : Bool) (v : VarId) :
    ((e.narrowBy p escaped holds s).get v).le (s.get v) = true := by
  suffices hall : e.narrowBy p escaped holds s ≠ .unreachable ∧
      ∀ v, ((e.narrowBy p escaped holds s).get v).le (s.get v) = true from hall.2 v
  refine narrowBy_induction
    (P := fun s s' => s ≠ .unreachable → s' ≠ .unreachable ∧ ∀ v, (s'.get v).le (s.get v) = true)
    (fun s hs => ⟨hs, fun v => Tag.le_refl _⟩) ?_ ?_ e holds s hs
  · intro e isZero s hs
    refine ⟨assertZero_ne_unreachable hs isZero, fun v => ?_⟩
    unfold assertZero
    split
    · rw [Store.get_narrow]
      split_ifs with hv
      all_goals first
        | exact Tag.le_refl _
        | subst hv; exact Tag.narrow_le _ _
    · exact Tag.le_refl _
  · -- What `restore` takes back was known before.
    intro vs s s₁ s₂ h₁ h₂ hs
    obtain ⟨hs₁, hle₁⟩ := h₁ hs
    obtain ⟨hs₂, hle₂⟩ := h₂ (restore_ne_unreachable s vs hs₁)
    refine ⟨hs₂, fun v => Tag.le_trans (hle₂ v) ?_⟩
    rw [get_restore s vs hs₁]
    split
    · exact Tag.le_refl _
    · exact hle₁ v

/-- Is the top of the expression a write to a conversion of a variable that is named directly? -/
def writesConverted (p : Program) : Expr → Bool
  | absent => false
  | node t l r =>
    (p.isAssignment t || p.isStep t) && l.token?.any p.isCast && !(node t l r).writesIndirectly p

end Expr

namespace EvalContext

variable {cx : EvalContext} {t : TokenId} {l r e : Expr} {st : EvalState} {v : VarId}
  {R : Store → Store → Prop}

/-- The store after a write, what evaluating the target does being left out. -/
def written (cx : EvalContext) (target : Expr) (tag : Tag) (s : Store) : Store :=
  match target.trackedVar? cx.program with
  | some v => s.set v tag
  | none => if target.token?.any cx.program.namesPlainly then s else s.havoc cx.escaped

/-- The store after a call, what evaluating its operands does being left out. -/
def called (cx : EvalContext) (call : Expr) (s : Store) : Store :=
  (s.havoc cx.escaped).havoc (call.lentVars cx.program)

/-- A relation between the stores before and after that evaluation can be cut into.  Where a
condition decides, each part starts from a store narrowed by one outcome, and what the parts leave
is joined. -/
structure Composes (cx : EvalContext) (R : Store → Store → Prop) : Prop where
  refl : ∀ s, R s s
  trans : ∀ {s s₁ s₂}, R s s₁ → R s₁ s₂ → R s s₂
  arms : ∀ (cond : Expr) {s s₁ s₂}, R (cond.narrowBy cx.program cx.escaped true s) s₁ →
    R (cond.narrowBy cx.program cx.escaped false s) s₂ → R s (s₁.join s₂)
  second : ∀ (first : Expr) (holds : Bool) {s s₁},
    R (first.narrowBy cx.program cx.escaped holds s) s₁ → R s (s.join s₁)

/-- The writes and calls of an expression keep to a relation. -/
def WritesKeep (cx : EvalContext) (R : Store → Store → Prop) : Expr → Prop
  | .absent => True
  | .node t l r =>
    ((cx.program.isAssignment t || cx.program.isStep t) = true → cx.program.isCall t = false →
        ∀ tag s, R s (cx.written l tag s)) ∧
      (cx.program.isCall t = true → cx.program.isSizeQuery t = false →
        ∀ s, R s (cx.called (.node t l r) s)) ∧
      cx.WritesKeep R l ∧ cx.WritesKeep R r

/-- A step of evaluation keeps to a relation. -/
def Carries (R : Store → Store → Prop) (f : EvalStep) : Prop := ∀ st, R st.store (f st).2.store

theorem Carries.on {f : EvalStep} (h : Carries R f) (st : EvalState) (s : Store) :
    R s (f (st.on s)).2.store := h (st.on s)

/-! ### The operators -/

section Operators

variable {evalLeft evalRight : EvalStep}

theorem Carries.binary (hR : cx.Composes R) {f : Tag → Tag → Tag} (hl : Carries R evalLeft)
    (hr : Carries R evalRight) : Carries R (evalBinary f evalLeft evalRight) :=
  fun st => hR.trans (hl st) (hr _)

theorem related_write (hR : cx.Composes R) {target : Expr} {evalTarget : EvalStep} {tag : Tag}
    (hwritten : ∀ s, R s (cx.written target tag s)) (htarget : Carries R evalTarget)
    (st : EvalState) : R st.store (cx.write target evalTarget tag st).store := by
  unfold write
  cases hv : target.trackedVar? cx.program with
  | some v =>
    have hset := hwritten st.store
    rw [written, hv] at hset
    rw [annotateTop_store]
    exact hset
  | none =>
    simp only [written, hv] at hwritten
    cases hu : target.token? with
    | none =>
      simp only [hu, Option.any_none] at hwritten
      exact hwritten st.store
    | some u =>
      simp only [hu, Option.any_some] at hwritten ⊢
      have hread : R st.store (if st.annotations.contains u then st else (evalTarget st).2).store := by
        split
        · exact hR.refl _
        · exact htarget st
      split
      · exact hread
      · rename_i hplain
        simp only [if_neg hplain] at hwritten
        exact hR.trans hread (hwritten _)

theorem Carries.assignment (hR : cx.Composes R) (op : String)
    (hwritten : ∀ tag s, R s (cx.written l tag s)) (hl : Carries R evalLeft)
    (hr : Carries R evalRight) : Carries R (cx.evalAssignment op l evalLeft evalRight) := by
  have hwrite := fun tag st => related_write hR (hwritten tag) hl st
  intro st
  unfold evalAssignment
  split
  · exact hR.trans (hr st) (hwrite _ _)
  · exact hR.trans (hl st) (hR.trans (hr _) (hwrite _ _))

theorem Carries.call (hR : cx.Composes R) (call : Expr) (hcalled : ∀ s, R s (cx.called call s))
    (hl : Carries R evalLeft) (hargs : Carries R evalRight) :
    Carries R (cx.evalCall call l evalLeft evalRight) := by
  intro st
  unfold evalCall
  extract_lets st₁ st₂
  have hcallee : R st.store st₂.store := by
    have hst₁ : st₁.store = st.store := annotateTop_store _ _
    unfold st₂
    split
    · rw [hst₁]
      exact hR.refl _
    · rw [← hst₁]
      exact hl st₁
  exact hR.trans hcallee (hR.trans (hargs st₂) (hcalled _))

theorem Carries.arms (hR : cx.Composes R) (cond : Expr) (colon : TokenId)
    {evalThen evalElse : EvalStep} (hthen : Carries R evalThen) (helse : Carries R evalElse) :
    Carries R (cx.evalArms cond colon evalThen evalElse) :=
  fun st => hR.arms cond (hthen.on st _) (helse.on _ _)

theorem Carries.shortCircuit (hR : cx.Composes R) (isAnd : Bool) (first : Expr)
    (hl : Carries R evalLeft) (hr : Carries R evalRight) :
    Carries R (cx.evalShortCircuit isAnd first evalLeft evalRight) :=
  fun st => hR.trans (hl st) (hR.second first isAnd (hr.on _ _))

theorem carries_evalOperation (hR : cx.Composes R) (hkeep : cx.WritesKeep R (.node t l r))
    {evalLeft evalRight evalArguments evalChoice : EvalStep}
    (hl : Carries R evalLeft) (hr : Carries R evalRight) (hargs : Carries R evalArguments)
    (hchoice : Carries R evalChoice) :
    Carries R (cx.evalOperation t l r evalLeft evalRight evalArguments evalChoice) := by
  have hop := Program.operation_cases cx.program t l r
  obtain ⟨hwritten, hcalled, -, -⟩ := hkeep
  unfold evalOperation
  extract_lets p op
  cases hkind : cx.program.operation t l r <;> rw [hkind] at hop <;> simp only [p]
  case leaf => exact fun st => hR.refl _
  case cast | unary => exact hl
  case assignment => exact .assignment hR op (hwritten (by simp [hop.1]) hop.2) hl hr
  case increment =>
    have hwrite := fun tag st => related_write hR (hwritten (by simp [hop.1]) hop.2.2 tag) hl st
    exact fun st => hR.trans (hl st) (hwrite _ _)
  case sizeQuery =>
    intro st
    unfold evalSizeQuery
    rw [annotateUnreachable_store, annotateTop_store]
    exact hR.refl _
  case call => exact .call hR _ (hcalled hop.1 hop.2) hl hargs
  case choice => exact hchoice
  case shortCircuit => exact .shortCircuit hR _ l hl hr
  case comma | binary => exact .binary hR hl hr
  case member =>
    intro st
    rw [annotateTop_store]
    exact hl st

end Operators

/-! ### Expressions -/

/-- **Evaluation keeps to what its writes and calls keep to.** -/
theorem related_eval (hR : cx.Composes R) (hkeep : cx.WritesKeep R e) (role : CommaRole) :
    Carries R (cx.eval e role) := by
  induction e using Expr.induction_arms generalizing role with
  | habsent => exact fun st => hR.refl _
  | hnode t l r ihl ihr iharms =>
    obtain ⟨-, -, hlkeep, hrkeep⟩ := id hkeep
    have hl := ihl hlkeep
    have hr := ihr hrkeep
    have hchoice : Carries R (cx.evalChoice l r) := by
      cases r with
      | absent => exact hl _
      | node colon a b =>
        obtain ⟨iha, ihb⟩ := iharms colon a b rfl
        obtain ⟨-, -, hakeep, hbkeep⟩ := hrkeep
        -- Without a colon the node below is evaluated like any operand.
        by_cases hcolon : cx.program.text colon = ":"
        · rw [evalChoice, if_pos hcolon]
          have harms := Carries.arms hR l colon (iha hakeep .operator) (ihb hbkeep .operator)
          exact fun st => hR.trans (hl _ st) (harms _)
        · rw [evalChoice, if_neg hcolon]
          exact .binary hR (hl _) (hr _)
    have hnode : Carries R (cx.evalNode t l r) :=
      carries_evalOperation hR hkeep (hl _) (hr _) (hr _) hchoice
    have hcomma : Carries R
        (evalBinary (fun a b => .unknown [a, b]) (cx.eval l .separator) (cx.eval r .separator)) :=
      .binary hR (hl .separator) (hr .separator)
    intro st
    rw [eval_node]
    split_ifs
    · exact hcomma (cx.annotate t .top st)
    · rw [annotateUnreachable_store]
      exact hR.refl _
    · exact hnode st

/-! ### Variables that keep what is known about them -/

/-- If the store before is reachable, so is the one after, and it says the same of the variable. -/
def Keeps (v : VarId) (s s' : Store) : Prop :=
  s ≠ .unreachable → s' ≠ .unreachable ∧ s'.get v = s.get v

theorem composes_keeps (cx : EvalContext) (v : VarId) : cx.Composes (Keeps v) where
  refl _ hs := ⟨hs, rfl⟩
  trans h h' hs := by
    obtain ⟨hs₁, hget⟩ := h hs
    obtain ⟨hs₂, hget'⟩ := h' hs₁
    exact ⟨hs₂, hget'.trans hget⟩
  arms cond s s₁ s₂ h₁ h₂ hs := by
    obtain ⟨hs₁, hget₁⟩ := h₁ (Expr.narrowBy_ne_unreachable hs true)
    obtain ⟨-, hget₂⟩ := h₂ (Expr.narrowBy_ne_unreachable hs false)
    refine ⟨Store.join_ne_unreachable hs₁ s₂, ?_⟩
    rw [Store.get_join, hget₁, hget₂]
    -- The two outcomes of the condition leave together exactly what was known before.
    exact Tag.le_antisymm
      (Tag.join_le (Expr.narrowBy_le hs cond true v) (Expr.narrowBy_le hs cond false v))
      (Expr.le_join_narrowBy cond s v)
  second first holds s s₁ h₁ hs := by
    obtain ⟨-, hget₁⟩ := h₁ (Expr.narrowBy_ne_unreachable hs holds)
    refine ⟨Store.join_ne_unreachable hs s₁, ?_⟩
    rw [Store.get_join, hget₁]
    exact Tag.le_antisymm
      (Tag.join_le (Tag.le_refl _) (Expr.narrowBy_le hs first holds v)) (Tag.le_join_left _ _)

theorem keeps_set {w : VarId} (h : w ≠ v) (tag : Tag) (s : Store) : Keeps v s (s.set w tag) :=
  fun hs => ⟨Store.set_ne_unreachable hs w tag, by rw [Store.get_set hs, if_neg h]⟩

theorem keeps_havoc {vs : List VarId} (h : v ∉ vs) (s : Store) : Keeps v s (s.havoc vs) :=
  fun hs => ⟨Store.havoc_ne_unreachable hs vs, by rw [Store.get_havoc hs, if_neg h]⟩

/-- A write that is neither one by name nor indirect does not reach the variable, unless the target
is a conversion. -/
theorem keeps_written (hlinked : (Expr.node t l r).Linked cx.program)
    (hkind : (cx.program.isAssignment t || cx.program.isStep t) = true)
    (hcall : cx.program.isCall t = false)
    (hname : cx.program.assignsAt t ≠ some v)
    (hspoiled : v ∉ Expr.spoiledAt cx.program cx.escaped (.node t l r))
    (hconverted : v ∈ cx.escaped → (Expr.node t l r).writesConverted cx.program = false)
    (tag : Tag) (s : Store) : Keeps v s (cx.written l tag s) := by
  unfold written
  split
  · -- A write by name: the name is another variable's, or it would be listed.
    rename_i w hw
    refine keeps_set (fun hwv => hname ?_) tag s
    rw [hlinked.assignsAt hkind hw, hwv]
  · rename_i huntracked
    split
    · exact (composes_keeps cx v).refl s
    · rename_i hplain
      refine keeps_havoc (fun hescaped => ?_) s
      have hdirect : (Expr.node t l r).writesIndirectly cx.program = false := by
        by_contra hindirect
        exact hspoiled (by simp [Expr.spoiledAt, hcall, hindirect, hescaped])
      have hcast : l.token?.any cx.program.isCast = false := by
        simpa [Expr.writesConverted, hkind, hdirect] using hconverted hescaped
      -- Without a conversion to look through, both sides ask the same of the target.
      cases l with
      | absent => simp [Expr.writesIndirectly, hkind, Expr.stripCasts] at hdirect
      | node u a b =>
        have hu : cx.program.trackedVar? u = none := huntracked
        have hnocast : cx.program.isCast u = false := hcast
        have hnoplain : cx.program.namesPlainly u = false := by simpa [Expr.token?] using hplain
        simp [Expr.writesIndirectly, hkind, Expr.stripCasts, hnocast, hu, hnoplain] at hdirect

/-- What an expression does not clobber, its writes and calls keep. -/
theorem writesKeep_keeps (hlinked : e.Linked cx.program)
    (hv : v ∉ e.clobbered cx.program cx.escaped)
    (hconverted : v ∈ cx.escaped → ∀ e' ∈ e.subterms, e'.writesConverted cx.program = false) :
    cx.WritesKeep (Keeps v) e := by
  induction e with
  | absent => trivial
  | node t l r ihl ihr =>
    rw [Expr.mem_clobbered_node, not_or, not_or, not_or] at hv
    obtain ⟨hname, hspoiled, hvl, hvr⟩ := hv
    obtain ⟨-, -, hllinked, hrlinked⟩ := id hlinked
    refine ⟨fun hkind hcall => ?_, fun hcall hsize s => ?_, ihl hllinked hvl ?_, ihr hrlinked hvr ?_⟩
    · exact keeps_written hlinked hkind hcall hname hspoiled fun h =>
        hconverted h _ (List.mem_cons_self ..)
    · simp only [Expr.spoiledAt, hcall, hsize, Bool.not_false, Bool.and_self, if_true,
        List.mem_append, not_or] at hspoiled
      exact (composes_keeps cx v).trans (keeps_havoc hspoiled.1 s) (keeps_havoc hspoiled.2 _)
    · exact fun h e' he' => hconverted h e' (List.mem_cons_of_mem _ (List.mem_append_left _ he'))
    · exact fun h e' he' => hconverted h e' (List.mem_cons_of_mem _ (List.mem_append_right _ he'))

/-- **What evaluation changes, the expression is said to clobber.**  Evaluation from a reachable
store changes what is known about a variable only if the variable is listed, or if it escapes and
the expression writes to a conversion of a variable that is named directly. -/
theorem evaluate_changes (cx : EvalContext) (t : TokenId) (st : EvalState) (v : VarId)
    (hst : st.store ≠ .unreachable)
    (hv : (cx.evaluate (cx.program.expr t) st).2.store.get v ≠ st.store.get v) :
    v ∈ (cx.program.expr t).clobbered cx.program cx.escaped ∨
      (v ∈ cx.escaped ∧
        ∃ e ∈ (cx.program.expr t).subterms, e.writesConverted cx.program = true) := by
  by_contra hno
  rw [not_or, not_and, not_exists] at hno
  obtain ⟨hclobbered, hconverted⟩ := hno
  have hkeep : cx.WritesKeep (Keeps v) (cx.program.expr t) := by
    refine writesKeep_keeps (cx.program.linked_expr t) hclobbered fun h e he => ?_
    simpa using fun hw => hconverted h e ⟨he, hw⟩
  have hkept : Keeps v st.store (cx.evaluate (cx.program.expr t) st).2.store :=
    related_eval (composes_keeps cx v) hkeep .operator st
  exact hv (hkept hst).2

end EvalContext

/-! ### Writes by name, by a call, and to a conversion -/

/-- `x = f();`, the variable 1 being `x`, with another variable 2. -/
def calledWrite : Program where
  tokens := #[
    { text := "x", isName := true, varId := 1, var := some 0, parent := some 1, next := some 1 },
    { text := "=", left := some 0, right := some 3, next := some 2, previous := some 0 },
    { text := "f", isName := true, parent := some 3, next := some 3, previous := some 1 },
    { text := "(", left := some 2, parent := some 1, next := some 4, previous := some 2,
      link := some 4 },
    { text := ")", next := some 5, previous := some 3, link := some 3 },
    { text := ";", previous := some 4 }]
  vars := #[{ id := 1, isLocal := true }, { id := 2, isLocal := true }]

/-- Evaluation of `calledWrite` where both variables are known not to be zero. -/
def calledWriteState : EvalState := { store := (Store.top.set 1 .nonZero).set 2 .nonZero }

/-- `(int &)x = 5;`, the variable 1 being `x`, with another variable 2. -/
def convertedWrite : Program where
  tokens := #[
    { text := "(", isCast := true, left := some 4, parent := some 5, next := some 1,
      link := some 3 },
    { text := "int", isName := true, next := some 2, previous := some 0 },
    { text := "&", next := some 3, previous := some 1 },
    { text := ")", next := some 4, previous := some 2, link := some 0 },
    { text := "x", isName := true, varId := 1, var := some 0, parent := some 0, next := some 5,
      previous := some 3 },
    { text := "=", left := some 0, right := some 6, next := some 6, previous := some 4 },
    { text := "5", isNumber := true, parent := some 5, next := some 7, previous := some 5 },
    { text := ";", previous := some 6 }]
  vars := #[{ id := 1, isLocal := true }, { id := 2, isLocal := true }]

/-- Evaluation of `convertedWrite` where the variable 2 escapes and is known not to be zero. -/
def convertedWriteState : EvalState := { store := Store.top.set 2 .nonZero }

/-- `x` is written by name, and the variable 2 escapes into the call: both are listed.  Without a
call, it changes with a write to a conversion. -/
theorem evaluate_changes_callAndConversion :
    (calledWriteState.store ≠ .unreachable ∧ ∀ v ∈ ([1, 2] : List VarId),
      (EvalContext.evaluate { program := calledWrite, escaped := [2] } (calledWrite.expr 1)
        calledWriteState).2.store.get v ≠ calledWriteState.store.get v ∧
      v ∈ (calledWrite.expr 1).clobbered calledWrite [2]) ∧
    (convertedWriteState.store ≠ .unreachable ∧
      (EvalContext.evaluate { program := convertedWrite, escaped := [2] } (convertedWrite.expr 5)
        convertedWriteState).2.store.get 2 ≠ convertedWriteState.store.get 2 ∧
      ∃ e ∈ (convertedWrite.expr 5).subterms, e.writesConverted convertedWrite = true) := by
  constructor
  · have hst : calledWriteState.store ≠ .unreachable := by decide +kernel
    have hv : ∀ v ∈ ([1, 2] : List VarId),
        (EvalContext.evaluate { program := calledWrite, escaped := [2] } (calledWrite.expr 1)
          calledWriteState).2.store.get v ≠ calledWriteState.store.get v := by decide +kernel
    have hplain : ∀ e ∈ (calledWrite.expr 1).subterms, e.writesConverted calledWrite ≠ true := by
      decide +kernel
    refine ⟨hst, fun v hmem => ⟨hv v hmem, ?_⟩⟩
    rcases EvalContext.evaluate_changes { program := calledWrite, escaped := [2] } 1 _ v hst
      (hv v hmem) with hlisted | ⟨-, e, he, hconverted⟩
    · exact hlisted
    · exact absurd hconverted (hplain e he)
  · have hst : convertedWriteState.store ≠ .unreachable := by decide +kernel
    have hv : (EvalContext.evaluate { program := convertedWrite, escaped := [2] }
        (convertedWrite.expr 5) convertedWriteState).2.store.get 2 ≠
          convertedWriteState.store.get 2 := by decide +kernel
    have hunlisted : (2 : VarId) ∉ (convertedWrite.expr 5).clobbered convertedWrite [2] := by
      decide +kernel
    refine ⟨hst, hv, ?_⟩
    rcases EvalContext.evaluate_changes { program := convertedWrite, escaped := [2] } 5 _ 2 hst hv
      with hlisted | ⟨-, hconverted⟩
    · exact absurd hlisted hunlisted
    · exact hconverted

/-- **A change that is not listed.**  `(int &)x = 5` makes evaluation forget the variable 2, which
escapes, and is not said to clobber anything. -/
theorem change_not_clobbered :
    ¬ ∀ (cx : EvalContext) (t : TokenId) (st : EvalState) (v : VarId),
      st.store ≠ .unreachable →
      (cx.evaluate (cx.program.expr t) st).2.store.get v ≠ st.store.get v →
      v ∈ (cx.program.expr t).clobbered cx.program cx.escaped := by
  intro hall
  have hlisted := hall { program := convertedWrite, escaped := [2] } 5 convertedWriteState 2
    (by decide +kernel) (by decide +kernel)
  exact absurd hlisted (by decide +kernel)

end DivisorCheck
