/-
  Which tokens evaluation takes to be never run.

  The operand of a question about sizes is not run, and evaluation tags it `bottom`.
  As long as no variable is known to be impossible, that is the only way in which
  a token comes to this tag (`EvalContext.keepsWithin_eval`).  The other way round,
  if the question is among the expressions that evaluation runs, and no token
  occurs twice, its operand has the tag in the end (`EvalContext.unrun_eval`).
-/
import DivisorCheck.Proofs.Expr.Blocks
import DivisorCheck.Proofs.Expr.Coverage

namespace DivisorCheck

/-! ### Operands that are not run -/

/-- The token lies in the operand of a question about sizes among the expressions. -/
def Program.InSizeOperand (p : Program) (es : List Expr) (u : TokenId) : Prop :=
  ∃ t l r, .node t l r ∈ es ∧ p.isSizeQuery t = true ∧ u ∈ r.tokens

/-- The expressions below a node that evaluation runs, given those in the operands; of the second
one also as a list of arguments, and of the two as a choice. -/
def Program.evaluatedWith (p : Program) (t : TokenId) (l r : Expr)
    (left right arguments choice : List Expr) : List Expr :=
  match p.operation t l r with
  | .leaf => []
  | .cast => left
  | .assignment => (if p.text t = "=" ∧ (l.trackedVar? p).isSome then [] else left) ++ right
  | .increment => left
  | .sizeQuery => []
  | .call => left ++ arguments
  | .choice => choice
  | .shortCircuit => left ++ right
  | .unary => left
  | .comma => left ++ right
  | .member => left
  | .binary => left ++ right

namespace Expr

/-- The expressions within an expression that evaluation runs. -/
def evaluated (p : Program) : Expr → CommaRole → List Expr
  | absent, _ => []
  | node t l r, role =>
    if role = .separator ∧ p.text t = "," ∧ !l.isAbsent ∧ !r.isAbsent then
      evaluated p l .separator ++ evaluated p r .separator
    else
      let left := evaluated p l .operator
      let right := evaluated p r .operator
      let choice :=
        match r with
        | absent => left
        | node colon a b =>
          if p.text colon = ":" then
            left ++ (evaluated p a .operator ++ evaluated p b .operator)
          else left ++ right
      node t l r :: p.evaluatedWith t l r left right (evaluated p r .separator) choice
termination_by structural e => e

variable {p : Program} {t u : TokenId} {l r e : Expr}

/-- The expressions of a choice that evaluation runs, given as the two operands. -/
def evaluatedChoice (p : Program) (l : Expr) : Expr → List Expr
  | absent => l.evaluated p .operator
  | node colon a b =>
    if p.text colon = ":" then
      l.evaluated p .operator ++ (a.evaluated p .operator ++ b.evaluated p .operator)
    else l.evaluated p .operator ++ (node colon a b).evaluated p .operator

/-- The expressions below a node that evaluation runs. -/
def evaluatedBelow (p : Program) (t : TokenId) (l r : Expr) : List Expr :=
  p.evaluatedWith t l r (l.evaluated p .operator) (r.evaluated p .operator)
    (r.evaluated p .separator) (evaluatedChoice p l r)

theorem evaluated_node (t : TokenId) (l r : Expr) (role : CommaRole) :
    (node t l r).evaluated p role =
      if role = .separator ∧ p.text t = "," ∧ !l.isAbsent ∧ !r.isAbsent then
        l.evaluated p .separator ++ r.evaluated p .separator
      else node t l r :: evaluatedBelow p t l r := by
  cases r <;> rfl

end Expr

namespace Program.InSizeOperand

variable {p : Program} {u : TokenId} {es es' : List Expr}

theorem not_nil : ¬ p.InSizeOperand [] u := fun ⟨_, _, _, h, _⟩ => List.not_mem_nil h

theorem append_iff :
    p.InSizeOperand (es ++ es') u ↔ p.InSizeOperand es u ∨ p.InSizeOperand es' u := by
  simp only [InSizeOperand, List.mem_append]
  constructor
  · rintro ⟨t, l, r, h | h, hrest⟩
    · exact .inl ⟨t, l, r, h, hrest⟩
    · exact .inr ⟨t, l, r, h, hrest⟩
  · rintro (⟨t, l, r, h, hrest⟩ | ⟨t, l, r, h, hrest⟩)
    · exact ⟨t, l, r, .inl h, hrest⟩
    · exact ⟨t, l, r, .inr h, hrest⟩

theorem cons_iff {e : Expr} :
    p.InSizeOperand (e :: es) u ↔ p.InSizeOperand [e] u ∨ p.InSizeOperand es u := by
  rw [← append_iff, List.singleton_append]

theorem mono (h : p.InSizeOperand es u) (hes : ∀ e ∈ es, e ∈ es') : p.InSizeOperand es' u := by
  obtain ⟨t, l, r, hmem, hrest⟩ := h
  exact ⟨t, l, r, hes _ hmem, hrest⟩

/-- The operand lies below the top of the expression. -/
theorem mem_tail {e : Expr} (h : p.InSizeOperand e.subterms u) : u ∈ e.tokens.tail := by
  have hsub : ∀ {e e' : Expr}, e' ∈ e.subterms → ∀ u ∈ e'.tokens.tail, u ∈ e.tokens.tail := by
    intro e e' he' u hu
    induction e with
    | absent => cases he'
    | node t l r ihl ihr =>
      rcases List.mem_cons.1 he' with rfl | he'
      · exact hu
      · refine List.mem_append.2 ((List.mem_append.1 he').imp (fun h => ?_) fun h => ?_)
        · exact List.mem_of_mem_tail (ihl h)
        · exact List.mem_of_mem_tail (ihr h)
  obtain ⟨t, l, r, hmem, -, hu⟩ := h
  exact hsub hmem u (List.mem_append_right _ hu)

end Program.InSizeOperand

/-- All expressions that a node runs lie where those lie that its operands run. -/
theorem Program.of_mem_evaluatedWith {p : Program} {t : TokenId} {l r e : Expr} {P : Expr → Prop}
    {left right arguments choice : List Expr} (hleft : ∀ e ∈ left, P e) (hright : ∀ e ∈ right, P e)
    (harguments : ∀ e ∈ arguments, P e) (hchoice : ∀ e ∈ choice, P e)
    (he : e ∈ p.evaluatedWith t l r left right arguments choice) : P e := by
  have hboth : ∀ {es es' : List Expr}, (∀ e ∈ es, P e) → (∀ e ∈ es', P e) → e ∈ es ++ es' → P e :=
    fun hes hes' hmem => (List.mem_append.1 hmem).elim (hes e) (hes' e)
  unfold evaluatedWith at he
  cases hop : p.operation t l r <;> rw [hop] at he
  case leaf => cases he
  case cast => exact hleft e he
  case assignment =>
    refine hboth (fun e' he' => ?_) hright he
    split_ifs at he'
    · cases he'
    · exact hleft e' he'
  case increment => exact hleft e he
  case sizeQuery => cases he
  case call => exact hboth hleft harguments he
  case choice => exact hchoice e he
  case shortCircuit => exact hboth hleft hright he
  case unary => exact hleft e he
  case comma => exact hboth hleft hright he
  case member => exact hleft e he
  case binary => exact hboth hleft hright he

/-- Evaluation runs parts of the expression only. -/
theorem Expr.mem_subterms_of_mem_evaluated {p : Program} {e x : Expr} {role : CommaRole}
    (hx : x ∈ e.evaluated p role) : x ∈ e.subterms := by
  induction e using induction_arms generalizing x role with
  | habsent => cases hx
  | hnode t l r ihl ihr iharms =>
    have hleft : ∀ {role}, ∀ x ∈ l.evaluated p role, x ∈ l.subterms ++ r.subterms :=
      fun x h => List.mem_append_left _ (ihl h)
    have hright : ∀ {role}, ∀ x ∈ r.evaluated p role, x ∈ l.subterms ++ r.subterms :=
      fun x h => List.mem_append_right _ (ihr h)
    have hchoice : ∀ x ∈ evaluatedChoice p l r, x ∈ l.subterms ++ r.subterms := by
      intro x hmem
      cases r with
      | absent => exact hleft x hmem
      | node colon a b =>
        obtain ⟨iha, ihb⟩ := iharms colon a b rfl
        rw [evaluatedChoice] at hmem
        split_ifs at hmem
        · refine (List.mem_append.1 hmem).elim (hleft x) fun harm => List.mem_append_right _ ?_
          refine List.mem_cons_of_mem _ (List.mem_append.2 ?_)
          exact (List.mem_append.1 harm).imp (fun h => iha h) fun h => ihb h
        · exact (List.mem_append.1 hmem).elim (hleft x) (hright x)
    rw [evaluated_node] at hx
    rw [subterms, List.mem_cons]
    split_ifs at hx
    · exact .inr ((List.mem_append.1 hx).elim (hleft x) (hright x))
    · exact (List.mem_cons.1 hx).imp_right
        (Program.of_mem_evaluatedWith hleft hright hright hchoice)

/-- The operands of the questions that evaluation asks lie below the top of the expression. -/
theorem Program.InSizeOperand.mem_tail_of_evaluated {p : Program} {e : Expr} {role : CommaRole}
    {u : TokenId} (h : p.InSizeOperand (e.evaluated p role) u) : u ∈ e.tokens.tail :=
  (h.mono fun _ hx => Expr.mem_subterms_of_mem_evaluated hx).mem_tail

theorem Program.operation_of_isSizeQuery {p : Program} {t : TokenId} {l r : Expr}
    (h : p.isSizeQuery t = true) (hr : r ≠ .absent) : p.operation t l r = .sizeQuery := by
  have hcall : p.isCall t = true := (Bool.and_eq_true_iff.1 h).1
  have htext : p.text t = "(" := by
    by_contra hne
    rw [isCall_eq_false_of_text hne] at hcall
    cases hcall
  have hcast : p.isCast t = false := by
    unfold isCall at hcall
    simpa using (Bool.and_eq_true_iff.1 hcall).2
  have hassign : p.isAssignment t = false := by
    unfold isAssignment
    rw [htext]
    rfl
  have hstep : p.isStep t = false := by simp [isStep, htext]
  unfold operation
  simp [hr, hcast, hassign, hstep, h]

/-! ### Nothing else is tagged `bottom` -/

/-- Only tokens of the set are tagged `bottom`. -/
def EvalState.BottomWithin (S : Set TokenId) (st : EvalState) : Prop :=
  ∀ u, st.annotations.get? u = some .bottom → u ∈ S

namespace EvalState.BottomWithin

variable {S : Set TokenId} {st : EvalState}

theorem annotate (h : st.BottomWithin S) (cx : EvalContext) (t : TokenId) {tag : Tag}
    (htag : tag ≠ .bottom) : (cx.annotate t tag st).BottomWithin S := by
  intro u hu
  rw [EvalContext.annotate, Annotations.get?_insert] at hu
  split_ifs at hu
  · exact absurd (Option.some.inj hu) htag
  · exact h u hu

theorem annotateTop (h : st.BottomWithin S) (cx : EvalContext) (e : Expr) {tag : Tag}
    (htag : tag ≠ .bottom) : (cx.annotateTop e tag st).BottomWithin S := by
  cases e with
  | absent => exact h
  | node t l r => exact h.annotate cx t htag

theorem annotateUnreachable (h : st.BottomWithin S) (cx : EvalContext) {e : Expr}
    (he : ∀ u ∈ e.tokens, u ∈ S) : (cx.annotateUnreachable e st).BottomWithin S := by
  unfold EvalContext.annotateUnreachable
  revert he
  generalize e.tokens = us
  intro hus
  induction us generalizing st with
  | nil => exact h
  | cons a us ih =>
    have hfirst : (cx.annotate a .bottom st).BottomWithin S := by
      intro u hu
      rw [EvalContext.annotate, Annotations.get?_insert] at hu
      split_ifs at hu with hau
      · exact hau ▸ hus a (List.mem_cons_self ..)
      · exact h u hu
    exact ih hfirst fun u hu => hus u (List.mem_cons_of_mem _ hu)

end EvalState.BottomWithin

namespace EvalContext

variable {cx : EvalContext} {S : Set TokenId} {ts ts' : List TokenId} {t : TokenId} {l r : Expr}
  {st : EvalState}

/-- As long as no variable is known to be impossible, the step tags only tokens of the set
`bottom`. -/
def KeepsWithin (S : Set TokenId) (f : EvalStep) : Prop :=
  ∀ st, st.store.Live → st.BottomWithin S → (f st).2.BottomWithin S

section Operators

variable {evalLeft evalRight : EvalStep}

theorem KeepsWithin.binary (f : Tag → Tag → Tag) (hl : Confined cx.program ts evalLeft)
    (hkeepsLeft : KeepsWithin S evalLeft) (hkeepsRight : KeepsWithin S evalRight) :
    KeepsWithin S (evalBinary f evalLeft evalRight) := fun st hst h =>
  hkeepsRight _ (hl.live st hst).2 (hkeepsLeft st hst h)

theorem keepsWithin_write {target : Expr} (hkeeps : KeepsWithin S evalLeft)
    {tag : Tag} (htag : tag ≠ .bottom) (hst : st.store.Live) (h : st.BottomWithin S) :
    (cx.write target evalLeft tag st).BottomWithin S := by
  unfold write
  split
  · rename_i v _
    have hset : (st.on (st.store.set v tag)).BottomWithin S := h
    exact hset.annotateTop cx target htag
  · split
    · exact h
    · rename_i u _
      extract_lets st'
      have hst' : st'.BottomWithin S := by
        unfold st'
        split
        · exact h
        · exact hkeeps st hst h
      split <;> exact hst'

theorem KeepsWithin.assignment (op : String) (hl : Confined cx.program ts evalLeft)
    (hr : Confined cx.program ts' evalRight) (hkeepsLeft : KeepsWithin S evalLeft)
    (hkeepsRight : KeepsWithin S evalRight) :
    KeepsWithin S (cx.evalAssignment op l evalLeft evalRight) := by
  intro st hst h
  unfold evalAssignment
  split
  · obtain ⟨ha, hst'⟩ := hr.live st hst
    exact keepsWithin_write hkeepsLeft ha hst' (hkeepsRight st hst h)
  · obtain ⟨ha, hst'⟩ := hl.live st hst
    obtain ⟨hb, hst''⟩ := hr.live _ hst'
    exact keepsWithin_write hkeepsLeft (binaryTag_ne_bottom _ ha hb) hst''
      (hkeepsRight _ hst' (hkeepsLeft st hst h))

theorem KeepsWithin.increment (isPostfix : Bool) (hl : Confined cx.program ts evalLeft)
    (hkeeps : KeepsWithin S evalLeft) : KeepsWithin S (cx.evalIncrement isPostfix l evalLeft) := by
  intro st hst h
  obtain ⟨ha, hst'⟩ := hl.live st hst
  have hnew : (evalLeft st).1.add .nonZero ≠ .bottom := by
    revert ha
    cases (evalLeft st).1 <;> decide
  exact keepsWithin_write hkeeps hnew hst' (hkeeps st hst h)

theorem KeepsWithin.sizeQuery (hr : ∀ u ∈ r.tokens, u ∈ S) :
    KeepsWithin S (cx.evalSizeQuery l r) := fun _ _ h =>
  (h.annotateTop cx l Tag.noConfusion).annotateUnreachable cx hr

theorem KeepsWithin.call (call : Expr) (hl : Confined cx.program ts evalLeft)
    (hkeeps : KeepsWithin S evalLeft) (hkeepsArgs : KeepsWithin S evalRight) :
    KeepsWithin S (cx.evalCall call l evalLeft evalRight) := by
  intro st hst h
  unfold evalCall
  extract_lets st₁ st₂
  have hst₁ : st₁.store.Live := by
    unfold st₁
    rwa [annotateTop_store]
  have h₁ : st₁.BottomWithin S := h.annotateTop cx l Tag.noConfusion
  have h₂ : st₂.store.Live ∧ st₂.BottomWithin S := by
    unfold st₂
    split
    · exact ⟨hst₁, h₁⟩
    · exact ⟨(hl.live st₁ hst₁).2, hkeeps st₁ hst₁ h₁⟩
  exact hkeepsArgs st₂ h₂.1 h₂.2

theorem KeepsWithin.conditional (cond : Expr) (colon : TokenId)
    {evalCond evalThen evalElse : EvalStep} (hcond : Confined cx.program ts evalCond)
    (hthen : Confined cx.program ts' evalThen) (hkeepsCond : KeepsWithin S evalCond)
    (hkeepsThen : KeepsWithin S evalThen) (hkeepsElse : KeepsWithin S evalElse) :
    KeepsWithin S (cx.evalConditional cond colon evalCond evalThen evalElse) := by
  intro st hst h
  have hlive := (hcond.live st hst).2
  have hnarrowed : ∀ holds,
      (cond.narrowBy cx.program cx.escaped holds (evalCond st).2.store).Live :=
    fun holds => Expr.narrowBy_ne_bottom hlive holds
  rw [evalConditional_eq]
  unfold evalArms
  extract_lets a b
  have ha : a.1 ≠ .bottom := (hthen.live ((evalCond st).2.on _) (hnarrowed true)).1
  have hfirst : a.2.BottomWithin S :=
    hkeepsThen ((evalCond st).2.on _) (hnarrowed true) (hkeepsCond st hst h)
  have hsecond : b.2.BottomWithin S := hkeepsElse (a.2.on _) (hnarrowed false) hfirst
  have hjoined : (b.2.on (a.2.store.join b.2.store)).BottomWithin S := hsecond
  exact hjoined.annotate cx colon (Tag.join_ne_bottom ha)

theorem KeepsWithin.shortCircuit (isAnd : Bool) (first : Expr)
    (hl : Confined cx.program ts evalLeft) (hkeepsLeft : KeepsWithin S evalLeft)
    (hkeepsRight : KeepsWithin S evalRight) :
    KeepsWithin S (cx.evalShortCircuit isAnd first evalLeft evalRight) := by
  intro st hst h
  have hnarrowed : (first.narrowBy cx.program cx.escaped isAnd (evalLeft st).2.store).Live :=
    Expr.narrowBy_ne_bottom (hl.live st hst).2 isAnd
  exact hkeepsRight ((evalLeft st).2.on _) hnarrowed (hkeepsLeft st hst h)

end Operators

theorem keepsWithin_evalOperation {evalLeft evalRight evalArguments evalChoice : EvalStep}
    (hsize : cx.program.isSizeQuery t = true → ∀ u ∈ r.tokens, u ∈ S)
    (hl : Confined cx.program ts evalLeft) (hr : Confined cx.program ts' evalRight)
    (hkeepsLeft : KeepsWithin S evalLeft) (hkeepsRight : KeepsWithin S evalRight)
    (hkeepsArgs : KeepsWithin S evalArguments) (hkeepsChoice : KeepsWithin S evalChoice) :
    KeepsWithin S (cx.evalOperation t l r evalLeft evalRight evalArguments evalChoice) := by
  have hop := Program.operation_cases cx.program t l r
  unfold evalOperation
  extract_lets p op
  cases hkind : cx.program.operation t l r <;> rw [hkind] at hop <;> simp only [p]
  case leaf => exact fun _ _ h => h
  case cast => exact hkeepsLeft
  case assignment => exact .assignment op hl hr hkeepsLeft hkeepsRight
  case increment => exact .increment _ hl hkeepsLeft
  case sizeQuery => exact .sizeQuery (hsize hop)
  case call => exact .call _ hl hkeepsLeft hkeepsArgs
  case choice => exact hkeepsChoice
  case shortCircuit => exact .shortCircuit _ l hl hkeepsLeft hkeepsRight
  case unary => exact hkeepsLeft
  case comma => exact .binary _ hl hkeepsLeft hkeepsRight
  case member => exact fun st hst h => (hkeepsLeft st hst h).annotateTop cx r Tag.noConfusion
  case binary => exact .binary _ hl hkeepsLeft hkeepsRight

/-- **Where something may be reached, only operands of questions about sizes are tagged
`bottom`.** -/
theorem keepsWithin_eval {e : Expr} (hlinked : e.Linked cx.program)
    (hS : ∀ u, cx.program.InSizeOperand e.subterms u → u ∈ S) (role : CommaRole) :
    KeepsWithin S (cx.eval e role) := by
  induction e using Expr.induction_arms generalizing role with
  | habsent => exact fun _ _ h => h
  | hnode t l r ihl ihr iharms =>
    obtain ⟨-, -, hllinked, hrlinked⟩ := id hlinked
    have hsubLeft : ∀ e ∈ l.subterms, e ∈ (Expr.node t l r).subterms := fun e he =>
      List.mem_cons_of_mem _ (List.mem_append_left _ he)
    have hsubRight : ∀ e ∈ r.subterms, e ∈ (Expr.node t l r).subterms := fun e he =>
      List.mem_cons_of_mem _ (List.mem_append_right _ he)
    have hl := ihl hllinked fun u hu => hS u (hu.mono hsubLeft)
    have hr := ihr hrlinked fun u hu => hS u (hu.mono hsubRight)
    have hconfined := fun role => confined_of_linked hllinked role
    have hchoice : KeepsWithin S (cx.evalChoice l r) := by
      cases r with
      | absent => exact hl _
      | node colon a b =>
        obtain ⟨iha, ihb⟩ := iharms colon a b rfl
        obtain ⟨-, -, halinked, hblinked⟩ := id hrlinked
        have ha := iha halinked fun u hu => hS u (hu.mono fun e he =>
          hsubRight e (List.mem_cons_of_mem _ (List.mem_append_left _ he)))
        have hb := ihb hblinked fun u hu => hS u (hu.mono fun e he =>
          hsubRight e (List.mem_cons_of_mem _ (List.mem_append_right _ he)))
        rw [evalChoice]
        split_ifs
        · exact .conditional l colon (hconfined _) (confined_of_linked halinked _) (hl _) (ha _)
            (hb _)
        · exact .binary _ (hconfined _) (hl _) (hr _)
    have hnode : KeepsWithin S (cx.evalNode t l r) := by
      refine keepsWithin_evalOperation (fun hsize u hu => ?_) (hconfined _)
        (confined_of_linked hrlinked _) (hl _) (hr _) (hr _) hchoice
      exact hS u ⟨t, l, r, List.mem_cons_self .., hsize, hu⟩
    intro st hst h
    rw [eval_node]
    split_ifs with hsep hreach
    · exact KeepsWithin.binary _ (hconfined _) (hl _) (hr _) _ hst (h.annotate cx t Tag.noConfusion)
    · exact absurd (Store.isUnreachable_iff.1 hreach) hst.ne_unreachable
    · have htag := ((confined_of_linked hlinked .operator).live st hst).1
      rw [eval_node, if_neg (fun h => CommaRole.noConfusion h.1), if_neg hreach] at htag
      exact (hnode st hst h).annotate cx t htag

/-! ### The operands of questions that are asked -/

theorem get?_annotate (tag : Tag) (u : TokenId) :
    (cx.annotate t tag st).annotations.get? u =
      if t = u then some tag else st.annotations.get? u :=
  Annotations.get?_insert ..

/-- Marking an expression as never run tags all of it `bottom`, and no other tag is lost. -/
theorem get?_annotateUnreachable {e : Expr} {u : TokenId}
    (h : u ∈ e.tokens ∨ st.annotations.get? u = some .bottom) :
    (cx.annotateUnreachable e st).annotations.get? u = some .bottom := by
  unfold annotateUnreachable
  revert h
  generalize e.tokens = us
  intro h
  induction us generalizing st with
  | nil => exact h.resolve_left List.not_mem_nil
  | cons a us ih =>
    refine ih ?_
    rw [get?_annotate]
    rcases h with hmem | hdone
    · rcases List.mem_cons.1 hmem with rfl | hmem
      · exact .inr (if_pos rfl)
      · exact .inl hmem
    · refine .inr ?_
      split_ifs
      · rfl
      · exact hdone

/-- On a reachable store, where none of the tokens in `fresh` has a tag yet, the step leaves
`bottom` on the operands of questions about sizes among the expressions. -/
def Blanks (p : Program) (fresh : List TokenId) (es : List Expr) (f : EvalStep) : Prop :=
  ∀ st : EvalState, st.store ≠ .unreachable → Fresh fresh st → ∀ u, p.InSizeOperand es u →
    (f st).2.annotations.get? u = some .bottom

/-- Evaluating the expression leaves `bottom` on the operands of the questions about sizes that it
runs. -/
def Blanked (cx : EvalContext) (e : Expr) (role : CommaRole) : Prop :=
  Blanks cx.program e.tokens.tail (e.evaluated cx.program role) (cx.eval e role)

section Operators

theorem get?_eval {e : Expr} {u : TokenId} (hu : u ∉ e.tokens) (role : CommaRole)
    (st : EvalState) : (cx.eval e role st).2.annotations.get? u = st.annotations.get? u := by
  have htags : cx.Tags { u | u ∈ e.tokens } (cx.eval e role) := tags_eval (fun _ h => h) role
  exact (htags st).get?_eq hu

theorem get?_write {e : Expr} {u : TokenId} (hu : u ∉ e.tokens) (role : CommaRole) (tag : Tag)
    (st : EvalState) :
    (cx.write e (cx.eval e role) tag st).annotations.get? u = st.annotations.get? u := by
  have htags : Tagging cx { u | u ∈ e.tokens } st (cx.write e (cx.eval e role) tag st) :=
    tagging_write (fun _ h => h) (tags_eval (fun _ h => h) role) tag st
  exact htags.get?_eq hu

theorem get?_annotateTop {e : Expr} {u : TokenId} (hu : e.token? ≠ some u) (tag : Tag)
    (st : EvalState) :
    (cx.annotateTop e tag st).annotations.get? u = st.annotations.get? u := by
  cases e with
  | absent => rfl
  | node t l r =>
    have htu : t ≠ u := fun heq => hu (congrArg some heq)
    exact (get?_annotate tag u).trans (if_neg htu)

theorem annotations_settle (u : TokenId) :
    (cx.settle u st).annotations = st.annotations := by
  unfold settle
  split_ifs <;> rfl

/-- A write to a target that has a tag changes that of its top at most. -/
theorem get?_write_evaluated
    (hdone : ∀ v, l.token? = some v → st.annotations.contains v = true) {u : TokenId}
    (hu : l.token? ≠ some u) (f : EvalStep) (tag : Tag) :
    (cx.write l f tag st).annotations.get? u = st.annotations.get? u := by
  cases hv : l.trackedVar? cx.program with
  | some v =>
    rw [write_tracked hv, get?_annotateTop hu]
    rfl
  | none =>
    cases htop : l.token? with
    | none =>
      unfold write
      rw [hv, htop]
      rfl
    | some v =>
      rw [write_untracked hv htop, if_pos (hdone v htop), annotations_settle]

theorem blanks_binary (hapart : Expr.Apart t l r) (f : Tag → Tag → Tag) {role role' : CommaRole}
    (hcovered : cx.Covered l role) (hl : cx.Blanked l role) (hr : cx.Blanked r role') :
    Blanks cx.program (l.tokens ++ r.tokens)
      (l.evaluated cx.program role ++ r.evaluated cx.program role')
      (evalBinary f (cx.eval l role) (cx.eval r role')) := by
  intro st hst hnew u hu
  obtain ⟨hreach, hleft⟩ := hcovered st hst (fresh_left hnew)
  have hrun : (evalBinary f (cx.eval l role) (cx.eval r role') st).2 =
      (cx.eval r role' (cx.eval l role st).2).2 := rfl
  rw [hrun]
  rcases Program.InSizeOperand.append_iff.1 hu with hu | hu
  · have hmem := List.mem_of_mem_tail hu.mem_tail_of_evaluated
    rw [get?_eval (hapart.left_right u hmem)]
    exact hl st hst (fresh_left hnew) u hu
  · exact hr _ hreach (fresh_right hapart hnew hleft) u hu

theorem blanks_assignment (hapart : Expr.Apart t l r) (op : String)
    (hcl : cx.Covered l .operator) (hcr : cx.Covered r .operator)
    (hl : cx.Blanked l .operator) (hr : cx.Blanked r .operator) :
    Blanks cx.program (l.tokens ++ r.tokens)
      ((if op = "=" ∧ (l.trackedVar? cx.program).isSome then []
        else l.evaluated cx.program .operator) ++ r.evaluated cx.program .operator)
      (cx.evalAssignment op l (cx.eval l .operator) (cx.eval r .operator)) := by
  intro st hst hnew u hu
  unfold evalAssignment
  have hnotLeft : ∀ u ∈ r.tokens, u ∉ l.tokens := fun u hur hul => hapart.left_right u hul hur
  by_cases hop : op = "="
  · rw [if_pos hop]
    have hnewRight : Fresh r.tokens.tail st := fun u hu =>
      hnew u (List.mem_append_right _ (List.mem_of_mem_tail hu))
    obtain ⟨hreach, hvalue⟩ := hcr st hst hnewRight
    rcases Program.InSizeOperand.append_iff.1 hu with hu | hu
    · -- The target is evaluated after the value, which has not touched it.
      have hnewLeft : Fresh l.tokens (cx.eval r .operator st).2 := by
        refine hvalue.fresh (fun u hu => hnew u (List.mem_append_left _ hu)) fun u hu hmem => ?_
        exact hapart.left_right u hu (Expr.mem_tokens_of_mem_reached hmem)
      split_ifs at hu with htracked
      · exact absurd hu Program.InSizeOperand.not_nil
      · have hnone : l.trackedVar? cx.program = none := by simpa [hop] using htracked
        cases l with
        | absent => exact absurd hu Program.InSizeOperand.not_nil
        | node v a b =>
          have hnot : ¬ (cx.eval r .operator st).2.annotations.contains v = true := by
            simp [Annotations.contains, hnewLeft v (List.mem_cons_self ..)]
          have hblank := hl _ hreach (fun w hw => hnewLeft w (List.mem_of_mem_tail hw)) u hu
          show (cx.write _ _ _ _).annotations.get? u = _
          rw [write_untracked hnone rfl, if_neg hnot, annotations_settle]
          exact hblank
    · have hmem := List.mem_of_mem_tail hu.mem_tail_of_evaluated
      show (cx.write _ _ _ _).annotations.get? u = _
      rw [get?_write (hnotLeft u hmem)]
      exact hr st hst hnewRight u hu
  · rw [if_neg hop]
    rw [if_neg (fun h => hop h.1)] at hu
    obtain ⟨hreach, hleft⟩ := hcl st hst (fresh_left hnew)
    obtain ⟨hreach', hright⟩ := hcr _ hreach (fresh_right hapart hnew hleft)
    have hdone : ∀ u, l.token? = some u →
        (cx.eval r .operator (cx.eval l .operator st).2).2.annotations.contains u = true :=
      fun u hu => (hright u).2 (.inl (contains_top hleft hu))
    have hboth := blanks_binary hapart (binaryTag (compoundOperator op)) hcl hl hr st hst hnew u hu
    have htop : l.token? ≠ some u := by
      rcases Program.InSizeOperand.append_iff.1 hu with hu | hu
      · exact fun heq => Expr.not_mem_tail_of_token? hapart.left heq hu.mem_tail_of_evaluated
      · exact fun heq => hapart.left_right u (Expr.mem_tokens_of_token? heq)
          (List.mem_of_mem_tail hu.mem_tail_of_evaluated)
    show (cx.write _ _ _ _).annotations.get? u = _
    rw [get?_write_evaluated hdone htop]
    exact hboth

theorem blanks_increment (hapart : Expr.Apart t l r) (isPostfix : Bool)
    (hcovered : cx.Covered l .operator) (hl : cx.Blanked l .operator) :
    Blanks cx.program (l.tokens ++ r.tokens) (l.evaluated cx.program .operator)
      (cx.evalIncrement isPostfix l (cx.eval l .operator)) := by
  intro st hst hnew u hu
  obtain ⟨-, hleft⟩ := hcovered st hst (fresh_left hnew)
  have htop : l.token? ≠ some u := fun heq =>
    Expr.not_mem_tail_of_token? hapart.left heq hu.mem_tail_of_evaluated
  show (cx.write _ _ _ _).annotations.get? u = _
  rw [get?_write_evaluated (fun _ hv => contains_top hleft hv) htop]
  exact hl st hst (fresh_left hnew) u hu

theorem blanks_call (hapart : Expr.Apart t l r) (call : Expr) (hcovered : cx.Covered l .operator)
    (hl : cx.Blanked l .operator) (hr : cx.Blanked r .separator) :
    Blanks cx.program (l.tokens ++ r.tokens)
      (l.evaluated cx.program .operator ++ r.evaluated cx.program .separator)
      (cx.evalCall call l (cx.eval l .operator) (cx.eval r .separator)) := by
  intro st hst hnew u hu
  obtain ⟨hreach, hcallee⟩ := covers_callee hapart hcovered hst hnew
  show (cx.eval r .separator (cx.afterCallee l st)).2.annotations.get? u = _
  rcases Program.InSizeOperand.append_iff.1 hu with hu | hu
  · have hmem := hu.mem_tail_of_evaluated
    rw [get?_eval (hapart.left_right u (List.mem_of_mem_tail hmem))]
    have hnotLeaf : ¬ l.isLeaf = true := by
      intro hleaf
      cases l with
      | absent => cases hleaf
      | node v a b =>
        cases a <;> cases b <;> cases hleaf
        exact List.not_mem_nil hmem
    rw [afterCallee, if_neg hnotLeaf]
    refine hl _ ?_ (fresh_callee hapart hnew) u hu
    rwa [annotateTop_store]
  · exact hr _ hreach (fresh_right hapart hnew hcallee) u hu

theorem blanks_shortCircuit (hapart : Expr.Apart t l r) (isAnd : Bool) (first : Expr)
    (hcovered : cx.Covered l .operator) (hl : cx.Blanked l .operator)
    (hr : cx.Blanked r .operator) :
    Blanks cx.program (l.tokens ++ r.tokens)
      (l.evaluated cx.program .operator ++ r.evaluated cx.program .operator)
      (cx.evalShortCircuit isAnd first (cx.eval l .operator) (cx.eval r .operator)) := by
  intro st hst hnew u hu
  rw [evalShortCircuit_eq]
  extract_lets a b
  obtain ⟨hreach, hleft⟩ := hcovered st hst (fresh_left hnew)
  have hnarrowed : first.narrowBy cx.program cx.escaped isAnd a.2.store ≠ .unreachable :=
    Expr.narrowBy_ne_unreachable hreach isAnd
  show b.2.annotations.get? u = _
  rcases Program.InSizeOperand.append_iff.1 hu with hu | hu
  · have hmem := List.mem_of_mem_tail hu.mem_tail_of_evaluated
    have hsecond : b.2.annotations.get? u = a.2.annotations.get? u :=
      get?_eval (hapart.left_right u hmem) _ _
    rw [hsecond]
    exact hl st hst (fresh_left hnew) u hu
  · exact hr (a.2.on _) hnarrowed (fresh_right hapart hnew hleft) u hu

theorem blanks_arms {colon : TokenId} {a b : Expr} (hapart : Expr.Apart colon a b) (cond : Expr)
    (hcovered : cx.Covered a .operator) (ha : cx.Blanked a .operator)
    (hb : cx.Blanked b .operator) :
    Blanks cx.program (a.tokens ++ b.tokens)
      (a.evaluated cx.program .operator ++ b.evaluated cx.program .operator)
      (cx.evalArms cond colon (cx.eval a .operator) (cx.eval b .operator)) := by
  intro st hst hnew u hu
  unfold evalArms
  extract_lets x y
  have hnarrowed : ∀ holds, cond.narrowBy cx.program cx.escaped holds st.store ≠ .unreachable :=
    fun holds => Expr.narrowBy_ne_unreachable hst holds
  obtain ⟨hreach, hthen⟩ := hcovered (st.on _) (hnarrowed true) (fresh_left hnew)
  -- The colon is tagged last, and the second arm does not touch what the first one has tagged.
  have hcolon : colon ≠ u := by
    rintro rfl
    rcases Program.InSizeOperand.append_iff.1 hu with hu | hu
    · exact hapart.top_left (List.mem_of_mem_tail hu.mem_tail_of_evaluated)
    · exact hapart.top_right (List.mem_of_mem_tail hu.mem_tail_of_evaluated)
  have hlast : ∀ tag s, (cx.annotate colon tag (y.2.on s)).annotations.get? u =
      y.2.annotations.get? u := fun tag s => (get?_annotate tag u).trans (if_neg hcolon)
  rw [hlast]
  rcases Program.InSizeOperand.append_iff.1 hu with hu | hu
  · have hmem := List.mem_of_mem_tail hu.mem_tail_of_evaluated
    have hsecond : y.2.annotations.get? u = x.2.annotations.get? u :=
      get?_eval (hapart.left_right u hmem) _ _
    rw [hsecond]
    exact ha (st.on _) (hnarrowed true) (fresh_left hnew) u hu
  · exact hb (x.2.on _) (hnarrowed false) (fresh_right hapart hnew hthen) u hu

theorem blanks_choice (hapart : Expr.Apart t l r) (hcovered : cx.Covered l .operator)
    (hl : cx.Blanked l .operator) (hr : cx.Blanked r .operator)
    (harms : ∀ colon a b, r = .node colon a b → Expr.Apart colon a b ∧
      cx.Covered a .operator ∧ cx.Blanked a .operator ∧ cx.Blanked b .operator) :
    Blanks cx.program (l.tokens ++ r.tokens) (Expr.evaluatedChoice cx.program l r)
      (cx.evalChoice l r) := by
  cases r with
  | absent => exact fun st hst hnew => hl st hst (fresh_left hnew)
  | node colon a b =>
    obtain ⟨hapart', hca, ha, hb⟩ := harms colon a b rfl
    rw [evalChoice, Expr.evaluatedChoice]
    split_ifs with hcolon
    · intro st hst hnew u hu
      rw [evalConditional_eq]
      obtain ⟨hreach, hcond⟩ := hcovered st hst (fresh_left hnew)
      rcases Program.InSizeOperand.append_iff.1 hu with hu | hu
      · have hmem := List.mem_of_mem_tail hu.mem_tail_of_evaluated
        have harms : cx.Tags { u | u ∈ (Expr.node colon a b).tokens }
            (cx.evalArms l colon (cx.eval a .operator) (cx.eval b .operator)) :=
          .arms l (List.mem_cons_self ..)
            (tags_eval (fun u hu => List.mem_cons_of_mem _ (List.mem_append_left _ hu)) _)
            (tags_eval (fun u hu => List.mem_cons_of_mem _ (List.mem_append_right _ hu)) _)
        rw [(harms _).get?_eq (hapart.left_right u hmem)]
        exact hl st hst (fresh_left hnew) u hu
      · exact blanks_arms hapart' l hca ha hb _ hreach (fresh_right hapart hnew hcond) u hu
    · exact blanks_binary hapart _ hcovered hl hr

end Operators

/-! ### Expressions -/

theorem blanks_evalNode (hapart : Expr.Apart t l r) (hcl : ∀ role, cx.Covered l role)
    (hcr : ∀ role, cx.Covered r role) (hl : ∀ role, cx.Blanked l role)
    (hr : ∀ role, cx.Blanked r role)
    (harms : ∀ colon a b, r = .node colon a b → Expr.Apart colon a b ∧
      cx.Covered a .operator ∧ cx.Blanked a .operator ∧ cx.Blanked b .operator) :
    Blanks cx.program (l.tokens ++ r.tokens) (Expr.evaluatedBelow cx.program t l r)
      (cx.evalNode t l r) := by
  have hleft : Blanks cx.program (l.tokens ++ r.tokens) (l.evaluated cx.program .operator)
      (cx.eval l .operator) := fun st hst hnew => hl .operator st hst (fresh_left hnew)
  unfold Expr.evaluatedBelow Program.evaluatedWith evalNode evalOperation
  extract_lets p op
  cases cx.program.operation t l r
  case leaf => exact fun _ _ _ _ hu => absurd hu Program.InSizeOperand.not_nil
  case cast => exact hleft
  case assignment => exact blanks_assignment hapart op (hcl _) (hcr _) (hl _) (hr _)
  case increment => exact blanks_increment hapart _ (hcl _) (hl _)
  case sizeQuery => exact fun _ _ _ _ hu => absurd hu Program.InSizeOperand.not_nil
  case call => exact blanks_call hapart _ (hcl _) (hl _) (hr _)
  case choice => exact blanks_choice hapart (hcl _) (hl _) (hr _) harms
  case shortCircuit => exact blanks_shortCircuit hapart _ l (hcl _) (hl _) (hr _)
  case unary => exact hleft
  case comma => exact blanks_binary hapart _ (hcl _) (hl _) (hr _)
  case member =>
    intro st hst hnew u hu
    have hmem := List.mem_of_mem_tail hu.mem_tail_of_evaluated
    show (cx.annotateTop r .top _).annotations.get? u = _
    rw [get?_annotateTop (fun heq => hapart.left_right u hmem (Expr.mem_tokens_of_token? heq))]
    exact hleft st hst hnew u hu
  case binary => exact blanks_binary hapart _ (hcl _) (hl _) (hr _)

/-- The operand of a question about sizes that is asked. -/
theorem get?_sizeQuery (hapart : Expr.Apart t l r) (hsize : cx.program.isSizeQuery t = true)
    {u : TokenId} (hu : u ∈ r.tokens) (st : EvalState) :
    (cx.evalNode t l r st).2.annotations.get? u = some .bottom := by
  have hpresent : r ≠ .absent := by
    rintro rfl
    cases hu
  unfold evalNode evalOperation
  rw [Program.operation_of_isSizeQuery hsize hpresent]
  exact get?_annotateUnreachable (.inl hu)

/-- **The operands of the questions about sizes that are asked are tagged `bottom`**, if no token
occurs twice. -/
theorem unrun_eval {e : Expr} (hnodup : e.tokens.Nodup) (role : CommaRole) :
    cx.Blanked e role := by
  induction e using Expr.induction_arms generalizing role with
  | habsent => exact fun _ _ _ _ hu => absurd hu Program.InSizeOperand.not_nil
  | hnode t l r ihl ihr iharms =>
    have hapart := Expr.apart_of_nodup hnodup
    have hl := ihl hapart.left
    have hr := ihr hapart.right
    have hcl : ∀ role, cx.Covered l role := covered_eval hapart.left
    have hcr : ∀ role, cx.Covered r role := covered_eval hapart.right
    have hnode : Blanks cx.program (l.tokens ++ r.tokens) (Expr.evaluatedBelow cx.program t l r)
        (cx.evalNode t l r) := by
      refine blanks_evalNode hapart hcl hcr hl hr fun colon a b h => ?_
      subst h
      have harms := Expr.apart_of_nodup hapart.right
      exact ⟨harms, covered_eval harms.left _, (iharms colon a b rfl).1 harms.left _,
        (iharms colon a b rfl).2 harms.right _⟩
    intro st hst hnew u hu
    have hmem : u ∈ l.tokens ++ r.tokens := hu.mem_tail_of_evaluated
    have htop : t ≠ u := fun heq => (List.nodup_cons.1 hnodup).1 (heq ▸ hmem)
    have hreachable : ¬ st.store.isUnreachable = true :=
      fun h => hst (Store.isUnreachable_iff.1 h)
    rw [Expr.evaluated_node] at hu
    rw [eval_node, if_neg hreachable]
    split_ifs at hu ⊢ with hsep
    -- A separator is tagged before its operands, every other token after them.
    · have hnewBelow : Fresh (l.tokens ++ r.tokens) (cx.annotate t .top st) := by
        refine (Tagged.annotate cx t .top st).fresh hnew fun u hu hmem => ?_
        rw [List.mem_singleton.1 hmem] at hu
        exact (List.nodup_cons.1 hnodup).1 hu
      exact blanks_binary hapart _ (hcl _) (hl _) (hr _) (cx.annotate t .top st) hst hnewBelow u hu
    · refine (get?_annotate _ u).trans ((if_neg htop).trans ?_)
      rcases Program.InSizeOperand.cons_iff.1 hu with ⟨t', l', r', hthis, hsize, hu⟩ | hu
      · cases List.mem_singleton.1 hthis
        exact get?_sizeQuery hapart hsize hu st
      · exact hnode st hst hnew u hu

/-! ### Blocks -/

variable {root : TokenId} {roots : List TokenId}

theorem evalRoot_eval (hbare : ¬ cx.program.isBareDeclaration root = true)
    (hreach : ¬ st.store.isUnreachable = true) :
    cx.evalRoot st root = (cx.eval (cx.program.expr root) .operator st).2 := by
  unfold evalRoot
  simp only
  rw [if_neg hreach, if_neg hbare]
  rfl

/-- In a block that is never reached, all tokens of its expressions are tagged `bottom`. -/
theorem get?_evalRoots_of_unreachable (cx : EvalContext) (hst : st.store = .unreachable)
    {u : TokenId}
    (h : u ∈ cx.program.treeTokens roots ∨ st.annotations.get? u = some .bottom) :
    (roots.foldl cx.evalRoot st).annotations.get? u = some .bottom := by
  induction roots generalizing st with
  | nil => exact h.resolve_left List.not_mem_nil
  | cons root roots ih =>
    rw [List.foldl_cons, evalRoot_of_unreachable hst]
    refine ih ((annotateUnreachable_store _).trans hst) ?_
    rw [Program.treeTokens, List.flatMap_cons, List.mem_append, or_assoc] at h
    rcases h with hroot | hrest | hdone
    · exact .inr (get?_annotateUnreachable (.inl hroot))
    · exact .inl hrest
    · exact .inr (get?_annotateUnreachable (.inr hdone))

/-- In a block that is never reached, only tokens of its expressions are tagged `bottom`. -/
theorem bottomWithin_evalRoots_of_unreachable (cx : EvalContext) (roots : List TokenId)
    (hst : st.store = .unreachable) (hS : ∀ u ∈ cx.program.treeTokens roots, u ∈ S)
    (h : st.BottomWithin S) : (roots.foldl cx.evalRoot st).BottomWithin S := by
  induction roots generalizing st with
  | nil => exact h
  | cons root roots ih =>
    rw [Program.treeTokens, List.flatMap_cons] at hS
    rw [List.foldl_cons, evalRoot_of_unreachable hst]
    refine ih ((annotateUnreachable_store _).trans hst)
      (fun u hu => hS u (List.mem_append_right _ hu)) ?_
    exact h.annotateUnreachable cx fun u hu => hS u (List.mem_append_left _ hu)

/-- In a block that may be reached, only operands of questions about sizes are tagged `bottom`. -/
theorem keepsWithin_evalRoots (cx : EvalContext) (roots : List TokenId) (hst : st.store.Live)
    (hS : ∀ root ∈ roots, ∀ u,
      cx.program.InSizeOperand (cx.program.expr root).subterms u → u ∈ S)
    (h : st.BottomWithin S) : (roots.foldl cx.evalRoot st).BottomWithin S := by
  induction roots generalizing st with
  | nil => exact h
  | cons root roots ih =>
    refine ih (live_evalRoot cx root hst) (fun u hu => hS u (List.mem_cons_of_mem _ hu)) ?_
    have hreach : ¬ st.store.isUnreachable = true := fun hnot =>
      hst.ne_unreachable (Store.isUnreachable_iff.1 hnot)
    by_cases hbare : cx.program.isBareDeclaration root = true
    · rw [evalRoot_bare hbare hreach]
      have hundeclared : (st.on (cx.undeclared root st.store)).BottomWithin S := h
      exact hundeclared.annotate cx root Tag.noConfusion
    · rw [evalRoot_eval hbare hreach]
      exact keepsWithin_eval (cx.program.linked_expr root) (hS root (List.mem_cons_self ..))
        .operator st hst h

end EvalContext

/-- The expressions that evaluating some top-level expressions runs. -/
def Program.evaluatedIn (p : Program) (roots : List TokenId) : List Expr :=
  (roots.filter (!p.isBareDeclaration ·)).flatMap fun root => (p.expr root).evaluated p .operator

theorem Program.InSizeOperand.mem_treeTokens {p : Program} {roots : List TokenId} {u : TokenId}
    (h : p.InSizeOperand (p.evaluatedIn roots) u) : u ∈ p.treeTokens roots := by
  obtain ⟨t, l, r, hmem, hsize, hu⟩ := h
  obtain ⟨root, hroot, hrun⟩ := List.mem_flatMap.1 hmem
  have hown : p.InSizeOperand ((p.expr root).evaluated p .operator) u := ⟨t, l, r, hrun, hsize, hu⟩
  exact List.mem_flatMap.2
    ⟨root, (List.mem_filter.1 hroot).1, List.mem_of_mem_tail hown.mem_tail_of_evaluated⟩

namespace EvalContext

variable {cx : EvalContext} {roots : List TokenId} {st : EvalState}

/-- In a block that may be reached, the operands of the questions about sizes that are asked are
tagged `bottom`, if no token occurs twice. -/
theorem unrun_evalRoots (hnodup : (cx.program.treeTokens roots).Nodup)
    (hfresh : Fresh (cx.program.treeTokens roots) st) (hst : st.store.Live) {u : TokenId}
    (hu : cx.program.InSizeOperand (cx.program.evaluatedIn roots) u) :
    (roots.foldl cx.evalRoot st).annotations.get? u = some .bottom := by
  induction roots generalizing st with
  | nil => exact absurd hu Program.InSizeOperand.not_nil
  | cons root roots ih =>
    have htokens : cx.program.treeTokens (root :: roots) =
        (cx.program.expr root).tokens ++ cx.program.treeTokens roots := List.flatMap_cons ..
    rw [htokens] at hnodup hfresh
    obtain ⟨hroot, hrest, hapart⟩ := List.nodup_append.1 hnodup
    have hlive := live_evalRoot cx root hst
    have hmarks := (frame_evalRoot cx root st).toMarks
    have hfreshRest : Fresh (cx.program.treeTokens roots) (cx.evalRoot st root) :=
      Fresh.of_marks (fun u hu => hfresh u (List.mem_append_right _ hu)) hmarks
        fun u hu hu' => hapart u hu' u hu rfl
    rw [List.foldl_cons]
    -- A bare declaration is not evaluated, so no question is asked there.
    by_cases hbare : cx.program.isBareDeclaration root = true
    · refine ih hrest hfreshRest hlive ?_
      unfold Program.evaluatedIn at hu
      rwa [List.filter_cons_of_neg (by simpa using hbare)] at hu
    · have hsplit : cx.program.evaluatedIn (root :: roots) =
          (cx.program.expr root).evaluated cx.program .operator ++ cx.program.evaluatedIn roots := by
        unfold Program.evaluatedIn
        rw [List.filter_cons_of_pos (by simpa using hbare), List.flatMap_cons]
      rw [hsplit] at hu
      rcases Program.InSizeOperand.append_iff.1 hu with hu | hu
      · have hmem := List.mem_of_mem_tail hu.mem_tail_of_evaluated
        have hlater := (frame_evalRoots cx roots (cx.evalRoot st root)).annotations u
          fun hu' => hapart u hmem u hu' rfl
        have hreach : ¬ st.store.isUnreachable = true := fun hnot =>
          hst.ne_unreachable (Store.isUnreachable_iff.1 hnot)
        rw [hlater, evalRoot_eval hbare hreach]
        exact unrun_eval hroot .operator st hst.ne_unreachable
          (fun u hu => hfresh u (List.mem_append_left _ (List.mem_of_mem_tail hu))) u hu
      · exact ih hrest hfreshRest hlive hu

end EvalContext

end DivisorCheck
