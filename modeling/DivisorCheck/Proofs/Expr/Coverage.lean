/-
  Which tokens evaluation tags.

  On a store that is reachable, the tokens of an expression that receive a tag do
  not depend on what the store knows: they are exactly those that the expression
  reaches (`EvalContext.covered_eval`).  So it is known of an expression that is
  evaluated on its own, too (`Program.mem_tokens_evalStandalone_iff`).
-/
import DivisorCheck.Proofs.Expr.Reached
import DivisorCheck.Proofs.Expr.Tagging

namespace DivisorCheck

/-! ### What evaluation covers -/

/-- Exactly the listed tokens have received a tag. -/
def Tagged (ts : List TokenId) (st st' : EvalState) : Prop :=
  ∀ u, st'.annotations.contains u = true ↔ st.annotations.contains u = true ∨ u ∈ ts

namespace Tagged

variable {ts ts' : List TokenId} {st st' st'' : EvalState}

theorem refl (st : EvalState) : Tagged [] st st := fun u => by simp

theorem trans (h : Tagged ts st st') (h' : Tagged ts' st' st'') : Tagged (ts ++ ts') st st'' := by
  intro u
  rw [h' u, h u, List.mem_append, or_assoc]

theorem congr (h : Tagged ts st st') (hts : ∀ u, u ∈ ts ↔ u ∈ ts') : Tagged ts' st st' := by
  intro u
  rw [h u, hts u]

theorem annotate (cx : EvalContext) (t : TokenId) (tag : Tag) (st : EvalState) :
    Tagged [t] st (cx.annotate t tag st) := by
  intro u
  unfold EvalContext.annotate
  dsimp only
  rw [Annotations.contains_insert, List.mem_singleton, or_comm]

theorem annotateTop (cx : EvalContext) (e : Expr) (tag : Tag) (st : EvalState) :
    Tagged e.token?.toList st (cx.annotateTop e tag st) := by
  cases e with
  | absent => exact .refl st
  | node t l r => exact .annotate cx t tag st

theorem annotateUnreachable (cx : EvalContext) (e : Expr) (st : EvalState) :
    Tagged e.tokens st (cx.annotateUnreachable e st) := by
  unfold EvalContext.annotateUnreachable
  generalize e.tokens = us
  induction us generalizing st with
  | nil => exact .refl st
  | cons u us ih => exact (annotate cx u .bottom st).trans (ih _)

/-- Tokens apart from those that have received a tag have none still. -/
theorem fresh {us : List TokenId} (h : Tagged ts st st') (hus : EvalContext.Fresh us st)
    (hapart : ∀ u ∈ us, u ∉ ts) : EvalContext.Fresh us st' := by
  intro u hu
  have hnot : ¬ st'.annotations.contains u = true := by
    rw [h u]
    rintro (hcontains | hmem)
    · rw [Annotations.contains, hus u hu] at hcontains
      cases hcontains
    · exact hapart u hu hmem
  simpa [Annotations.contains] using hnot

end Tagged

namespace EvalContext

variable {cx : EvalContext} {t : TokenId} {l r : Expr} {st : EvalState}

/-- On a reachable store, where none of the tokens in `fresh` has a tag yet, the step tags exactly
the tokens in `ts` and keeps the store reachable. -/
def Covers (fresh ts : List TokenId) (f : EvalStep) : Prop :=
  ∀ st : EvalState, st.store ≠ .unreachable → Fresh fresh st →
    (f st).2.store ≠ .unreachable ∧ Tagged ts st (f st).2

/-- Evaluating the expression covers what it reaches. -/
def Covered (cx : EvalContext) (e : Expr) (role : CommaRole) : Prop :=
  Covers e.tokens.tail (e.reached cx.program role) (cx.eval e role)

section Operators

/-- A second operand whose tokens have no tag yet has none after the first one either. -/
theorem fresh_right (hapart : Expr.Apart t l r) {st' : EvalState} {role : CommaRole}
    (hnew : Fresh (l.tokens ++ r.tokens) st)
    (htags : Tagged (l.reached cx.program role) st st') : Fresh r.tokens.tail st' := by
  refine htags.fresh (fun u hu => hnew u (List.mem_append_right _ (List.mem_of_mem_tail hu))) ?_
  exact fun u hu hmem => hapart.left_right u (Expr.mem_tokens_of_mem_reached hmem)
    (List.mem_of_mem_tail hu)

theorem fresh_left (hnew : Fresh (l.tokens ++ r.tokens) st) : Fresh l.tokens.tail st :=
  fun u hu => hnew u (List.mem_append_left _ (List.mem_of_mem_tail hu))

theorem covers_binary (hapart : Expr.Apart t l r) (f : Tag → Tag → Tag) {role role' : CommaRole}
    (hl : cx.Covered l role) (hr : cx.Covered r role') :
    Covers (l.tokens ++ r.tokens)
      (l.reached cx.program role ++ r.reached cx.program role')
      (evalBinary f (cx.eval l role) (cx.eval r role')) := by
  intro st hst hnew
  obtain ⟨hreach, hleft⟩ := hl st hst (fresh_left hnew)
  obtain ⟨hreach', hright⟩ := hr _ hreach (fresh_right hapart hnew hleft)
  exact ⟨hreach', hleft.trans hright⟩

theorem settle_store (u : TokenId) (hst : st.store ≠ .unreachable) :
    (cx.settle u st).store ≠ .unreachable := by
  unfold settle
  split_ifs
  · exact hst
  · exact Store.havoc_ne_unreachable hst _

theorem tagged_settle (u : TokenId) : Tagged [] st (cx.settle u st) := by
  unfold settle
  split_ifs <;> exact .refl _

/-- A write to a target that has a tag tags nothing more. -/
theorem write_evaluated (hst : st.store ≠ .unreachable)
    (hdone : ∀ u, l.token? = some u → st.annotations.contains u = true) (f : EvalStep)
    (tag : Tag) :
    (cx.write l f tag st).store ≠ .unreachable ∧ Tagged [] st (cx.write l f tag st) := by
  cases hv : l.trackedVar? cx.program with
  | some v =>
    rw [write_tracked hv, annotateTop_store]
    refine ⟨Store.set_ne_unreachable hst _ _, ?_⟩
    have htop := Tagged.annotateTop cx l tag (st.on (st.store.set v tag))
    intro u
    rw [htop u, Option.mem_toList]
    exact ⟨fun h => .inl (h.elim id (hdone u)), fun h => .inl (h.resolve_right List.not_mem_nil)⟩
  | none =>
    cases hu : l.token? with
    | none =>
      unfold write
      rw [hv, hu]
      exact ⟨Store.havoc_ne_unreachable hst _, .refl _⟩
    | some u =>
      rw [write_untracked hv hu, if_pos (hdone u hu)]
      exact ⟨settle_store u hst, tagged_settle u⟩

/-- A write to a target without tag takes a tracked variable for a single token and evaluates
anything else. -/
theorem write_fresh (hl : cx.Covered l .operator) (hst : st.store ≠ .unreachable)
    (hnew : Fresh l.tokens st) (tag : Tag) :
    (cx.write l (cx.eval l .operator) tag st).store ≠ .unreachable ∧
      Tagged (if (l.trackedVar? cx.program).isSome then l.token?.toList
        else l.reached cx.program .operator) st (cx.write l (cx.eval l .operator) tag st) := by
  cases hv : l.trackedVar? cx.program with
  | some v =>
    rw [write_tracked hv, annotateTop_store]
    exact ⟨Store.set_ne_unreachable hst _ _, Tagged.annotateTop cx l tag _⟩
  | none =>
    cases l with
    | absent => exact ⟨Store.havoc_ne_unreachable hst _, .refl _⟩
    | node u a b =>
      have hnot : ¬ st.annotations.contains u = true := by
        simp [Annotations.contains, hnew u (List.mem_cons_self ..)]
      obtain ⟨hreach, htags⟩ := hl st hst fun v hv => hnew v (List.mem_of_mem_tail hv)
      rw [write_untracked hv rfl, if_neg hnot]
      exact ⟨settle_store u hreach, (htags.trans (tagged_settle u)).congr (by simp)⟩

/-- The top of what has been evaluated has a tag. -/
theorem contains_top {st' : EvalState} (htags : Tagged (l.reached cx.program .operator) st st')
    {u : TokenId} (hu : l.token? = some u) : st'.annotations.contains u = true :=
  (htags u).2 (.inr (Expr.mem_reached_of_token? hu .operator))

theorem covers_assignment (hapart : Expr.Apart t l r) (op : String)
    (hl : cx.Covered l .operator) (hr : cx.Covered r .operator) :
    Covers (l.tokens ++ r.tokens)
      ((if op = "=" ∧ (l.trackedVar? cx.program).isSome then l.token?.toList
        else l.reached cx.program .operator) ++ r.reached cx.program .operator)
      (cx.evalAssignment op l (cx.eval l .operator) (cx.eval r .operator)) := by
  intro st hst hnew
  unfold evalAssignment
  by_cases hop : op = "="
  · rw [if_pos hop]
    -- The value comes first, and leaves the target without tags.
    have hnewRight : Fresh r.tokens.tail st := fun u hu =>
      hnew u (List.mem_append_right _ (List.mem_of_mem_tail hu))
    obtain ⟨hreach, hvalue⟩ := hr st hst hnewRight
    have hnewLeft : Fresh l.tokens (cx.eval r .operator st).2 := by
      refine hvalue.fresh (fun u hu => hnew u (List.mem_append_left _ hu)) fun u hu hmem => ?_
      exact hapart.left_right u hu (Expr.mem_tokens_of_mem_reached hmem)
    obtain ⟨hreach', hwrite⟩ := write_fresh hl hreach hnewLeft (cx.eval r .operator st).1
    refine ⟨hreach', (hvalue.trans hwrite).congr fun u => ?_⟩
    simp only [hop, true_and, List.mem_append]
    exact or_comm
  · rw [if_neg hop, if_neg (fun h => hop h.1)]
    obtain ⟨hreach, hleft⟩ := hl st hst (fresh_left hnew)
    obtain ⟨hreach', hright⟩ := hr _ hreach (fresh_right hapart hnew hleft)
    -- The old value of the target has been looked up, so the write does not evaluate it again.
    have hdone : ∀ u, l.token? = some u →
        (cx.eval r .operator (cx.eval l .operator st).2).2.annotations.contains u = true :=
      fun u hu => (hright u).2 (.inl (contains_top hleft hu))
    obtain ⟨hreach'', hwrite⟩ := write_evaluated hreach' hdone (cx.eval l .operator)
      (binaryTag (compoundOperator op) (cx.eval l .operator st).1
        (cx.eval r .operator (cx.eval l .operator st).2).1)
    exact ⟨hreach'', ((hleft.trans hright).trans hwrite).congr (by simp)⟩

theorem covers_increment (isPostfix : Bool) (hl : cx.Covered l .operator) :
    Covers (l.tokens ++ r.tokens) (l.reached cx.program .operator)
      (cx.evalIncrement isPostfix l (cx.eval l .operator)) := by
  intro st hst hnew
  obtain ⟨hreach, hleft⟩ := hl st hst (fresh_left hnew)
  obtain ⟨hreach', hwrite⟩ := write_evaluated hreach (fun u hu => contains_top hleft hu)
    (cx.eval l .operator) ((cx.eval l .operator st).1.add .nonZero)
  exact ⟨hreach', (hleft.trans hwrite).congr (by simp)⟩

theorem covers_sizeQuery :
    Covers (l.tokens ++ r.tokens) (l.token?.toList ++ r.tokens) (cx.evalSizeQuery l r) := by
  intro st hst _
  unfold evalSizeQuery
  refine ⟨?_, (Tagged.annotateTop cx l .top st).trans (.annotateUnreachable cx r _)⟩
  rw [annotateUnreachable_store, annotateTop_store]
  exact hst

/-- The state of a call when its callee has been dealt with: a callee that is a single token gets its
tag without being evaluated. -/
def afterCallee (cx : EvalContext) (l : Expr) (st : EvalState) : EvalState :=
  if l.isLeaf then cx.annotateTop l .top st
  else (cx.eval l .operator (cx.annotateTop l .top st)).2

theorem evalCall_eq (call : Expr) (evalArguments : EvalStep) (st : EvalState) :
    cx.evalCall call l (cx.eval l .operator) evalArguments st =
      (let a := evalArguments (cx.afterCallee l st)
       (.unknown [a.1], (cx.havocEscaped a.2).on
         ((cx.havocEscaped a.2).store.havoc (call.lentVars cx.program)))) := rfl

theorem fresh_callee (hapart : Expr.Apart t l r) (hnew : Fresh (l.tokens ++ r.tokens) st) :
    Fresh l.tokens.tail (cx.annotateTop l .top st) := by
  refine (Tagged.annotateTop cx l .top st).fresh (fresh_left hnew) fun u hu hmem => ?_
  exact Expr.not_mem_tail_of_token? hapart.left (Option.mem_toList.1 hmem) hu

theorem covers_callee (hapart : Expr.Apart t l r) (hl : cx.Covered l .operator)
    (hst : st.store ≠ .unreachable) (hnew : Fresh (l.tokens ++ r.tokens) st) :
    (cx.afterCallee l st).store ≠ .unreachable ∧
      Tagged (l.reached cx.program .operator) st (cx.afterCallee l st) := by
  have htop : Tagged l.token?.toList st (cx.annotateTop l .top st) := .annotateTop cx l .top st
  have hst₁ : (cx.annotateTop l .top st).store ≠ .unreachable := by
    rwa [annotateTop_store]
  have htopMem : ∀ u, u ∈ l.token?.toList → u ∈ l.reached cx.program .operator := fun u hu =>
    Expr.mem_reached_of_token? (Option.mem_toList.1 hu) .operator
  unfold afterCallee
  split
  · rename_i hleaf
    cases l with
    | absent => cases hleaf
    | node u a b =>
      cases a <;> cases b <;> cases hleaf
      exact ⟨hst₁, htop.congr fun v => by rw [Expr.reached_leaf]; rfl⟩
  · obtain ⟨hreach, htags⟩ := hl _ hst₁ (fresh_callee hapart hnew)
    refine ⟨hreach, (htop.trans htags).congr fun u => ?_⟩
    rw [List.mem_append]
    exact or_iff_right_of_imp (htopMem u)

theorem covers_call (hapart : Expr.Apart t l r) (call : Expr) (hl : cx.Covered l .operator)
    (hr : cx.Covered r .separator) :
    Covers (l.tokens ++ r.tokens)
      (l.reached cx.program .operator ++ r.reached cx.program .separator)
      (cx.evalCall call l (cx.eval l .operator) (cx.eval r .separator)) := by
  intro st hst hnew
  rw [evalCall_eq]
  obtain ⟨hreach, hcallee⟩ := covers_callee hapart hl hst hnew
  obtain ⟨hreach', hargs⟩ := hr _ hreach (fresh_right hapart hnew hcallee)
  exact ⟨Store.havoc_ne_unreachable (Store.havoc_ne_unreachable hreach' _) _,
    hcallee.trans hargs⟩

theorem covers_shortCircuit (hapart : Expr.Apart t l r) (isAnd : Bool) (first : Expr)
    (hl : cx.Covered l .operator) (hr : cx.Covered r .operator) :
    Covers (l.tokens ++ r.tokens)
      (l.reached cx.program .operator ++ r.reached cx.program .operator)
      (cx.evalShortCircuit isAnd first (cx.eval l .operator) (cx.eval r .operator)) := by
  intro st hst hnew
  rw [evalShortCircuit_eq]
  extract_lets a b
  obtain ⟨hreach, hleft⟩ := hl st hst (fresh_left hnew)
  have hnarrowed : first.narrowBy cx.program cx.escaped isAnd a.2.store ≠ .unreachable :=
    Expr.narrowBy_ne_unreachable hreach isAnd
  obtain ⟨-, hright⟩ := hr (a.2.on _) hnarrowed (fresh_right hapart hnew hleft)
  exact ⟨Store.join_ne_unreachable hreach _, hleft.trans hright⟩

theorem covers_arms {colon : TokenId} {a b : Expr} (hapart : Expr.Apart colon a b)
    (cond : Expr) (ha : cx.Covered a .operator) (hb : cx.Covered b .operator) :
    Covers (a.tokens ++ b.tokens)
      (colon :: (a.reached cx.program .operator ++ b.reached cx.program .operator))
      (cx.evalArms cond colon (cx.eval a .operator) (cx.eval b .operator)) := by
  intro st hst hnew
  unfold evalArms
  extract_lets x y
  have hnarrowed : ∀ holds, cond.narrowBy cx.program cx.escaped holds st.store ≠ .unreachable :=
    fun holds => Expr.narrowBy_ne_unreachable hst holds
  obtain ⟨hreach, hthen⟩ := ha (st.on _) (hnarrowed true) (fresh_left hnew)
  obtain ⟨-, helse⟩ := hb (x.2.on _) (hnarrowed false) (fresh_right hapart hnew hthen)
  refine ⟨Store.join_ne_unreachable hreach _, ?_⟩
  have hcolon := Tagged.annotate cx colon (x.1.join y.1) (y.2.on (x.2.store.join y.2.store))
  have hboth : Tagged _ st y.2 := Tagged.trans hthen helse
  refine (Tagged.trans hboth hcolon).congr fun u => ?_
  rw [List.mem_append, List.mem_singleton, List.mem_cons, or_comm]

theorem covers_choice (hapart : Expr.Apart t l r) (hl : cx.Covered l .operator)
    (hr : cx.Covered r .operator) (harms : ∀ colon a b, r = .node colon a b →
      Expr.Apart colon a b ∧ cx.Covered a .operator ∧ cx.Covered b .operator) :
    Covers (l.tokens ++ r.tokens) (Expr.reachedChoice cx.program l r) (cx.evalChoice l r) := by
  cases r with
  | absent => exact fun st hst hnew => hl st hst (fresh_left hnew)
  | node colon a b =>
    obtain ⟨hapart', ha, hb⟩ := harms colon a b rfl
    rw [evalChoice, Expr.reachedChoice]
    split_ifs with hcolon
    · intro st hst hnew
      rw [evalConditional_eq]
      obtain ⟨hreach, hcond⟩ := hl st hst (fresh_left hnew)
      obtain ⟨hreach', hboth⟩ := covers_arms hapart' l ha hb _ hreach
        (fresh_right hapart hnew hcond)
      exact ⟨hreach', hcond.trans hboth⟩
    · exact covers_binary hapart _ hl hr

end Operators

/-! ### Expressions -/

theorem covers_evalNode (hapart : Expr.Apart t l r) (hl : ∀ role, cx.Covered l role)
    (hr : ∀ role, cx.Covered r role) (harms : ∀ colon a b, r = .node colon a b →
      Expr.Apart colon a b ∧ cx.Covered a .operator ∧ cx.Covered b .operator) :
    Covers (l.tokens ++ r.tokens) (Expr.reachedBelow cx.program t l r) (cx.evalNode t l r) := by
  have hleft : Covers (l.tokens ++ r.tokens) (l.reached cx.program .operator)
      (cx.eval l .operator) := fun st hst hnew => hl .operator st hst (fresh_left hnew)
  unfold Expr.reachedBelow Program.reachedWith evalNode evalOperation
  extract_lets p op
  cases cx.program.operation t l r
  case leaf => exact fun st hst _ => ⟨hst, .refl st⟩
  case cast => exact hleft
  case assignment => exact covers_assignment hapart op (hl _) (hr _)
  case increment => exact covers_increment _ (hl _)
  case sizeQuery => exact covers_sizeQuery
  case call => exact covers_call hapart _ (hl _) (hr _)
  case choice => exact covers_choice hapart (hl _) (hr _) harms
  case shortCircuit => exact covers_shortCircuit hapart _ l (hl _) (hr _)
  case unary => exact hleft
  case comma => exact covers_binary hapart _ (hl _) (hr _)
  case member =>
    intro st hst hnew
    obtain ⟨hreach, htags⟩ := hleft st hst hnew
    refine ⟨?_, htags.trans (.annotateTop cx r .top _)⟩
    rw [annotateTop_store]
    exact hreach
  case binary => exact covers_binary hapart _ (hl _) (hr _)

/-- **Evaluation covers what it reaches.**  On a reachable store, and if no token occurs twice, the
tokens that receive a tag are exactly those that the expression reaches. -/
theorem covered_eval {e : Expr} (hnodup : e.tokens.Nodup) (role : CommaRole) :
    cx.Covered e role := by
  induction e using Expr.induction_arms generalizing role with
  | habsent => exact fun st hst _ => ⟨hst, .refl st⟩
  | hnode t l r ihl ihr iharms =>
    have hapart := Expr.apart_of_nodup hnodup
    have hl := ihl hapart.left
    have hr := ihr hapart.right
    have hnode : Covers (l.tokens ++ r.tokens) (Expr.reachedBelow cx.program t l r)
        (cx.evalNode t l r) := by
      refine covers_evalNode hapart hl hr fun colon a b h => ?_
      subst h
      have harms := Expr.apart_of_nodup hapart.right
      exact ⟨harms, (iharms colon a b rfl).1 harms.left _, (iharms colon a b rfl).2 harms.right _⟩
    intro st hst hnew
    have hreachable : ¬ st.store.isUnreachable = true :=
      fun h => hst (Store.isUnreachable_iff.1 h)
    rw [eval_node, Expr.reached_node, if_neg hreachable]
    by_cases hsep : role = .separator ∧ cx.program.text t = "," ∧ !l.isAbsent ∧ !r.isAbsent
    · rw [if_pos hsep, if_pos hsep]
      have htop := Tagged.annotate cx t .top st
      have hnewBelow : Fresh (l.tokens ++ r.tokens) (cx.annotate t .top st) := by
        refine htop.fresh hnew fun u hu hmem => ?_
        rw [List.mem_singleton.1 hmem] at hu
        exact (List.nodup_cons.1 hnodup).1 hu
      obtain ⟨hreach, hboth⟩ := covers_binary hapart (fun a b => .unknown [a, b])
        (hl .separator) (hr .separator) (cx.annotate t .top st) hst hnewBelow
      exact ⟨hreach, htop.trans hboth⟩
    · rw [if_neg hsep, if_neg hsep]
      obtain ⟨hreach, hbelow⟩ := hnode st hst hnew
      refine ⟨hreach, (hbelow.trans (.annotate cx t _ _)).congr fun u => ?_⟩
      rw [List.mem_append, List.mem_singleton, List.mem_cons, or_comm]

end EvalContext

/-- An expression evaluated on its own leaves tags on exactly the tokens that it reaches. -/
theorem Program.mem_tokens_evalStandalone_iff {p : Program} (h : p.FormsTrees) (flow : Bool)
    {root u : TokenId} :
    u ∈ (p.evalStandalone flow root).annotations.tokens ↔
      u ∈ (p.expr root).reached p .operator := by
  have hcovered : EvalContext.Covered { program := p, useFlowValues := flow } (p.expr root)
      .operator := EvalContext.covered_eval (h.tokens_expr_nodup root) _
  obtain ⟨-, htags⟩ := hcovered {} (fun h => nomatch h) fun _ _ => rfl
  rw [Annotations.mem_tokens_iff]
  refine (htags u).trans (or_iff_right ?_)
  simp [Annotations.contains, Annotations.get?, Annotations.lookupTag?]

end DivisorCheck
