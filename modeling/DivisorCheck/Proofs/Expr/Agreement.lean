/-
  What evaluation can see of the tags left before it.

  Evaluation reads the store, and of all tags only whether the target of a write
  has one.  So two states that have the same store and the same tags on the tokens
  of an expression (`EvalState.Agree`) cannot be told apart by evaluating it: it
  yields the same tag in both, and leaves them in agreement (`uniform_eval`).
  Whatever else the two tables hold plays no part.
-/
import DivisorCheck.Proofs.Expr.Blocks

namespace DivisorCheck

/-- The states have the same store and the same tags on the listed tokens. -/
structure EvalState.Agree (ts : List TokenId) (st st' : EvalState) : Prop where
  store : st'.store = st.store
  tags : ∀ u ∈ ts, st'.annotations.get? u = st.annotations.get? u

namespace EvalState.Agree

variable {cx : EvalContext} {ts : List TokenId} {st st' : EvalState}

theorem on (h : st.Agree ts st') {s s' : Store} (hs : s' = s) : (st.on s).Agree ts (st'.on s') :=
  ⟨hs, h.tags⟩

theorem annotate (h : st.Agree ts st') (t : TokenId) (tag : Tag) :
    (cx.annotate t tag st).Agree ts (cx.annotate t tag st') := by
  refine ⟨h.store, fun u hu => ?_⟩
  simp only [EvalContext.annotate, Annotations.get?_insert, h.tags u hu]

theorem annotateTop (h : st.Agree ts st') (e : Expr) (tag : Tag) :
    (cx.annotateTop e tag st).Agree ts (cx.annotateTop e tag st') := by
  cases e with
  | absent => exact h
  | node t l r => exact h.annotate t tag

theorem annotateUnreachable (h : st.Agree ts st') (e : Expr) :
    (cx.annotateUnreachable e st).Agree ts (cx.annotateUnreachable e st') := by
  unfold EvalContext.annotateUnreachable
  generalize e.tokens = us
  induction us generalizing st st' with
  | nil => exact h
  | cons u us ih => exact ih (h.annotate u .bottom)

/-- States without tags on the tokens agree as soon as their stores do. -/
theorem of_fresh (hst : EvalContext.Fresh ts st) (hst' : EvalContext.Fresh ts st')
    (hstore : st'.store = st.store) : st.Agree ts st' :=
  ⟨hstore, fun u hu => (hst' u hu).trans (hst u hu).symm⟩

end EvalState.Agree

namespace EvalContext

variable {cx : EvalContext} {ts : List TokenId} {t : TokenId} {l r e : Expr} {st st' : EvalState}

/-- A step of evaluation that cannot tell states apart that agree on the listed tokens. -/
def Uniform (ts : List TokenId) (f : EvalStep) : Prop :=
  ∀ st st' : EvalState, st.Agree ts st' → (f st').1 = (f st).1 ∧ (f st).2.Agree ts (f st').2

/-! ### The operators -/

section Operators

variable {evalLeft evalRight : EvalStep}

theorem Uniform.unary (f : Tag → Tag) (hl : Uniform ts evalLeft) :
    Uniform ts (fun st => (f (evalLeft st).1, (evalLeft st).2)) := by
  intro st st' h
  obtain ⟨htag, hagree⟩ := hl st st' h
  exact ⟨congrArg f htag, hagree⟩

theorem Uniform.binary (f : Tag → Tag → Tag) (hl : Uniform ts evalLeft)
    (hr : Uniform ts evalRight) : Uniform ts (evalBinary f evalLeft evalRight) := by
  intro st st' h
  obtain ⟨ha, hleft⟩ := hl st st' h
  obtain ⟨hb, hright⟩ := hr _ _ hleft
  exact ⟨congrArg₂ f ha hb, hright⟩

theorem agree_havocEscaped (h : st.Agree ts st') :
    (cx.havocEscaped st).Agree ts (cx.havocEscaped st') :=
  h.on (congrArg (·.havoc cx.escaped) h.store)

/-- A write asks whether its target has a tag, and both states give the same answer. -/
theorem agree_write {target : Expr} {evalTarget : EvalStep} (hts : ∀ u ∈ target.tokens, u ∈ ts)
    (htarget : Uniform ts evalTarget) (tag : Tag) (h : st.Agree ts st') :
    (cx.write target evalTarget tag st).Agree ts (cx.write target evalTarget tag st') := by
  unfold write
  split
  · rename_i v _
    have hset : (st.on (st.store.set v tag)).Agree ts (st'.on (st'.store.set v tag)) :=
      h.on (congrArg (·.set v tag) h.store)
    exact hset.annotateTop target tag
  · split
    · exact agree_havocEscaped h
    · rename_i u hu
      have hmem : u ∈ ts := hts u (Expr.mem_tokens_of_token? hu)
      have hseen : st'.annotations.contains u = st.annotations.contains u := by
        unfold Annotations.contains
        rw [h.tags u hmem]
      rw [hseen]
      have hread : (if st.annotations.contains u then st else (evalTarget st).2).Agree ts
          (if st.annotations.contains u then st' else (evalTarget st').2) := by
        split
        · exact h
        · exact (htarget _ _ h).2
      simp only
      split
      · exact hread
      · exact agree_havocEscaped hread

theorem Uniform.assignment (op : String) (hts : ∀ u ∈ l.tokens, u ∈ ts)
    (hl : Uniform ts evalLeft) (hr : Uniform ts evalRight) :
    Uniform ts (cx.evalAssignment op l evalLeft evalRight) := by
  intro st st' h
  unfold evalAssignment
  split
  · obtain ⟨hvalue, hright⟩ := hr st st' h
    simp only [hvalue]
    exact ⟨trivial, agree_write hts hl _ hright⟩
  · obtain ⟨hold, hleft⟩ := hl st st' h
    obtain ⟨hvalue, hright⟩ := hr _ _ hleft
    simp only [hold, hvalue]
    exact ⟨trivial, agree_write hts hl _ hright⟩

theorem Uniform.increment (isPostfix : Bool) (hts : ∀ u ∈ l.tokens, u ∈ ts)
    (hl : Uniform ts evalLeft) : Uniform ts (cx.evalIncrement isPostfix l evalLeft) := by
  intro st st' h
  obtain ⟨hold, hleft⟩ := hl st st' h
  unfold evalIncrement
  simp only [hold]
  exact ⟨trivial, agree_write hts hl _ hleft⟩

theorem uniform_sizeQuery : Uniform ts (cx.evalSizeQuery l r) := fun _ _ h =>
  ⟨rfl, (h.annotateTop l .top).annotateUnreachable r⟩

theorem Uniform.call (call : Expr) (hl : Uniform ts evalLeft) (hargs : Uniform ts evalRight) :
    Uniform ts (cx.evalCall call l evalLeft evalRight) := by
  intro st st' h
  have htop : (cx.annotateTop l .top st).Agree ts (cx.annotateTop l .top st') :=
    h.annotateTop l .top
  have hcallee : (if l.isLeaf then cx.annotateTop l .top st
      else (evalLeft (cx.annotateTop l .top st)).2).Agree ts
      (if l.isLeaf then cx.annotateTop l .top st'
      else (evalLeft (cx.annotateTop l .top st')).2) := by
    split
    · exact htop
    · exact (hl _ _ htop).2
  obtain ⟨htag, hagree⟩ := hargs _ _ hcallee
  have hhavoc : (cx.havocEscaped (evalRight _).2).Agree ts (cx.havocEscaped (evalRight _).2) :=
    agree_havocEscaped hagree
  exact ⟨congrArg (fun a => Tag.unknown [a]) htag,
    hhavoc.on (congrArg (·.havoc (call.lentVars cx.program)) hhavoc.store)⟩

theorem Uniform.arms (cond : Expr) (colon : TokenId) {evalThen evalElse : EvalStep}
    (hthen : Uniform ts evalThen) (helse : Uniform ts evalElse) :
    Uniform ts (cx.evalArms cond colon evalThen evalElse) := by
  intro st st' h
  have hnarrowed := fun holds =>
    congrArg (cond.narrowBy cx.program cx.escaped holds) h.store
  unfold evalArms
  -- The arms run one after the other, each on its own narrowing of the same store.
  extract_lets a' b' a b
  obtain ⟨ha, hfirst⟩ : a'.1 = a.1 ∧ a.2.Agree ts a'.2 := hthen _ _ (h.on (hnarrowed true))
  obtain ⟨hb, hsecond⟩ : b'.1 = b.1 ∧ b.2.Agree ts b'.2 := helse _ _ (hfirst.on (hnarrowed false))
  have hjoined : (b.2.on (a.2.store.join b.2.store)).Agree ts
      (b'.2.on (a'.2.store.join b'.2.store)) :=
    hsecond.on (congrArg₂ Store.join hfirst.store hsecond.store)
  rw [ha, hb]
  exact ⟨rfl, hjoined.annotate colon _⟩

theorem Uniform.shortCircuit (isAnd : Bool) (first : Expr) (hl : Uniform ts evalLeft)
    (hr : Uniform ts evalRight) :
    Uniform ts (cx.evalShortCircuit isAnd first evalLeft evalRight) := by
  intro st st' h
  rw [evalShortCircuit_eq, evalShortCircuit_eq]
  extract_lets a' b' a b
  obtain ⟨ha, hfirst⟩ : a'.1 = a.1 ∧ a.2.Agree ts a'.2 := hl st st' h
  obtain ⟨hb, hsecond⟩ : b'.1 = b.1 ∧ b.2.Agree ts b'.2 :=
    hr _ _ (hfirst.on (congrArg (first.narrowBy cx.program cx.escaped isAnd) hfirst.store))
  rw [ha, hb]
  exact ⟨rfl, hsecond.on (congrArg₂ Store.join hfirst.store hsecond.store)⟩

theorem leafTag_eq (h : st.Agree ts st') : cx.leafTag t st' = cx.leafTag t st := by
  unfold leafTag
  rw [h.store]

theorem uniform_evalOperation (hts : ∀ u ∈ l.tokens, u ∈ ts)
    {evalLeft evalRight evalArguments evalChoice : EvalStep}
    (hl : Uniform ts evalLeft) (hr : Uniform ts evalRight) (hargs : Uniform ts evalArguments)
    (hchoice : Uniform ts evalChoice) :
    Uniform ts (cx.evalOperation t l r evalLeft evalRight evalArguments evalChoice) := by
  unfold evalOperation
  extract_lets p op
  cases p.operation t l r with
  | leaf => exact fun _ _ h => ⟨leafTag_eq h, h⟩
  | cast => exact hl.unary Tag.cast
  | assignment => exact .assignment op hts hl hr
  | increment => exact .increment _ hts hl
  | sizeQuery => exact uniform_sizeQuery
  | call => exact .call _ hl hargs
  | choice => exact hchoice
  | shortCircuit => exact .shortCircuit _ l hl hr
  | unary => exact hl.unary (unaryTag op)
  | comma => exact .binary _ hl hr
  | member =>
    intro st st' h
    obtain ⟨htag, hagree⟩ := hl st st' h
    exact ⟨congrArg (fun a => Tag.unknown [a]) htag, hagree.annotateTop r .top⟩
  | binary => exact .binary _ hl hr

end Operators

/-! ### Expressions -/

/-- **Evaluation sees nothing but the store and the tags of the expression.** -/
theorem uniform_eval (hts : ∀ u ∈ e.tokens, u ∈ ts) (role : CommaRole) :
    Uniform ts (cx.eval e role) := by
  induction e using Expr.induction_arms generalizing role with
  | habsent => exact fun _ _ h => ⟨rfl, h⟩
  | hnode t l r ihl ihr iharms =>
    have hlts : ∀ u ∈ l.tokens, u ∈ ts := fun u hu =>
      hts u (List.mem_cons_of_mem _ (List.mem_append_left _ hu))
    have hrts : ∀ u ∈ r.tokens, u ∈ ts := fun u hu =>
      hts u (List.mem_cons_of_mem _ (List.mem_append_right _ hu))
    have hl := ihl hlts
    have hr := ihr hrts
    have hchoice : Uniform ts (cx.evalChoice l r) := by
      cases r with
      | absent => exact fun st st' h => ⟨rfl, (hl _ st st' h).2⟩
      | node colon a b =>
        obtain ⟨iha, ihb⟩ := iharms colon a b rfl
        have harms : Uniform ts (cx.evalArms l colon (cx.eval a .operator) (cx.eval b .operator)) :=
          .arms l colon
            (iha (fun u hu => hrts u (List.mem_cons_of_mem _ (List.mem_append_left _ hu))) _)
            (ihb (fun u hu => hrts u (List.mem_cons_of_mem _ (List.mem_append_right _ hu))) _)
        by_cases hcolon : cx.program.text colon = ":"
        · rw [evalChoice, if_pos hcolon]
          exact fun st st' h => harms _ _ (hl _ st st' h).2
        · rw [evalChoice, if_neg hcolon]
          exact .binary _ (hl _) (hr _)
    have hnode : Uniform ts (cx.evalNode t l r) :=
      uniform_evalOperation hlts (hl _) (hr _) (hr _) hchoice
    have hcomma := Uniform.binary (fun a b => Tag.unknown [a, b]) (hl .separator) (hr .separator)
    intro st st' h
    rw [eval_node, eval_node, h.store]
    split_ifs
    · exact hcomma _ _ (h.annotate t .top)
    · exact ⟨rfl, h.annotateUnreachable _⟩
    · obtain ⟨htag, hagree⟩ := hnode st st' h
      simp only [htag]
      exact ⟨trivial, hagree.annotate t _⟩

/-! ### Blocks -/

theorem agree_evalRoot {root : TokenId} (hts : ∀ u ∈ (cx.program.expr root).tokens, u ∈ ts)
    (h : st.Agree ts st') : (cx.evalRoot st root).Agree ts (cx.evalRoot st' root) := by
  by_cases hreach : st.store.isUnreachable = true
  · have hreach' : st'.store.isUnreachable = true := by rwa [h.store]
    unfold evalRoot
    rw [if_pos hreach, if_pos hreach']
    exact h.annotateUnreachable _
  have hreach' : ¬ st'.store.isUnreachable = true := by rwa [h.store]
  by_cases hbare : cx.program.isBareDeclaration root = true
  · rw [evalRoot_bare hbare hreach, evalRoot_bare hbare hreach']
    exact (h.on (congrArg (cx.undeclared root) h.store)).annotate root .top
  · unfold evalRoot
    simp only
    rw [if_neg hreach, if_neg hreach', if_neg hbare, if_neg hbare]
    exact (uniform_eval hts .operator st st' h).2

theorem agree_evalRoots {roots : List TokenId}
    (hts : ∀ u ∈ cx.program.treeTokens roots, u ∈ ts) (h : st.Agree ts st') :
    (roots.foldl cx.evalRoot st).Agree ts (roots.foldl cx.evalRoot st') := by
  induction roots generalizing st st' with
  | nil => exact h
  | cons root roots ih =>
    have hfirst := fun u hu => hts u (List.mem_append_left _ hu)
    exact ih (fun u hu => hts u (List.mem_append_right _ hu)) (agree_evalRoot hfirst h)

end EvalContext

end DivisorCheck
