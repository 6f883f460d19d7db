/-
  Evaluation is monotone where nothing is left out.

  Take two stores of which the first knows at least as much as the second, and
  evaluate one expression from both.  Which operands are evaluated depends on the
  tokens, on which of them have a tag already, and on whether the store is
  reachable, so two evaluations from reachable stores go the same way, and every
  step keeps what it computes in order (`Rises`).  Evaluation from the unreachable
  store marks everything `bottom`, which is below whatever the other one finds.

  The operators `&&`, `||` and `?:` are left out: they narrow the store, and a
  definite fact that stands against a condition is not narrowed where an unknown
  one is.  So are values known to the front end, which replace `top` by less.
-/
import DivisorCheck.Proofs.Expr.Unrun

namespace DivisorCheck

/-! ### Tags of operators -/

namespace Tag

variable {a a' b b' : Tag}

theorem add_mono (ha : a.le a' = true) (hb : b.le b' = true) :
    (a.add b).le (a'.add b') = true := by
  cases a <;> cases a' <;> simp [le] at ha <;> cases b <;> cases b' <;> simp_all [le, add]

theorem multiply_mono (ha : a.le a' = true) (hb : b.le b' = true) :
    (a.multiply b).le (a'.multiply b') = true := by
  cases a <;> cases a' <;> simp [le] at ha <;> cases b <;> cases b' <;> simp_all [le, multiply]

theorem divide_mono (ha : a.le a' = true) (hb : b.le b' = true) :
    (a.divide b).le (a'.divide b') = true := by
  cases a <;> cases a' <;> simp [le] at ha <;> cases b <;> cases b' <;> simp_all [le, divide]

theorem logicalNot_mono (ha : a.le a' = true) : a.logicalNot.le a'.logicalNot = true := by
  cases a <;> cases a' <;> simp_all [le, logicalNot]

theorem cast_mono (ha : a.le a' = true) : a.cast.le a'.cast = true := by
  cases a <;> cases a' <;> simp_all [le, cast]

theorem unknown_mono {tags tags' : List Tag}
    (h : List.Forall₂ (fun a b => a.le b = true) tags tags') :
    (unknown tags).le (unknown tags') = true := by
  have hbottom : Tag.bottom ∈ tags' → Tag.bottom ∈ tags := by
    induction h with
    | nil => exact id
    | @cons a b _ _ hab _ ih =>
      intro hmem
      rcases List.mem_cons.1 hmem with rfl | hmem
      · have ha : a = .bottom := le_antisymm hab (bottom_le a)
        exact ha ▸ List.mem_cons_self ..
      · exact List.mem_cons_of_mem _ (ih hmem)
  unfold unknown
  by_cases hmem : Tag.bottom ∈ tags'
  · rw [if_pos (hbottom hmem)]
    exact bottom_le _
  · rw [if_neg hmem]
    exact le_top _

/-- The table of every arithmetic operator is monotone. -/
theorem binary?_mono {op : String} {f : Tag → Tag → Tag} (hf : binary? op = some f)
    (ha : a.le a' = true) (hb : b.le b' = true) : (f a b).le (f a' b') = true := by
  unfold binary? at hf
  split at hf
  · cases hf
    exact add_mono ha hb
  · cases hf
    exact add_mono ha hb
  · cases hf
    exact multiply_mono ha hb
  · cases hf
    exact divide_mono ha hb
  · cases hf
    exact divide_mono ha hb
  · cases hf

end Tag

/-! ### Stores -/

namespace Store

variable {s s' : Store}

theorem ne_unreachable_of_le (h : s.le s' = true) (hs : s ≠ unreachable) : s' ≠ unreachable := by
  rintro rfl
  cases s with
  | unreachable => exact hs rfl
  | reachable f => cases h

theorem set_mono (h : s.le s' = true) {t t' : Tag} (ht : t.le t' = true) (v : VarId) :
    (s.set v t).le (s'.set v t') = true := by
  by_cases hs : s = unreachable
  · subst hs
    rfl
  rw [le_iff]
  intro w
  rw [get_set hs, get_set (ne_unreachable_of_le h hs)]
  split_ifs
  · exact ht
  · exact le_iff.1 h w

theorem havoc_mono (h : s.le s' = true) (vs : List VarId) :
    (s.havoc vs).le (s'.havoc vs) = true := by
  by_cases hs : s = unreachable
  · subst hs
    rfl
  rw [le_iff]
  intro w
  rw [get_havoc hs, get_havoc (ne_unreachable_of_le h hs)]
  split_ifs
  · exact Tag.le_refl _
  · exact le_iff.1 h w

end Store

/-! ### States -/

/-- The first of two reached states knows at least as much as the second: its store and each of its
tags are below, and the same tokens have tags in both. -/
structure EvalState.Below (st st' : EvalState) : Prop where
  reached : st.store ≠ .unreachable
  store : st.store.le st'.store = true
  tags : ∀ u, Option.Rel (fun a b => Tag.le a b = true) (st.annotations.get? u)
    (st'.annotations.get? u)

namespace EvalState.Below

variable {cx : EvalContext} {st st' : EvalState}

theorem reached' (h : st.Below st') : st'.store ≠ .unreachable :=
  Store.ne_unreachable_of_le h.store h.reached

theorem contains_eq (h : st.Below st') (u : TokenId) :
    st'.annotations.contains u = st.annotations.contains u := by
  have hrel := h.tags u
  unfold Annotations.contains
  generalize st.annotations.get? u = a at hrel ⊢
  generalize st'.annotations.get? u = b at hrel ⊢
  cases hrel <;> rfl

theorem annotate (h : st.Below st') (t : TokenId) {a b : Tag} (hab : a.le b = true) :
    (cx.annotate t a st).Below (cx.annotate t b st') := by
  refine ⟨h.reached, h.store, fun u => ?_⟩
  simp only [EvalContext.annotate, Annotations.get?_insert]
  split_ifs
  · exact .some hab
  · exact h.tags u

theorem annotateTop (h : st.Below st') (e : Expr) {a b : Tag} (hab : a.le b = true) :
    (cx.annotateTop e a st).Below (cx.annotateTop e b st') := by
  cases e with
  | absent => exact h
  | node t l r => exact h.annotate t hab

theorem annotateUnreachable (h : st.Below st') (e : Expr) :
    (cx.annotateUnreachable e st).Below (cx.annotateUnreachable e st') := by
  unfold EvalContext.annotateUnreachable
  generalize e.tokens = us
  induction us generalizing st st' with
  | nil => exact h
  | cons u us ih => exact ih (h.annotate u (Tag.le_refl _))

theorem set (h : st.Below st') (v : VarId) {a b : Tag} (hab : a.le b = true) :
    (st.on (st.store.set v a)).Below (st'.on (st'.store.set v b)) :=
  ⟨Store.set_ne_unreachable h.reached v a, Store.set_mono h.store hab v, h.tags⟩

theorem havoc (h : st.Below st') (vs : List VarId) :
    (st.on (st.store.havoc vs)).Below (st'.on (st'.store.havoc vs)) :=
  ⟨Store.havoc_ne_unreachable h.reached vs, Store.havoc_mono h.store vs, h.tags⟩

end EvalState.Below

/-! ### Operators -/

/-- No operator of the expression is `&&`, `||` or `?` with the colon of its two values. -/
def Expr.Unconditional (p : Program) : Expr → Prop
  | absent => True
  | node t l r => p.operation t l r ≠ .shortCircuit ∧
      (p.operation t l r = .choice → p.textOf r.token? ≠ ":") ∧
      l.Unconditional p ∧ r.Unconditional p

/-- An expression is unconditional if no token of it is spelled like one of the three operators. -/
theorem Expr.unconditional_of_text {p : Program} {e : Expr}
    (h : ∀ u ∈ e.tokens, p.text u ∉ ["&&", "||", "?"]) : e.Unconditional p := by
  induction e with
  | absent => trivial
  | node t l r ihl ihr =>
    have htext := h t (List.mem_cons_self ..)
    have hop := Program.operation_cases p t l r
    refine ⟨fun hkind => ?_, fun hkind => ?_, ihl fun u hu => ?_, ihr fun u hu => ?_⟩
    · rw [hkind] at hop
      exact absurd htext (by rcases hop with hop | hop <;> simp [hop])
    · rw [hkind] at hop
      exact absurd htext (by simp [hop])
    · exact h u (List.mem_cons_of_mem _ (List.mem_append_left _ hu))
    · exact h u (List.mem_cons_of_mem _ (List.mem_append_right _ hu))

namespace EvalContext

variable {cx : EvalContext} {t : TokenId} {l r e : Expr} {st st' : EvalState}

/-- A step of evaluation that keeps the order of states, and gives tags in that order. -/
def Rises (f : EvalStep) : Prop :=
  ∀ st st' : EvalState, st.Below st' → (f st).1.le (f st').1 = true ∧ (f st).2.Below (f st').2

theorem binaryTag_mono (op : String) {a a' b b' : Tag} (ha : a.le a' = true)
    (hb : b.le b' = true) : (binaryTag op a b).le (binaryTag op a' b') = true := by
  unfold binaryTag
  cases hf : Tag.binary? op with
  | some f => exact Tag.binary?_mono hf ha hb
  | none => exact Tag.unknown_mono (.cons ha (.cons hb .nil))

theorem unaryTag_mono (op : String) {a a' : Tag} (ha : a.le a' = true) :
    (unaryTag op a).le (unaryTag op a') = true := by
  unfold unaryTag
  split_ifs
  · exact ha
  · exact Tag.logicalNot_mono ha
  · exact Tag.unknown_mono (.cons ha .nil)

theorem leafTag_mono (h : st.Below st') : (cx.leafTag t st).le (cx.leafTag t st') = true := by
  unfold leafTag
  split
  · exact Tag.le_refl _
  · split
    · exact Store.le_iff.1 h.store _
    · exact Tag.le_refl _

section Operators

variable {evalLeft evalRight : EvalStep}

theorem Rises.unary {f : Tag → Tag} (hf : ∀ {a a'}, a.le a' = true → (f a).le (f a') = true)
    (hl : Rises evalLeft) : Rises (fun st => (f (evalLeft st).1, (evalLeft st).2)) := by
  intro st st' h
  obtain ⟨htag, hbelow⟩ := hl st st' h
  exact ⟨hf htag, hbelow⟩

theorem Rises.binary {f : Tag → Tag → Tag}
    (hf : ∀ {a a' b b'}, a.le a' = true → b.le b' = true → (f a b).le (f a' b') = true)
    (hl : Rises evalLeft) (hr : Rises evalRight) : Rises (evalBinary f evalLeft evalRight) := by
  intro st st' h
  obtain ⟨ha, hleft⟩ := hl st st' h
  obtain ⟨hb, hright⟩ := hr _ _ hleft
  exact ⟨hf ha hb, hright⟩

/-- Both writes ask whether the target has a tag, and get the same answer. -/
theorem below_write {target : Expr} {evalTarget : EvalStep} (htarget : Rises evalTarget) {a b : Tag}
    (hab : a.le b = true) (h : st.Below st') :
    (cx.write target evalTarget a st).Below (cx.write target evalTarget b st') := by
  unfold write
  cases hv : target.trackedVar? cx.program with
  | some v => exact (h.set v hab).annotateTop target hab
  | none =>
    cases hu : target.token? with
    | none => exact h.havoc cx.escaped
    | some u =>
      simp only [h.contains_eq u]
      have hread : (if st.annotations.contains u then st else (evalTarget st).2).Below
          (if st.annotations.contains u then st' else (evalTarget st').2) := by
        split
        · exact h
        · exact (htarget _ _ h).2
      split
      · exact hread
      · exact hread.havoc cx.escaped

theorem Rises.assignment (op : String) (hl : Rises evalLeft) (hr : Rises evalRight) :
    Rises (cx.evalAssignment op l evalLeft evalRight) := by
  intro st st' h
  unfold evalAssignment
  split
  · obtain ⟨hvalue, hright⟩ := hr st st' h
    exact ⟨hvalue, below_write hl hvalue hright⟩
  · obtain ⟨hold, hleft⟩ := hl st st' h
    obtain ⟨hoperand, hright⟩ := hr _ _ hleft
    have hvalue := binaryTag_mono (compoundOperator op) hold hoperand
    exact ⟨hvalue, below_write hl hvalue hright⟩

theorem Rises.increment (isPostfix : Bool) (hl : Rises evalLeft) :
    Rises (cx.evalIncrement isPostfix l evalLeft) := by
  intro st st' h
  obtain ⟨hold, hleft⟩ := hl st st' h
  have hnew : ((evalLeft st).1.add .nonZero).le ((evalLeft st').1.add .nonZero) = true :=
    Tag.add_mono hold (Tag.le_refl _)
  refine ⟨?_, below_write hl hnew hleft⟩
  cases isPostfix
  · exact hnew
  · exact hold

theorem rises_sizeQuery : Rises (cx.evalSizeQuery l r) := fun _ _ h =>
  ⟨rfl, (h.annotateTop l (Tag.le_refl .top)).annotateUnreachable r⟩

theorem Rises.call (call : Expr) (hl : Rises evalLeft) (hargs : Rises evalRight) :
    Rises (cx.evalCall call l evalLeft evalRight) := by
  intro st st' h
  have htop : (cx.annotateTop l .top st).Below (cx.annotateTop l .top st') :=
    h.annotateTop l (Tag.le_refl _)
  have hcallee : (if l.isLeaf then cx.annotateTop l .top st
      else (evalLeft (cx.annotateTop l .top st)).2).Below
      (if l.isLeaf then cx.annotateTop l .top st'
      else (evalLeft (cx.annotateTop l .top st')).2) := by
    split
    · exact htop
    · exact (hl _ _ htop).2
  obtain ⟨htag, hbelow⟩ := hargs _ _ hcallee
  exact ⟨Tag.unknown_mono (.cons htag .nil),
    (hbelow.havoc cx.escaped).havoc (call.lentVars cx.program)⟩

theorem rises_evalOperation (hshort : cx.program.operation t l r ≠ .shortCircuit)
    {evalArguments evalChoice : EvalStep} (hl : Rises evalLeft) (hr : Rises evalRight)
    (hargs : Rises evalArguments)
    (hchoice : cx.program.operation t l r = .choice → Rises evalChoice) :
    Rises (cx.evalOperation t l r evalLeft evalRight evalArguments evalChoice) := by
  unfold evalOperation
  extract_lets p op
  cases hkind : p.operation t l r with
  | leaf => exact fun st st' h => ⟨leafTag_mono h, h⟩
  | cast => exact hl.unary Tag.cast_mono
  | assignment => exact .assignment op hl hr
  | increment => exact .increment _ hl
  | sizeQuery => exact rises_sizeQuery
  | call => exact .call _ hl hargs
  | choice => exact hchoice hkind
  | shortCircuit => exact absurd hkind hshort
  | unary => exact hl.unary (unaryTag_mono op)
  | comma => exact .binary (fun _ hb => hb) hl hr
  | member =>
    intro st st' h
    obtain ⟨htag, hbelow⟩ := hl st st' h
    exact ⟨Tag.unknown_mono (.cons htag .nil), hbelow.annotateTop r (Tag.le_refl _)⟩
  | binary => exact .binary (binaryTag_mono op) hl hr

end Operators

/-! ### Expressions -/

/-- **Evaluation keeps the order of reached states.** -/
theorem rises_eval (hflow : cx.useFlowValues = false) (he : e.Unconditional cx.program)
    (role : CommaRole) : Rises (cx.eval e role) := by
  induction e generalizing role with
  | absent => exact fun _ _ h => ⟨Tag.le_refl _, h⟩
  | node t l r ihl ihr =>
    obtain ⟨hshort, hcolon, hluncond, hruncond⟩ := he
    have hl := ihl hluncond
    have hr := ihr hruncond
    -- Without a colon below it, a choice evaluates its two operands and knows nothing of the value.
    have hchoice (hkind : cx.program.operation t l r = .choice) : Rises (cx.evalChoice l r) := by
      cases r with
      | absent => exact fun st st' h => ⟨Tag.le_refl _, (hl _ st st' h).2⟩
      | node colon a b =>
        have htext : cx.program.text colon ≠ ":" := hcolon hkind
        rw [evalChoice, if_neg htext]
        exact .binary (fun _ hb => Tag.unknown_mono (.cons hb .nil)) (hl _) (hr _)
    have hnode : Rises (cx.evalNode t l r) :=
      rises_evalOperation hshort (hl _) (hr _) (hr _) hchoice
    have hcomma : Rises
        (evalBinary (fun a b => .unknown [a, b]) (cx.eval l .separator) (cx.eval r .separator)) :=
      .binary (fun ha hb => Tag.unknown_mono (.cons ha (.cons hb .nil))) (hl _) (hr _)
    have hsame : ∀ tag, cx.withFlowValue t tag = tag := by
      intro tag
      simp [withFlowValue, hflow]
    intro st st' h
    have hreach : ¬ st.store.isUnreachable = true := mt Store.isUnreachable_iff.1 h.reached
    have hreach' : ¬ st'.store.isUnreachable = true := mt Store.isUnreachable_iff.1 h.reached'
    rw [eval_node, eval_node, if_neg hreach, if_neg hreach']
    split
    · exact hcomma _ _ (h.annotate t (Tag.le_refl _))
    · obtain ⟨htag, hbelow⟩ := hnode st st' h
      simp only [hsame]
      exact ⟨htag, hbelow.annotate t htag⟩

/-- From the unreachable store an expression has no value, and every token of it is marked so. -/
theorem evaluate_unreachable (cx : EvalContext) (he : e ≠ .absent) (hst : st.store = .unreachable) :
    (cx.evaluate e st).1 = .bottom ∧ (cx.evaluate e st).2.store = .unreachable ∧
      ∀ u ∈ e.tokens, (cx.evaluate e st).2.annotations.get? u = some .bottom := by
  cases e with
  | absent => exact absurd rfl he
  | node t l r =>
    have heq : cx.evaluate (.node t l r) st =
        (.bottom, cx.annotateUnreachable (.node t l r) st) := by
      rw [evaluate, eval_node, if_neg (by simp), if_pos (Store.isUnreachable_iff.2 hst)]
    rw [heq]
    refine ⟨rfl, ?_, fun u hu => get?_annotateUnreachable (.inl hu)⟩
    rw [annotateUnreachable_store]
    exact hst

/-- **Evaluation is monotone.**  Without `&&`, `||` and `?:`, and without values known to the front
end, evaluating from the smaller of two stores gives a tag, a store and tags of tokens that are
below those from the greater one.  Every token with a tag in the second evaluation has one in the
first, and where the smaller store is reachable no others have. -/
theorem evaluate_mono (cx : EvalContext) (hflow : cx.useFlowValues = false) (e : Expr)
    (he : e.Unconditional cx.program) (st : EvalState) {s s' : Store} (hs : s.le s' = true) :
    (cx.evaluate e (st.on s)).1.le (cx.evaluate e (st.on s')).1 = true ∧
    (cx.evaluate e (st.on s)).2.store.le (cx.evaluate e (st.on s')).2.store = true ∧
    (∀ u b, (cx.evaluate e (st.on s')).2.annotations.get? u = some b →
      ∃ a, (cx.evaluate e (st.on s)).2.annotations.get? u = some a ∧ a.le b = true) ∧
    (s ≠ .unreachable → ∀ u, (cx.evaluate e (st.on s)).2.annotations.contains u =
      (cx.evaluate e (st.on s')).2.annotations.contains u) := by
  by_cases hreach : s = .unreachable
  · subst hreach
    by_cases habsent : e = .absent
    · subst habsent
      exact ⟨rfl, rfl, fun u b hb => ⟨b, hb, Tag.le_refl b⟩, fun _ _ => rfl⟩
    have hunreachable : (st.on .unreachable).store = .unreachable := rfl
    obtain ⟨htag, hstore, htags⟩ := evaluate_unreachable cx habsent hunreachable
    refine ⟨?_, ?_, fun u b hb => ?_, fun h => absurd rfl h⟩
    · rw [htag]
      exact Tag.bottom_le _
    · rw [hstore]
      rfl
    · by_cases hu : u ∈ e.tokens
      · exact ⟨.bottom, htags u hu, Tag.bottom_le b⟩
      · -- Both evaluations leave other tokens as they were.
        have hold : st.annotations.get? u = some b := (get?_eval hu .operator (st.on s')).symm.trans hb
        exact ⟨b, (get?_eval hu .operator (st.on .unreachable)).trans hold, Tag.le_refl b⟩
  · have hstart : (st.on s).Below (st.on s') := by
      refine ⟨hreach, hs, fun u => ?_⟩
      change Option.Rel _ (st.annotations.get? u) (st.annotations.get? u)
      cases st.annotations.get? u
      · exact .none
      · exact .some (Tag.le_refl _)
    obtain ⟨htag, hbelow⟩ := rises_eval hflow he .operator _ _ hstart
    refine ⟨htag, hbelow.store, fun u b hb => ?_, fun _ u => (hbelow.contains_eq u).symm⟩
    have hrel := hbelow.tags u
    change (cx.eval e .operator (st.on s')).2.annotations.get? u = some b at hb
    rw [hb] at hrel
    cases hget : (cx.eval e .operator (st.on s)).2.annotations.get? u with
    | none =>
      rw [hget] at hrel
      cases hrel
    | some a =>
      rw [hget] at hrel
      cases hrel with
      | some hab => exact ⟨a, hget, hab⟩

end EvalContext

/-! ### Sums and a call -/

/-- `x += g(y, -x), x++`, the variables being 1 and 2. -/
def sumOfCall : Program where
  tokens := #[
    { text := ",", left := some 1, right := some 8 },
    { text := "+=", left := some 2, right := some 3, parent := some 0 },
    { text := "x", isName := true, varId := 1, var := some 0, parent := some 1 },
    { text := "(", left := some 4, right := some 5, parent := some 1 },
    { text := "g", isName := true, parent := some 3 },
    { text := ",", left := some 6, right := some 7, parent := some 3 },
    { text := "y", isName := true, varId := 2, var := some 1, parent := some 5 },
    { text := "-", left := some 9, parent := some 5 },
    { text := "++", left := some 10, parent := some 0 },
    { text := "x", isName := true, varId := 1, var := some 0, parent := some 7 },
    { text := "x", isName := true, varId := 1, var := some 0, parent := some 8 }]
  vars := #[{ id := 1, isLocal := true }, { id := 2, isLocal := true }]

/-- Evaluation of `sumOfCall`, with `y` escaping. -/
def sumOfCallContext : EvalContext := { program := sumOfCall, escaped := [2] }

/-- `x` is zero, and `y` has no value. -/
def tightStore : Store := (Store.top.set 1 .zero).set 2 .bottom

/-- `y` is not zero. -/
def looseStore : Store := Store.top.set 2 .nonZero

theorem evaluate_mono_sumOfCall :
    (sumOfCallContext.useFlowValues = false ∧
      (sumOfCall.expr 0).Unconditional sumOfCall ∧ tightStore.le looseStore = true) ∧
    let tight := sumOfCallContext.evaluate (sumOfCall.expr 0) (EvalState.on {} tightStore)
    let loose := sumOfCallContext.evaluate (sumOfCall.expr 0) (EvalState.on {} looseStore)
    tight.1.le loose.1 = true ∧ tight.2.store.le loose.2.store = true ∧
      (∀ u b, loose.2.annotations.get? u = some b →
        ∃ a, tight.2.annotations.get? u = some a ∧ a.le b = true) ∧
      (tightStore ≠ .unreachable →
        ∀ u, tight.2.annotations.contains u = loose.2.annotations.contains u) := by
  have huncond : (sumOfCall.expr 0).Unconditional sumOfCall :=
    Expr.unconditional_of_text (by decide +kernel)
  have hle : tightStore.le looseStore = true := by decide +kernel
  exact ⟨⟨rfl, huncond, hle⟩,
    EvalContext.evaluate_mono sumOfCallContext rfl (sumOfCall.expr 0) huncond {} hle⟩

/-! ### A condition -/

/-- `x && x` -/
def namedTwice : Program where
  tokens := #[
    { text := "&&", left := some 1, right := some 2 },
    { text := "x", isName := true, varId := 1, var := some 0, parent := some 0 },
    { text := "x", isName := true, varId := 1, var := some 0, parent := some 0 }]
  vars := #[{ id := 1, isLocal := true }]

/-- A condition is not monotone: where `x` is known to be zero, its second occurrence is zero too,
and where nothing is known, it is not zero. -/
example :
    let cx : EvalContext := { program := namedTwice }
    let tags := fun s => (cx.evaluate (namedTwice.expr 0) (EvalState.on {} s)).2.annotations
    (tags (Store.top.set 1 .zero)).get? 2 = some .zero ∧
      (tags .top).get? 2 = some .nonZero := by
  decide +kernel

end DivisorCheck
