/-
  What evaluation leaves alone.

  A step of evaluation works on the tokens of one expression.  It gives tags to no
  other tokens, keeps all division sites found before, and forgets nothing wrongly:
  what it knows afterwards about a variable that no assignment of the expression
  names covers what it knew before (`Frame`).  The last part is what makes the
  store after a block good for an exception raised anywhere within it.

  A second invariant goes along with it.  As long as no variable is known to be
  impossible (`Store.Live`), no value is, so a tag is `bottom` only where nothing
  is reached.
-/
import DivisorCheck.Proofs.Expr.Narrowing

namespace DivisorCheck

/-- No variable is known to be impossible. -/
def Store.Live (s : Store) : Prop := ∀ v, s.get v ≠ .bottom

namespace Store

variable {s s' : Store}

theorem Live.ne_unreachable (h : s.Live) : s ≠ .unreachable := by
  rintro rfl
  exact h 0 rfl

theorem Live.set (h : s.Live) {t : Tag} (ht : t ≠ .bottom) (v : VarId) : (s.set v t).Live := by
  intro w
  rw [get_set h.ne_unreachable]
  split_ifs
  · exact ht
  · exact h w

theorem Live.havoc (h : s.Live) (vs : List VarId) : (s.havoc vs).Live := by
  intro w
  rw [get_havoc h.ne_unreachable]
  split_ifs
  · decide
  · exact h w

theorem Live.join (h : s.Live) : (s.join s').Live := by
  intro w
  rw [get_join]
  exact Tag.join_ne_bottom (h w)

theorem Live.of_describes {σ : State} (h : s.Describes σ) : s.Live :=
  fun v => Tag.ne_bottom_of_holds (h v)

theorem le_havoc (s : Store) (vs : List VarId) (v : VarId) :
    (s.get v).le ((s.havoc vs).get v) = true := by
  by_cases hs : s = .unreachable
  · subst hs
    simp
  · rw [get_havoc hs]
    split_ifs <;> simp

theorem le_set_of_ne (s : Store) {v w : VarId} (h : v ≠ w) (t : Tag) :
    (s.get w).le ((s.set v t).get w) = true := by
  by_cases hs : s = .unreachable
  · subst hs
    simp
  · rw [get_set hs, if_neg h]
    exact Tag.le_refl _

end Store

/-- The same state with another store. -/
def EvalState.on (st : EvalState) (s : Store) : EvalState := { st with store := s }

@[simp] theorem EvalState.on_store (st : EvalState) (s : Store) : (st.on s).store = s := rfl

/-! ### Frames -/

/-- Tags are given to the listed tokens only, and no site is lost. -/
structure Marks (ts : List TokenId) (st st' : EvalState) : Prop where
  annotations : ∀ u, u ∉ ts → st'.annotations.get? u = st.annotations.get? u
  sites : ∀ d ∈ st.sites, d ∈ st'.sites

/-- No assignment among the tokens names the variable. -/
def Program.Spares (p : Program) (ts : List TokenId) (v : VarId) : Prop :=
  ∀ t ∈ ts, p.assignsAt t ≠ some v

/-- What evaluation of the listed tokens leaves alone. -/
structure Frame (p : Program) (ts : List TokenId) (st st' : EvalState) : Prop
    extends Marks ts st st' where
  store : ∀ v, p.Spares ts v → (st.store.get v).le (st'.store.get v) = true

namespace Marks

variable {ts ts' : List TokenId} {st st' st'' : EvalState}

theorem refl (ts : List TokenId) (st : EvalState) : Marks ts st st :=
  ⟨fun _ _ => rfl, fun _ h => h⟩

theorem trans (h : Marks ts st st') (h' : Marks ts st' st'') : Marks ts st st'' :=
  ⟨fun u hu => (h'.annotations u hu).trans (h.annotations u hu),
    fun d hd => h'.sites d (h.sites d hd)⟩

theorem mono (h : Marks ts st st') (hts : ∀ t ∈ ts, t ∈ ts') : Marks ts' st st' :=
  ⟨fun u hu => h.annotations u fun hmem => hu (hts u hmem), h.sites⟩

theorem annotate (cx : EvalContext) {t : TokenId} (ht : t ∈ ts) (tag : Tag) (st : EvalState) :
    Marks ts st (cx.annotate t tag st) := by
  constructor
  · intro u hu
    have htu : t ≠ u := fun h => hu (h ▸ ht)
    rw [EvalContext.annotate, Annotations.get?_insert, if_neg htu]
  · intro d hd
    simp only [EvalContext.annotate]
    split_ifs
    · exact Array.mem_push.2 (.inl hd)
    · exact hd

/-- The stores do not matter. -/
theorem on (h : Marks ts st st') (s s' : Store) : Marks ts (st.on s) (st'.on s') :=
  ⟨h.annotations, h.sites⟩

end Marks

namespace Frame

variable {p : Program} {ts ts' : List TokenId} {st st' st'' : EvalState}

theorem refl (p : Program) (ts : List TokenId) (st : EvalState) : Frame p ts st st :=
  ⟨.refl ts st, fun _ _ => Tag.le_refl _⟩

theorem trans (h : Frame p ts st st') (h' : Frame p ts st' st'') : Frame p ts st st'' :=
  ⟨h.toMarks.trans h'.toMarks, fun v hv => Tag.le_trans (h.store v hv) (h'.store v hv)⟩

theorem mono (h : Frame p ts st st') (hts : ∀ t ∈ ts, t ∈ ts') : Frame p ts' st st' :=
  ⟨h.toMarks.mono hts, fun v hv => h.store v fun t ht => hv t (hts t ht)⟩

theorem annotate (cx : EvalContext) {t : TokenId} (ht : t ∈ ts) (tag : Tag) (st : EvalState) :
    Frame p ts st (cx.annotate t tag st) :=
  ⟨.annotate cx ht tag st, fun _ _ => Tag.le_refl _⟩

theorem annotateTop (cx : EvalContext) {e : Expr} (he : ∀ t ∈ e.tokens, t ∈ ts) (tag : Tag)
    (st : EvalState) : Frame p ts st (cx.annotateTop e tag st) := by
  cases e with
  | absent => exact .refl p ts st
  | node t l r => exact .annotate cx (he t (List.mem_cons_self ..)) tag st

theorem annotateUnreachable (cx : EvalContext) {e : Expr} (he : ∀ t ∈ e.tokens, t ∈ ts)
    (st : EvalState) : Frame p ts st (cx.annotateUnreachable e st) := by
  unfold EvalContext.annotateUnreachable
  revert he
  generalize e.tokens = us
  intro hus
  induction us generalizing st with
  | nil => exact .refl p ts st
  | cons u us ih =>
    exact (annotate cx (hus u (List.mem_cons_self ..)) .bottom st).trans
      (ih _ fun t ht => hus t (List.mem_cons_of_mem _ ht))

theorem on (p : Program) (ts : List TokenId) (st : EvalState) {s : Store}
    (h : ∀ v, p.Spares ts v → (st.store.get v).le (s.get v) = true) :
    Frame p ts st (st.on s) :=
  ⟨⟨fun _ _ => rfl, fun _ h => h⟩, h⟩

end Frame

namespace EvalContext

variable {cx : EvalContext} {t : TokenId} {l r : Expr} {st : EvalState}

/-- None of the tokens has a tag yet. -/
def Fresh (ts : List TokenId) (st : EvalState) : Prop := ∀ u ∈ ts, st.annotations.get? u = none

theorem fresh_empty (ts : List TokenId) (s : Store) : Fresh ts { store := s } := fun _ _ => rfl

theorem Fresh.of_marks {ts us : List TokenId} {st' : EvalState} (h : Fresh us st)
    (hmarks : Marks ts st st') (hapart : ∀ u ∈ us, u ∉ ts) : Fresh us st' := by
  intro u hu
  rw [hmarks.annotations u (hapart u hu)]
  exact h u hu

@[simp] theorem annotate_store (tag : Tag) : (cx.annotate t tag st).store = st.store := rfl

@[simp] theorem annotateTop_store (e : Expr) (tag : Tag) :
    (cx.annotateTop e tag st).store = st.store := by
  cases e <;> rfl

@[simp] theorem annotateUnreachable_store (e : Expr) :
    (cx.annotateUnreachable e st).store = st.store := by
  unfold annotateUnreachable
  generalize e.tokens = us
  induction us generalizing st with
  | nil => rfl
  | cons u us ih => exact ih

/-! ### Steps of evaluation -/

/-- What every step of evaluation keeps to, given the tokens that it works on. -/
structure Confined (p : Program) (ts : List TokenId) (f : EvalStep) : Prop where
  frame : ∀ st, Frame p ts st (f st).2
  live : ∀ st, st.store.Live → (f st).1 ≠ .bottom ∧ (f st).2.store.Live

variable {ts : List TokenId}

theorem Confined.mono {p : Program} {ts' : List TokenId} {f : EvalStep} (h : Confined p ts f)
    (hts : ∀ t ∈ ts, t ∈ ts') : Confined p ts' f :=
  ⟨fun st => (h.frame st).mono hts, h.live⟩

theorem Confined.binary {p : Program} {f : Tag → Tag → Tag} {evalLeft evalRight : EvalStep}
    (hf : ∀ a b, a ≠ .bottom → b ≠ .bottom → f a b ≠ .bottom)
    (hl : Confined p ts evalLeft) (hr : Confined p ts evalRight) :
    Confined p ts (evalBinary f evalLeft evalRight) where
  frame st := (hl.frame st).trans (hr.frame _)
  live st hst := by
    obtain ⟨ha, hst'⟩ := hl.live st hst
    obtain ⟨hb, hst''⟩ := hr.live _ hst'
    exact ⟨hf _ _ ha hb, hst''⟩

theorem Confined.unary {p : Program} {f : Tag → Tag} {evalLeft : EvalStep}
    (hf : ∀ a, a ≠ .bottom → f a ≠ .bottom) (hl : Confined p ts evalLeft) :
    Confined p ts (fun st => (f (evalLeft st).1, (evalLeft st).2)) where
  frame st := hl.frame st
  live st hst := ⟨hf _ (hl.live st hst).1, (hl.live st hst).2⟩

theorem unknown_ne_bottom {tags : List Tag} (h : ∀ a ∈ tags, a ≠ .bottom) :
    Tag.unknown tags ≠ .bottom := by
  unfold Tag.unknown
  rw [if_neg (fun hmem => h _ hmem rfl)]
  decide

theorem binaryTag_ne_bottom (op : String) {a b : Tag} (ha : a ≠ .bottom) (hb : b ≠ .bottom) :
    binaryTag op a b ≠ .bottom := by
  unfold binaryTag Tag.binary?
  split
  · rename_i f hf
    split at hf <;> cases hf
    all_goals
      revert ha hb
      cases a <;> cases b <;> decide
  · exact unknown_ne_bottom (by simp [ha, hb])

/-! ### Writes -/

section Write

variable {target : Expr} {evalTarget : EvalStep}

theorem write_frame (hts : ∀ t ∈ target.tokens, t ∈ ts)
    (hassign : ∀ v, target.trackedVar? cx.program = some v →
      ∃ t ∈ ts, cx.program.assignsAt t = some v)
    (hf : Confined cx.program ts evalTarget) (tag : Tag) (st : EvalState) :
    Frame cx.program ts st (cx.write target evalTarget tag st) := by
  unfold write
  split
  · rename_i v hv
    obtain ⟨t, ht, hassigns⟩ := hassign v hv
    refine (Frame.on _ ts st fun w hw => ?_).trans (.annotateTop cx hts tag _)
    refine Store.le_set_of_ne _ (fun hvw => hw t ht ?_) tag
    rw [hassigns, hvw]
  · have hhavoc : ∀ st : EvalState, Frame cx.program ts st (cx.havocEscaped st) := fun st =>
      .on _ ts st fun v _ => Store.le_havoc _ _ v
    split
    · exact hhavoc st
    · rename_i t _
      extract_lets st'
      have htarget : Frame cx.program ts st st' := by
        unfold st'
        split
        · exact .refl _ ts st
        · exact hf.frame st
      split
      · exact htarget
      · exact htarget.trans (hhavoc _)

theorem write_live (hf : Confined cx.program ts evalTarget) {tag : Tag} (htag : tag ≠ .bottom)
    (hst : st.store.Live) : (cx.write target evalTarget tag st).store.Live := by
  unfold write
  split
  · rw [annotateTop_store]
    exact hst.set htag _
  · split
    · exact hst.havoc _
    · rename_i t _
      extract_lets st'
      have htarget : st'.store.Live := by
        unfold st'
        split
        · exact hst
        · exact (hf.live st hst).2
      split
      · exact htarget
      · exact htarget.havoc _

end Write

/-! ### The operators -/

section Operators

variable {evalLeft evalRight : EvalStep}

theorem Confined.assignment (op : String) (hts : ∀ t ∈ l.tokens, t ∈ ts)
    (hassign : ∀ v, l.trackedVar? cx.program = some v → ∃ t ∈ ts, cx.program.assignsAt t = some v)
    (hl : Confined cx.program ts evalLeft) (hr : Confined cx.program ts evalRight) :
    Confined cx.program ts (cx.evalAssignment op l evalLeft evalRight) := by
  have hwrite := fun tag st => write_frame hts hassign hl tag st
  unfold evalAssignment
  constructor
  · intro st
    split
    · exact (hr.frame st).trans (hwrite _ _)
    · exact (hl.frame st).trans ((hr.frame _).trans (hwrite _ _))
  · intro st hst
    split
    · obtain ⟨ha, hst'⟩ := hr.live st hst
      exact ⟨ha, write_live hl ha hst'⟩
    · obtain ⟨ha, hst'⟩ := hl.live st hst
      obtain ⟨hb, hst''⟩ := hr.live _ hst'
      have htag := binaryTag_ne_bottom (compoundOperator op) ha hb
      exact ⟨htag, write_live hl htag hst''⟩

theorem Confined.increment (isPostfix : Bool) (hts : ∀ t ∈ l.tokens, t ∈ ts)
    (hassign : ∀ v, l.trackedVar? cx.program = some v → ∃ t ∈ ts, cx.program.assignsAt t = some v)
    (hl : Confined cx.program ts evalLeft) :
    Confined cx.program ts (cx.evalIncrement isPostfix l evalLeft) := by
  unfold evalIncrement
  constructor
  · exact fun st => (hl.frame st).trans (write_frame hts hassign hl _ _)
  · intro st hst
    obtain ⟨ha, hst'⟩ := hl.live st hst
    have hnew : (evalLeft st).1.add .nonZero ≠ .bottom := by
      revert ha
      cases (evalLeft st).1 <;> decide
    refine ⟨?_, write_live hl hnew hst'⟩
    cases isPostfix
    · exact hnew
    · exact ha

theorem Confined.sizeQuery (hl : ∀ t ∈ l.tokens, t ∈ ts) (hr : ∀ t ∈ r.tokens, t ∈ ts) :
    Confined cx.program ts (cx.evalSizeQuery l r) where
  frame st := (Frame.annotateTop cx hl .top st).trans (.annotateUnreachable cx hr _)
  live st hst := by
    refine ⟨Tag.noConfusion, ?_⟩
    unfold evalSizeQuery
    rwa [annotateUnreachable_store, annotateTop_store]

theorem Confined.call (call : Expr) (hts : ∀ t ∈ l.tokens, t ∈ ts)
    (hl : Confined cx.program ts evalLeft) (hargs : Confined cx.program ts evalRight) :
    Confined cx.program ts (cx.evalCall call l evalLeft evalRight) := by
  unfold evalCall
  constructor
  · intro st
    extract_lets st₁ st₂
    have hcallee : Frame cx.program ts st₁ st₂ := by
      unfold st₂
      split
      · exact .refl _ ts _
      · exact hl.frame _
    refine (Frame.annotateTop cx hts .top st).trans (hcallee.trans ((hargs.frame st₂).trans ?_))
    refine .on _ ts _ fun v _ => ?_
    exact Tag.le_trans (Store.le_havoc _ _ v) (Store.le_havoc _ _ v)
  · intro st hst
    extract_lets st₁ st₂
    have hst₁ : st₁.store.Live := by
      unfold st₁
      rwa [annotateTop_store]
    have hst₂ : st₂.store.Live := by
      unfold st₂
      split
      · exact hst₁
      · exact (hl.live _ hst₁).2
    obtain ⟨ha, hst₃⟩ := hargs.live st₂ hst₂
    exact ⟨unknown_ne_bottom (by simpa using ha), (hst₃.havoc _).havoc _⟩

/-- The arms of a conditional, evaluated in turn on the store after the condition. -/
def evalArms (cx : EvalContext) (cond : Expr) (colon : TokenId) (evalThen evalElse : EvalStep) :
    EvalStep := fun st =>
  let a := evalThen (st.on (cond.narrowBy cx.program cx.escaped true st.store))
  let b := evalElse (a.2.on (cond.narrowBy cx.program cx.escaped false st.store))
  (a.1.join b.1, cx.annotate colon (a.1.join b.1) (b.2.on (a.2.store.join b.2.store)))

theorem evalConditional_eq (cond : Expr) (colon : TokenId)
    (evalCond evalThen evalElse : EvalStep) (st : EvalState) :
    cx.evalConditional cond colon evalCond evalThen evalElse st =
      cx.evalArms cond colon evalThen evalElse (evalCond st).2 := rfl

theorem Confined.arms (cond : Expr) {colon : TokenId} (hcolon : colon ∈ ts)
    {evalThen evalElse : EvalStep} (hthen : Confined cx.program ts evalThen)
    (helse : Confined cx.program ts evalElse) :
    Confined cx.program ts (cx.evalArms cond colon evalThen evalElse) := by
  unfold evalArms
  constructor
  · intro st
    extract_lets a b
    have ha : Frame cx.program ts (st.on _) a.2 := hthen.frame _
    have hb : Frame cx.program ts (a.2.on _) b.2 := helse.frame _
    refine Frame.trans ⟨?_, fun v hv => ?_⟩ (.annotate cx hcolon _ _)
    · exact (ha.toMarks.on st.store a.2.store).trans (hb.toMarks.on a.2.store _)
    · -- Each arm covers what its outcome of the condition leaves, and the two leave everything.
      rw [EvalState.on_store, Store.get_join]
      exact Tag.le_trans (Expr.le_join_narrowBy cond st.store v)
        (Tag.join_mono (ha.store v hv) (hb.store v hv))
  · intro st hst
    obtain ⟨ha, hthenLive⟩ := hthen.live
      (st.on (cond.narrowBy cx.program cx.escaped true st.store))
      (Expr.narrowBy_ne_bottom hst true)
    exact ⟨Tag.join_ne_bottom ha, hthenLive.join⟩

theorem Confined.conditional (cond : Expr) {colon : TokenId} (hcolon : colon ∈ ts)
    {evalCond evalThen evalElse : EvalStep} (hcond : Confined cx.program ts evalCond)
    (hthen : Confined cx.program ts evalThen) (helse : Confined cx.program ts evalElse) :
    Confined cx.program ts (cx.evalConditional cond colon evalCond evalThen evalElse) := by
  have harms := Confined.arms cond hcolon hthen helse
  exact ⟨fun st => (hcond.frame st).trans (harms.frame _),
    fun st hst => harms.live _ (hcond.live st hst).2⟩

theorem evalShortCircuit_eq (isAnd : Bool) (first : Expr) (evalFirst evalSecond : EvalStep)
    (st : EvalState) :
    cx.evalShortCircuit isAnd first evalFirst evalSecond st =
      let a := evalFirst st
      let b := evalSecond (a.2.on (first.narrowBy cx.program cx.escaped isAnd a.2.store))
      (if isAnd then a.1.logicalAnd b.1 else a.1.logicalOr b.1,
        b.2.on (a.2.store.join b.2.store)) := rfl

theorem logical_ne_bottom (isAnd : Bool) {a b : Tag} (ha : a ≠ .bottom) (hb : b ≠ .bottom) :
    (if isAnd then a.logicalAnd b else a.logicalOr b) ≠ .bottom := by
  cases isAnd <;> cases a <;> cases b <;> simp_all [Tag.logicalAnd, Tag.logicalOr]

theorem Confined.shortCircuit (isAnd : Bool) (first : Expr) (hl : Confined cx.program ts evalLeft)
    (hr : Confined cx.program ts evalRight) :
    Confined cx.program ts (cx.evalShortCircuit isAnd first evalLeft evalRight) := by
  constructor
  · intro st
    rw [evalShortCircuit_eq]
    extract_lets a b
    have ha : Frame cx.program ts st a.2 := hl.frame st
    have hb : Frame cx.program ts (a.2.on _) b.2 := hr.frame _
    refine ha.trans ⟨hb.toMarks.on a.2.store _, fun v _ => ?_⟩
    rw [EvalState.on_store, Store.get_join]
    exact Tag.le_join_left _ _
  · intro st hst
    rw [evalShortCircuit_eq]
    extract_lets a b
    obtain ⟨hatag, halive⟩ : a.1 ≠ .bottom ∧ a.2.store.Live := hl.live st hst
    obtain ⟨hbtag, -⟩ := hr.live
      (a.2.on (first.narrowBy cx.program cx.escaped isAnd a.2.store))
      (Expr.narrowBy_ne_bottom halive isAnd)
    exact ⟨logical_ne_bottom isAnd hatag hbtag, halive.join⟩

theorem withFlowValue_ne_bottom (t : TokenId) {tag : Tag} (h : tag ≠ .bottom) :
    cx.withFlowValue t tag ≠ .bottom := by
  unfold withFlowValue
  split_ifs
  · split
    · rename_i n _
      exact Tag.ne_bottom_of_holds (Tag.holds_ofInt n)
    · decide
  · exact h

theorem leafTag_ne_bottom (hst : st.store.Live) : cx.leafTag t st ≠ .bottom := by
  unfold leafTag Program.literalTag?
  split
  · rename_i tag htag
    split at htag
    · rename_i n _
      cases htag
      exact Tag.ne_bottom_of_holds (Tag.holds_ofInt n)
    · simp only [Option.map_eq_some_iff] at htag
      obtain ⟨b, -, rfl⟩ := htag
      cases b <;> decide
  · split
    · exact hst _
    · decide

end Operators

/-! ### Expressions -/

/-- How a choice is evaluated, given as the two operands of the token. -/
def evalChoice (cx : EvalContext) (l : Expr) : Expr → EvalStep
  | .absent => fun st => (.top, (cx.eval l .operator st).2)
  | .node colon a b =>
    if cx.program.text colon = ":" then
      cx.evalConditional l colon (cx.eval l .operator) (cx.eval a .operator) (cx.eval b .operator)
    else
      evalBinary (fun _ b => .unknown [b]) (cx.eval l .operator)
        (cx.eval (.node colon a b) .operator)

/-- The operation of a node, its operands being evaluated. -/
def evalNode (cx : EvalContext) (t : TokenId) (l r : Expr) : EvalStep :=
  cx.evalOperation t l r (cx.eval l .operator) (cx.eval r .operator) (cx.eval r .separator)
    (cx.evalChoice l r)

theorem eval_node (t : TokenId) (l r : Expr) (role : CommaRole) (st : EvalState) :
    cx.eval (.node t l r) role st =
      if role = .separator ∧ cx.program.text t = "," ∧ !l.isAbsent ∧ !r.isAbsent then
        evalBinary (fun a b => .unknown [a, b]) (cx.eval l .separator) (cx.eval r .separator)
          (cx.annotate t .top st)
      else if st.store.isUnreachable then (.bottom, cx.annotateUnreachable (.node t l r) st)
      else
        let tag := cx.withFlowValue t (cx.evalNode t l r st).1
        (tag, cx.annotate t tag (cx.evalNode t l r st).2) := by
  cases r <;> rfl

theorem confined_evalOperation (hlinked : (Expr.node t l r).Linked cx.program)
    (hts : ∀ u ∈ (Expr.node t l r).tokens, u ∈ ts)
    {evalLeft evalRight evalArguments evalChoice : EvalStep}
    (hl : Confined cx.program ts evalLeft) (hr : Confined cx.program ts evalRight)
    (hargs : Confined cx.program ts evalArguments) (hchoice : Confined cx.program ts evalChoice) :
    Confined cx.program ts
      (cx.evalOperation t l r evalLeft evalRight evalArguments evalChoice) := by
  have hop := Program.operation_cases cx.program t l r
  have hlts : ∀ u ∈ l.tokens, u ∈ ts := fun u hu =>
    hts u (List.mem_cons_of_mem _ (List.mem_append_left _ hu))
  have hrts : ∀ u ∈ r.tokens, u ∈ ts := fun u hu =>
    hts u (List.mem_cons_of_mem _ (List.mem_append_right _ hu))
  have hassign (hkind : (cx.program.isAssignment t || cx.program.isStep t) = true) (v : VarId)
      (hv : l.trackedVar? cx.program = some v) : ∃ u ∈ ts, cx.program.assignsAt u = some v :=
    ⟨t, hts t (List.mem_cons_self ..), hlinked.assignsAt hkind hv⟩
  unfold evalOperation
  extract_lets p op
  cases hkind : cx.program.operation t l r <;> rw [hkind] at hop <;> simp only [p]
  case leaf =>
    exact ⟨fun st => .refl _ ts st, fun st hst => ⟨leafTag_ne_bottom hst, hst⟩⟩
  case cast => exact hl.unary fun a ha => by cases a <;> simp_all [Tag.cast]
  case assignment => exact .assignment op hlts (hassign (by simp [hop.1])) hl hr
  case increment => exact .increment _ hlts (hassign (by simp [hop.1])) hl
  case sizeQuery => exact .sizeQuery hlts hrts
  case call => exact .call _ hlts hl hargs
  case choice => exact hchoice
  case shortCircuit => exact .shortCircuit _ l hl hr
  case unary =>
    refine hl.unary fun a ha => ?_
    unfold unaryTag
    split_ifs
    · exact ha
    · cases a <;> simp_all [Tag.logicalNot]
    · exact unknown_ne_bottom (by simpa using ha)
  case comma => exact .binary (fun _ _ _ hb => hb) hl hr
  case member =>
    exact ⟨fun st => (hl.frame st).trans (.annotateTop cx hrts .top _), fun st hst =>
      ⟨unknown_ne_bottom (by simpa using (hl.live st hst).1), by
        rw [annotateTop_store]; exact (hl.live st hst).2⟩⟩
  case binary => exact .binary (fun _ _ => binaryTag_ne_bottom op) hl hr

/-- **Evaluation is confined to the expression.** -/
theorem confined_of_linked {e : Expr} (hlinked : e.Linked cx.program) (role : CommaRole) :
    Confined cx.program e.tokens (cx.eval e role) := by
  induction e using Expr.induction_arms generalizing role with
  | habsent => exact ⟨fun st => .refl _ _ st, fun st hst => ⟨Tag.noConfusion, hst⟩⟩
  | hnode t l r ihl ihr iharms =>
    obtain ⟨-, -, hllinked, hrlinked⟩ := id hlinked
    have htop : t ∈ (Expr.node t l r).tokens := List.mem_cons_self ..
    have hrts : ∀ u ∈ r.tokens, u ∈ (Expr.node t l r).tokens := fun u hu =>
      List.mem_cons_of_mem _ (List.mem_append_right _ hu)
    have hl := fun role => (ihl hllinked role).mono (fun u hu =>
      (List.mem_cons_of_mem t (List.mem_append_left r.tokens hu)))
    have hr := fun role => (ihr hrlinked role).mono hrts
    have hunknown : ∀ a b : Tag, a ≠ .bottom → b ≠ .bottom → Tag.unknown [a, b] ≠ .bottom :=
      fun a b ha hb => unknown_ne_bottom (by simp [ha, hb])
    have hchoice : Confined cx.program (Expr.node t l r).tokens (cx.evalChoice l r) := by
      cases r with
      | absent =>
        exact ⟨fun st => (hl _).frame st,
          fun st hst => ⟨Tag.noConfusion, ((hl _).live st hst).2⟩⟩
      | node colon a b =>
        obtain ⟨iha, ihb⟩ := iharms colon a b rfl
        obtain ⟨-, -, halinked, hblinked⟩ := hrlinked
        by_cases hcolon : cx.program.text colon = ":"
        · rw [evalChoice, if_pos hcolon]
          refine .conditional l (hrts colon (List.mem_cons_self ..)) (hl _) ?_ ?_
          · exact (iha halinked _).mono fun u hu =>
              hrts u (List.mem_cons_of_mem _ (List.mem_append_left _ hu))
          · exact (ihb hblinked _).mono fun u hu =>
              hrts u (List.mem_cons_of_mem _ (List.mem_append_right _ hu))
        · rw [evalChoice, if_neg hcolon]
          have hsecond : ∀ a b : Tag, a ≠ .bottom → b ≠ .bottom → Tag.unknown [b] ≠ .bottom :=
            fun _ b _ hb => unknown_ne_bottom (by simpa using hb)
          exact .binary hsecond (hl _) (hr _)
    have hnode : Confined cx.program (Expr.node t l r).tokens (cx.evalNode t l r) :=
      confined_evalOperation hlinked (fun _ hu => hu) (hl _) (hr _) (hr _) hchoice
    have hcomma := Confined.binary hunknown (hl .separator) (hr .separator)
    constructor
    · intro st
      rw [eval_node]
      split_ifs
      · exact (Frame.annotate cx htop .top st).trans (hcomma.frame _)
      · exact .annotateUnreachable cx (fun _ hu => hu) st
      · exact (hnode.frame st).trans (.annotate cx htop _ _)
    · intro st hst
      rw [eval_node]
      split_ifs with hsep hreach
      · exact hcomma.live _ hst
      · exact absurd (Store.isUnreachable_iff.1 hreach) hst.ne_unreachable
      · exact ⟨withFlowValue_ne_bottom t (hnode.live st hst).1, (hnode.live st hst).2⟩

theorem confined_eval {e : Expr} (hwf : e.WellFormed cx.program) (role : CommaRole) :
    Confined cx.program e.tokens (cx.eval e role) := confined_of_linked hwf.linked role

end EvalContext

end DivisorCheck
