/-
  Evaluation is sound.

  Evaluating an expression on a store that describes a state says something about
  every outcome that running the expression from that state may have (`Promises`).
  If the run ends with a value, the tag and the store that evaluation gives are
  true of it.  If it ends with a division by zero, the division has been listed as
  a site, and its divisor bears a tag that admits zero.  If it ends with an
  exception, the store is still true of all variables that no assignment of the
  expression names.

  An operator that runs several operands in turn is `Run.Bind`, and
  `Promises.bind` takes a promise about the first operand through the evaluation
  of the others: they leave alone what the promise speaks of, since no token occurs
  twice in the expression.
-/
import DivisorCheck.Proofs.Expr.Frame

namespace DivisorCheck

theorem Store.Describes.mono {s s' : Store} {σ : State} (h : s.Describes σ)
    (hle : ∀ v, (s.get v).le (s'.get v) = true) : s'.Describes σ :=
  fun v => (h v).mono (hle v)

/-! ### Promises -/

/-- The tokens that a promise speaks of. -/
structure Extent where
  /-- divisions that are not listed yet but will be -/
  pending : List TokenId := []
  /-- the tokens among which the divisors are -/
  divisors : List TokenId
  /-- the tokens among which the assignments are -/
  touched : List TokenId

/-- One extent lies within another. -/
structure Extent.Within (S S' : Extent) : Prop where
  pending : ∀ u ∈ S.pending, u ∈ S'.pending
  divisors : ∀ u ∈ S.divisors, u ∈ S'.divisors
  touched : ∀ u ∈ S.touched, u ∈ S'.touched

theorem Extent.Within.refl (S : Extent) : S.Within S :=
  ⟨fun _ h => h, fun _ h => h, fun _ h => h⟩

/-- A division is listed, or will be, and its divisor may be zero. -/
structure Flagged (p : Program) (S : Extent) (d : TokenId) (st : EvalState) : Prop where
  site : d ∈ st.sites ∨ (d ∈ S.pending ∧ p.isDivision d = true)
  divisor : ∃ u ∈ S.divisors, (p.token d).right = some u ∧
    ∃ tag, st.annotations.get? u = some tag ∧ tag.mayBeZero = true

theorem Flagged.of_marks {p : Program} {S S' : Extent} {d : TokenId} {st st' : EvalState}
    {ts : List TokenId} (h : Flagged p S d st) (hS : S.Within S') (hmarks : Marks ts st st')
    (hapart : ∀ u ∈ S.divisors, u ∉ ts) : Flagged p S' d st' := by
  obtain ⟨hsite, u, hu, hright, tag, htag, hzero⟩ := h
  refine ⟨hsite.imp (hmarks.sites d) (.imp_left (hS.pending d)), u, hS.divisors u hu, hright, tag,
    ?_, hzero⟩
  rw [hmarks.annotations u (hapart u hu)]
  exact htag

/-- What an evaluation that has ended in `st` says about an outcome. -/
def Promises {α : Type} (p : Program) (S : Extent) (st : EvalState) (P : α → Prop) :
    Outcome α → Prop
  | .value a σ => P a ∧ st.store.Describes σ
  | .divisionByZero d => Flagged p S d st
  | .raised σ => ∀ v, p.Spares S.touched v → (st.store.get v).Holds (σ v)

namespace Promises

variable {α β : Type} {p : Program} {S S' : Extent} {st st' : EvalState} {P : α → Prop}
  {Q : β → Prop} {ts : List TokenId}

/-- What is said about an outcome without a value is still true when evaluation has gone on. -/
theorem later (hS : S.Within S') (hframe : Frame p ts st st') (hts : ∀ u ∈ ts, u ∈ S'.touched)
    (hapart : ∀ u ∈ S.divisors, u ∉ ts) :
    (∀ d, Promises p S st P (.divisionByZero d) → Promises p S' st' Q (.divisionByZero d)) ∧
    (∀ σ, Promises p S st P (.raised σ) → Promises p S' st' Q (.raised σ)) := by
  constructor
  · exact fun d h => h.of_marks hS hframe.toMarks hapart
  · intro σ h v hv
    refine (h v fun t ht => hv t (hS.touched t ht)).mono (hframe.store v ?_)
    exact fun t ht => hv t (hts t ht)

/-- **One run after another.**  What evaluation says about the first run is good for the rest, as
long as the rest only touches other tokens. -/
theorem bind {m : Run α} {f : α → Run β} {σ : State} {o : Outcome β} (h : (m >>= f) σ o)
    (hm : ∀ o, m σ o → Promises p S st P o) (hS : S.Within S') (hframe : Frame p ts st st')
    (hts : ∀ u ∈ ts, u ∈ S'.touched) (hapart : ∀ u ∈ S.divisors, u ∉ ts)
    (hf : ∀ a σ', m σ (.value a σ') → P a → st.store.Describes σ' → f a σ' o →
      Promises p S' st' Q o) :
    Promises p S' st' Q o := by
  have hlater := later (P := P) (Q := Q) hS hframe hts hapart
  rcases h with ⟨hrun, hrest⟩ | hrun | hrun
  · obtain ⟨ha, hσ⟩ := hm _ hrun
    exact hf _ _ hrun ha hσ hrest
  · exact hlater.1 _ (hm _ hrun)
  · exact hlater.2 _ (hm _ hrun)

/-- Going on in a way that keeps values too. -/
theorem mono {o : Outcome α} {P' : α → Prop} (h : Promises p S st P o) (hS : S.Within S')
    (hmarks : Marks ts st st') (hapart : ∀ u ∈ S.divisors, u ∉ ts)
    (hle : ∀ v, (st.store.get v).le (st'.store.get v) = true) (hP : ∀ a, P a → P' a) :
    Promises p S' st' P' o := by
  cases o with
  | value a σ => exact ⟨hP a h.1, h.2.mono hle⟩
  | divisionByZero d => exact Flagged.of_marks h hS hmarks hapart
  | raised σ => exact fun v hv => (h v fun t ht => hv t (hS.touched t ht)).mono (hle v)

/-- The same evaluation promises less. -/
theorem weaken {o : Outcome α} {P' : α → Prop} (h : Promises p S st P o) (hS : S.Within S')
    (hP : ∀ a, P a → P' a) : Promises p S' st P' o := by
  have hnone : ∀ u ∈ S.divisors, u ∉ ([] : List TokenId) := fun _ _ => List.not_mem_nil
  exact h.mono hS (.refl [] st) hnone (fun _ => Tag.le_refl _) hP

end Promises

/-! ### Tags of operators -/

namespace Tag

variable {a b : Tag} {m n : Int}

theorem Holds.add (ha : a.Holds m) (hb : b.Holds n) : (a.add b).Holds (m + n) := by
  cases a <;> cases b <;> simp_all [Tag.add, Holds]

theorem Holds.subtract (ha : a.Holds m) (hb : b.Holds n) : (a.subtract b).Holds (m - n) := by
  cases a <;> cases b <;> simp_all [Tag.subtract, Tag.add, Holds]

theorem Holds.multiply (ha : a.Holds m) (hb : b.Holds n) : (a.multiply b).Holds (m * n) := by
  cases a <;> cases b <;> simp_all [Tag.multiply, Holds]

theorem Holds.divide (ha : a.Holds m) (hb : b.Holds n) (k : Int) : (a.divide b).Holds k := by
  cases a <;> cases b <;> simp_all [Tag.divide, Holds]

theorem Holds.negate (ha : a.Holds m) : a.negate.Holds (-m) := by
  cases a <;> simp_all [Tag.negate, Holds]

theorem Holds.logicalNot (ha : a.Holds m) : a.logicalNot.Holds (decide (m = 0)).toInt := by
  cases a <;> simp_all [Tag.logicalNot, Holds]

theorem holds_unknown {tags : List Tag} (h : ∀ a ∈ tags, a ≠ .bottom) (k : Int) :
    (unknown tags).Holds k := by
  unfold unknown
  rw [if_neg fun hmem => h _ hmem rfl]
  trivial

theorem Holds.join_left (ha : a.Holds m) : (a.join b).Holds m := ha.mono (le_join_left a b)

theorem Holds.join_right (hb : b.Holds m) : (a.join b).Holds m := hb.mono (le_join_right a b)

end Tag

/-! ### Expressions and their operands -/

namespace Expr

/-- What a promise about an expression speaks of. -/
def extent (e : Expr) : Extent where
  divisors := e.tokens.tail
  touched := e.tokens

/-- What a promise about the operation at the top of an expression speaks of, before the token at
the top has its tag. -/
def innerExtent (t : TokenId) (l r : Expr) : Extent where
  pending := [t]
  divisors := l.tokens ++ r.tokens
  touched := t :: (l.tokens ++ r.tokens)

variable {t : TokenId} {l r : Expr}

theorem extent_within {e : Expr} (h : ∀ u ∈ e.tokens, u ∈ l.tokens ++ r.tokens) :
    e.extent.Within (innerExtent t l r) where
  pending _ hu := absurd hu (List.not_mem_nil)
  divisors u hu := h u (List.mem_of_mem_tail hu)
  touched u hu := List.mem_cons_of_mem _ (h u hu)

theorem extent_within_left : l.extent.Within (innerExtent t l r) :=
  extent_within fun _ hu => List.mem_append_left _ hu

theorem extent_within_right : r.extent.Within (innerExtent t l r) :=
  extent_within fun _ hu => List.mem_append_right _ hu

/-- No token occurs twice in a node. -/
structure Apart (t : TokenId) (l r : Expr) : Prop where
  left : l.tokens.Nodup
  right : r.tokens.Nodup
  top_left : t ∉ l.tokens
  top_right : t ∉ r.tokens
  left_right : ∀ u ∈ l.tokens, u ∉ r.tokens

theorem apart_of_nodup (h : (node t l r).tokens.Nodup) : Apart t l r := by
  obtain ⟨htop, hboth⟩ := List.nodup_cons.1 h
  obtain ⟨hl, hr, hlr⟩ := List.nodup_append.1 hboth
  rw [List.mem_append, not_or] at htop
  exact ⟨hl, hr, htop.1, htop.2, fun u hu hu' => hlr u hu u hu' rfl⟩

theorem not_mem_tail_of_token? {e : Expr} {u : TokenId} (h : e.tokens.Nodup)
    (hu : e.token? = some u) : u ∉ e.tokens.tail := by
  cases e with
  | absent => exact List.not_mem_nil
  | node t l r =>
    cases hu
    exact (List.nodup_cons.1 h).1

end Expr

namespace EvalContext

open DivisorCheck.Expr (innerExtent)

variable {cx : EvalContext} {t : TokenId} {l r : Expr} {st : EvalState} {σ : State}
  {o : Outcome Int}

/-- Evaluating the expression promises what it should about every outcome of running it. -/
def Sound (cx : EvalContext) (e : Expr) (role : CommaRole) : Prop :=
  ∀ st σ, Fresh e.tokens.tail st → st.store.Describes σ → ∀ o, cx.exec e role σ o →
    Promises cx.program e.extent (cx.eval e role st).2 (cx.eval e role st).1.Holds o

/-- The top of an evaluated expression bears its tag. -/
theorem get?_eval_top {e : Expr} {u : TokenId} (hu : e.token? = some u)
    (hst : st.store ≠ .unreachable) :
    (cx.eval e .operator st).2.annotations.get? u = some (cx.eval e .operator st).1 := by
  cases e with
  | absent => cases hu
  | node t l r =>
    cases hu
    have hreach : ¬ st.store.isUnreachable = true := fun h => hst (Store.isUnreachable_iff.1 h)
    rw [eval_node, if_neg (fun hsep => nomatch hsep.1), if_neg hreach]
    simp [annotate, Annotations.get?_insert]

/-! ### Operators with two operands -/

/-- Two operands in turn, and an operator that gives a value or stops because the second is zero. -/
theorem sound_binary {f : Tag → Tag → Tag} {g : Int → Int → Run Int} {role role' : CommaRole}
    (hlwf : l.WellFormed cx.program) (hrwf : r.WellFormed cx.program)
    (hright : r.token? = (cx.program.token t).right) (hapart : Expr.Apart t l r)
    (hl : cx.Sound l role) (hr : cx.Sound r role')
    (hg : ∀ A B a b σ o, A.Holds a → B.Holds b → g a b σ o →
      (∃ n, o = .value n σ ∧ (f A B).Holds n) ∨ (o = .divisionByZero t ∧ b = 0 ∧
        cx.program.isDivision t = true ∧ (cx.program.token t).right ≠ none ∧ role' = .operator))
    (hfresh : Fresh (l.tokens ++ r.tokens) st) (hσ : st.store.Describes σ)
    (h : (do let a ← cx.exec l role; let b ← cx.exec r role'; g a b : Run Int) σ o) :
    Promises cx.program (innerExtent t l r)
      (evalBinary f (cx.eval l role) (cx.eval r role') st).2
      (evalBinary f (cx.eval l role) (cx.eval r role') st).1.Holds o := by
  have hframe := (confined_eval hlwf role).frame st
  have hfreshLeft : Fresh l.tokens.tail st := fun u hu =>
    hfresh u (List.mem_append_left _ (List.mem_of_mem_tail hu))
  have hfreshRight : Fresh r.tokens.tail (cx.eval l role st).2 :=
    Fresh.of_marks (fun u hu => hfresh u (List.mem_append_right _ (List.mem_of_mem_tail hu)))
      hframe.toMarks (fun u hu hu' => hapart.left_right u hu' (List.mem_of_mem_tail hu))
  refine Promises.bind h (hl st σ hfreshLeft hσ) Expr.extent_within_left
    ((confined_eval hrwf role').frame _)
    (fun u hu => List.mem_cons_of_mem _ (List.mem_append_right _ hu))
    (fun u hu => hapart.left_right u (List.mem_of_mem_tail hu)) ?_
  intro a σ₁ _ ha hσ₁ hrest
  refine Promises.bind hrest (hr _ σ₁ hfreshRight hσ₁) Expr.extent_within_right
    (.refl cx.program [] _) (by simp) (by simp) ?_
  intro b σ₂ _ hb hσ₂ hop
  rcases hg _ _ a b σ₂ o ha hb hop with ⟨n, rfl, hn⟩ | ⟨rfl, rfl, hdiv, hsome, rfl⟩
  · exact ⟨hn, hσ₂⟩
  · obtain ⟨u, hu⟩ := Option.ne_none_iff_exists'.1 hsome
    have htop := hright.trans hu
    have hreach := (Store.Live.of_describes hσ₁).ne_unreachable
    refine ⟨.inr ⟨List.mem_singleton_self t, hdiv⟩, u, ?_, hu, _, get?_eval_top htop hreach,
      Tag.mayBeZero_of_holds_zero hb⟩
    exact List.mem_append_right _ (Expr.mem_tokens_of_token? htop)

/-- One operand, and an operator that gives a value; what follows may still mark the tokens of the
other operand. -/
theorem sound_unary {f : Tag → Tag} {g : Int → Run Int} {st' : EvalState}
    (hapart : Expr.Apart t l r) (hl : cx.Sound l .operator)
    (hg : ∀ A a σ o, A.Holds a → g a σ o → ∃ n, o = .value n σ ∧ (f A).Holds n)
    (hst' : Marks r.tokens (cx.eval l .operator st).2 st')
    (hstore : st'.store = (cx.eval l .operator st).2.store)
    (hfresh : Fresh (l.tokens ++ r.tokens) st) (hσ : st.store.Describes σ)
    (h : (do let a ← cx.exec l .operator; g a : Run Int) σ o) :
    Promises cx.program (innerExtent t l r) st' (f (cx.eval l .operator st).1).Holds o := by
  have hfreshLeft : Fresh l.tokens.tail st := fun u hu =>
    hfresh u (List.mem_append_left _ (List.mem_of_mem_tail hu))
  have hframe : Frame cx.program r.tokens (cx.eval l .operator st).2 st' :=
    ⟨hst', fun v _ => by rw [hstore]; exact Tag.le_refl _⟩
  refine Promises.bind h (hl st σ hfreshLeft hσ) Expr.extent_within_left hframe
    (fun u hu => List.mem_cons_of_mem _ (List.mem_append_right _ hu))
    (fun u hu => hapart.left_right u (List.mem_of_mem_tail hu)) ?_
  intro a σ₁ _ ha hσ₁ hop
  obtain ⟨n, rfl, hn⟩ := hg _ a σ₁ o ha hop
  refine ⟨hn, ?_⟩
  rwa [hstore]

/-! ### Operators that do not always run their operands -/

theorem holds_logical_short {isAnd : Bool} {A B : Tag} {a : Int} (ha : A.Holds a) (hB : B ≠ .bottom)
    (h : decide (a ≠ 0) ≠ isAnd) :
    (if isAnd then A.logicalAnd B else A.logicalOr B).Holds (decide (a ≠ 0)).toInt := by
  cases isAnd <;> cases A <;> cases B <;>
    simp_all [Tag.logicalAnd, Tag.logicalOr, Tag.Holds]

theorem holds_logical_both {isAnd : Bool} {A B : Tag} {a b : Int} (ha : A.Holds a) (hb : B.Holds b)
    (h : decide (a ≠ 0) = isAnd) :
    (if isAnd then A.logicalAnd B else A.logicalOr B).Holds (decide (b ≠ 0)).toInt := by
  cases isAnd <;> cases A <;> cases B <;>
    simp_all [Tag.logicalAnd, Tag.logicalOr, Tag.Holds]

theorem sound_shortCircuit (isAnd : Bool) (hlwf : l.WellFormed cx.program)
    (hrwf : r.WellFormed cx.program) (hapart : Expr.Apart t l r)
    (hl : cx.Sound l .operator) (hr : cx.Sound r .operator)
    (hfresh : Fresh (l.tokens ++ r.tokens) st) (hσ : st.store.Describes σ)
    (h : execShortCircuit isAnd (cx.exec l .operator) (cx.exec r .operator) σ o) :
    Promises cx.program (innerExtent t l r)
      (cx.evalShortCircuit isAnd l (cx.eval l .operator) (cx.eval r .operator) st).2
      (cx.evalShortCircuit isAnd l (cx.eval l .operator) (cx.eval r .operator) st).1.Holds o := by
  rw [evalShortCircuit_eq]
  extract_lets a b
  have hframe : Frame cx.program l.tokens st a.2 := (confined_eval hlwf _).frame st
  have hfreshLeft : Fresh l.tokens.tail st := fun u hu =>
    hfresh u (List.mem_append_left _ (List.mem_of_mem_tail hu))
  have hfreshRight : Fresh r.tokens.tail a.2 :=
    Fresh.of_marks (fun u hu => hfresh u (List.mem_append_right _ (List.mem_of_mem_tail hu)))
      hframe.toMarks (fun u hu hu' => hapart.left_right u hu' (List.mem_of_mem_tail hu))
  have hb : Frame cx.program r.tokens (a.2.on (l.narrowBy _ _ isAnd a.2.store)) b.2 :=
    (confined_eval hrwf _).frame _
  have hrest : Frame cx.program r.tokens a.2 (b.2.on (a.2.store.join b.2.store)) := by
    refine ⟨hb.toMarks.on a.2.store _, fun v _ => ?_⟩
    rw [EvalState.on_store, Store.get_join]
    exact Tag.le_join_left _ _
  refine Promises.bind h (hl st σ hfreshLeft hσ) Expr.extent_within_left hrest
    (fun u hu => List.mem_cons_of_mem _ (List.mem_append_right _ hu))
    (fun u hu => hapart.left_right u (List.mem_of_mem_tail hu)) ?_
  intro x σ₁ hrunLeft hx hσ₁ hcont
  by_cases hrun : decide (x ≠ 0) = isAnd
  · rw [if_pos hrun] at hcont
    -- The second operand runs where the first one has decided nothing.
    have hnarrowed : (l.narrowBy cx.program cx.escaped isAnd a.2.store).Describes σ₁ := by
      intro v
      rw [← hrun]
      exact Expr.narrowBy_sound hlwf hrunLeft (hσ₁ v)
    have hjoin : Frame cx.program [] b.2 (b.2.on (a.2.store.join b.2.store)) := by
      refine .on _ [] _ fun v _ => ?_
      rw [Store.get_join]
      exact Tag.le_join_right _ _
    refine Promises.bind hcont (hr (a.2.on (l.narrowBy cx.program cx.escaped isAnd a.2.store)) σ₁
      hfreshRight hnarrowed) Expr.extent_within_right hjoin (by simp) (by simp) ?_
    intro y σ₂ _ hy hσ₂ hpure
    cases hpure
    exact ⟨holds_logical_both hx hy hrun, hσ₂.mono fun v => hjoin.store v (by simp [Program.Spares])⟩
  · rw [if_neg hrun] at hcont
    cases hcont
    have hlive := Store.Live.of_describes hσ₁
    have hB : b.1 ≠ .bottom := ((confined_eval hrwf _).live (a.2.on _)
      (Expr.narrowBy_ne_bottom hlive isAnd)).1
    refine ⟨holds_logical_short hx hB hrun, hσ₁.mono fun v => ?_⟩
    rw [EvalState.on_store, Store.get_join]
    exact Tag.le_join_left _ _

/-- `c ? a : b`: one of the arms runs, on a store that the condition has narrowed accordingly, and
the join covers both. -/
theorem sound_conditional {colon : TokenId} {a b : Expr} (hlwf : l.WellFormed cx.program)
    (hrwf : (Expr.node colon a b).WellFormed cx.program)
    (hapart : Expr.Apart t l (.node colon a b)) (hl : cx.Sound l .operator)
    (ha : cx.Sound a .operator) (hb : cx.Sound b .operator)
    (hfresh : Fresh (l.tokens ++ (Expr.node colon a b).tokens) st) (hσ : st.store.Describes σ)
    (h : execConditional (cx.exec l .operator) (cx.exec a .operator) (cx.exec b .operator) σ o) :
    Promises cx.program (innerExtent t l (.node colon a b))
      (cx.evalConditional l colon (cx.eval l .operator) (cx.eval a .operator)
        (cx.eval b .operator) st).2
      (cx.evalConditional l colon (cx.eval l .operator) (cx.eval a .operator)
        (cx.eval b .operator) st).1.Holds o := by
  have hinner := Expr.apart_of_nodup hapart.right
  obtain ⟨-, -, -, hawf, hbwf⟩ := hrwf
  have hatokens : ∀ u ∈ a.tokens, u ∈ (Expr.node colon a b).tokens := fun u hu =>
    List.mem_cons_of_mem _ (List.mem_append_left _ hu)
  have hbtokens : ∀ u ∈ b.tokens, u ∈ (Expr.node colon a b).tokens := fun u hu =>
    List.mem_cons_of_mem _ (List.mem_append_right _ hu)
  have hcond := (confined_eval hlwf .operator).frame st
  have harms : Confined cx.program (Expr.node colon a b).tokens
      (cx.evalArms l colon (cx.eval a .operator) (cx.eval b .operator)) :=
    .arms l (List.mem_cons_self ..) ((confined_eval hawf _).mono hatokens)
      ((confined_eval hbwf _).mono hbtokens)
  have hfreshLeft : Fresh l.tokens.tail st := fun u hu =>
    hfresh u (List.mem_append_left _ (List.mem_of_mem_tail hu))
  rw [evalConditional_eq]
  refine Promises.bind h (hl st σ hfreshLeft hσ) Expr.extent_within_left (harms.frame _)
    (fun u hu => List.mem_cons_of_mem _ (List.mem_append_right _ hu))
    (fun u hu => hapart.left_right u (List.mem_of_mem_tail hu)) ?_
  intro c σ₁ hrun hc hσ₁ harm
  have hfreshArms : Fresh (Expr.node colon a b).tokens (cx.eval l .operator st).2 :=
    Fresh.of_marks (fun u hu => hfresh u (List.mem_append_right _ hu)) hcond.toMarks
      fun u hu hu' => hapart.left_right u hu' hu
  have hnarrowed : (l.narrowBy cx.program cx.escaped (decide (c ≠ 0))
      (cx.eval l .operator st).2.store).Describes σ₁ :=
    fun v => Expr.narrowBy_sound hlwf hrun (hσ₁ v)
  generalize (cx.eval l .operator st).2 = st₁ at hfreshArms hnarrowed
  unfold evalArms
  extract_lets x y
  have hx : Frame cx.program a.tokens (st₁.on _) x.2 := (confined_eval hawf _).frame _
  have hy : Frame cx.program b.tokens (x.2.on _) y.2 := (confined_eval hbwf _).frame _
  have hlast : Marks [colon] y.2
      (cx.annotate colon (x.1.join y.1) (y.2.on (x.2.store.join y.2.store))) :=
    ((Marks.refl [colon] y.2).on y.2.store _).trans
      (.annotate cx (List.mem_singleton_self colon) _ _)
  by_cases hzero : c = 0
  · rw [if_neg (not_not.2 hzero)] at harm
    rw [decide_eq_false (not_not.2 hzero)] at hnarrowed
    have hfreshElse : Fresh b.tokens.tail x.2 :=
      Fresh.of_marks (fun u hu => hfreshArms u (hbtokens u (List.mem_of_mem_tail hu)))
        (hx.toMarks.on st₁.store x.2.store)
        fun u hu hu' => hinner.left_right u hu' (List.mem_of_mem_tail hu)
    have helse := hb (x.2.on (l.narrowBy cx.program cx.escaped false st₁.store)) σ₁ hfreshElse
      hnarrowed o harm
    refine Promises.mono helse
      (Expr.extent_within fun u hu => List.mem_append_right _ (hbtokens u hu)) hlast ?_ ?_ ?_
    · intro u hu hcolon
      rw [List.mem_singleton.1 hcolon] at hu
      exact hinner.top_right (List.mem_of_mem_tail hu)
    · intro v
      rw [annotate_store, EvalState.on_store, Store.get_join]
      exact Tag.le_join_right _ _
    · exact fun n hn => hn.join_right
  · rw [if_pos hzero] at harm
    rw [decide_eq_true hzero] at hnarrowed
    have hfreshThen : Fresh a.tokens.tail st₁ := fun u hu =>
      hfreshArms u (hatokens u (List.mem_of_mem_tail hu))
    have hmarks : Marks (colon :: b.tokens) x.2
        (cx.annotate colon (x.1.join y.1) (y.2.on (x.2.store.join y.2.store))) := by
      refine Marks.trans ?_ (hlast.mono (by simp))
      exact (hy.toMarks.on x.2.store y.2.store).mono fun u hu => List.mem_cons_of_mem _ hu
    have hthen := ha (st₁.on (l.narrowBy cx.program cx.escaped true st₁.store)) σ₁ hfreshThen
      hnarrowed o harm
    refine Promises.mono hthen
      (Expr.extent_within fun u hu => List.mem_append_right _ (hatokens u hu)) hmarks ?_ ?_ ?_
    · intro u hu hlater
      rcases List.mem_cons.1 hlater with rfl | hlater
      · exact hinner.top_left (List.mem_of_mem_tail hu)
      · exact hinner.left_right u (List.mem_of_mem_tail hu) hlater
    · intro v
      rw [annotate_store, EvalState.on_store, Store.get_join]
      exact Tag.le_join_left _ _
    · exact fun n hn => hn.join_left

/-! ### Writes -/

theorem describes_set {s : Store} (hs : s.Describes σ) {tag : Tag} {n : Int} (hn : tag.Holds n)
    (v : VarId) : (s.set v tag).Describes (σ.update v n) := by
  intro w
  rw [Store.get_set (Store.Live.of_describes hs).ne_unreachable, State.update]
  split_ifs
  · exact hn
  · exact hs w

theorem describes_havoc {s : Store} (hs : s.Describes σ) {vs : List VarId} {σ' : State}
    (hσ' : ∀ v, v ∉ vs → σ' v = σ v) : (s.havoc vs).Describes σ' := by
  intro w
  rw [Store.get_havoc (Store.Live.of_describes hs).ne_unreachable]
  split_ifs with hw
  · trivial
  · rw [hσ' w hw]
    exact hs w

/-- After the evaluation of a target that is not tracked. -/
def settle (cx : EvalContext) (u : TokenId) (st : EvalState) : EvalState :=
  if cx.program.namesPlainly u then st else cx.havocEscaped st

theorem frame_settle (ts : List TokenId) (u : TokenId) (st : EvalState) :
    Frame cx.program ts st (cx.settle u st) := by
  unfold settle
  split
  · exact .refl _ ts st
  · exact .on _ ts st fun v _ => Store.le_havoc _ _ v

theorem describes_settle {u : TokenId} {o : Outcome Unit} (hσ : st.store.Describes σ)
    (h : (if cx.program.namesPlainly u then pure () else Run.change cx.escaped : Run Unit) σ o) :
    ∃ σ', o = .value () σ' ∧ (cx.settle u st).store.Describes σ' := by
  unfold settle
  split_ifs at h ⊢
  · exact ⟨σ, h, hσ⟩
  · obtain ⟨σ', hσ', rfl⟩ := h
    exact ⟨σ', rfl, describes_havoc hσ hσ'⟩

theorem write_tracked {v : VarId} {f : EvalStep} {tag : Tag}
    (hv : l.trackedVar? cx.program = some v) :
    cx.write l f tag st = cx.annotateTop l tag (st.on (st.store.set v tag)) := by
  unfold write
  rw [hv]
  rfl

theorem write_untracked {u : TokenId} {f : EvalStep} {tag : Tag}
    (hv : l.trackedVar? cx.program = none) (hu : l.token? = some u) :
    cx.write l f tag st =
      cx.settle u (if st.annotations.contains u then st else (f st).2) := by
  unfold write
  rw [hv, hu]
  rfl

theorem execWrite_tracked {v : VarId} {m : Run Int} {n : Int}
    (hv : l.trackedVar? cx.program = some v) : cx.execWrite l m n = Run.assign v n := by
  unfold execWrite
  rw [hv]

theorem execWrite_untracked {u : TokenId} {m : Run Int} {n : Int}
    (hv : l.trackedVar? cx.program = none) (hu : l.token? = some u) :
    cx.execWrite l m n = (do
      let _ ← m
      if cx.program.namesPlainly u then pure () else Run.change cx.escaped) := by
  unfold execWrite
  rw [hv, hu]

/-- A write to a target that has been evaluated marks at most its top. -/
theorem frame_write_evaluated (hwf : (Expr.node t l r).WellFormed cx.program)
    (hkind : (cx.program.isAssignment t || cx.program.isStep t) = true) {u : TokenId}
    (hu : l.token? = some u) (hdone : st.annotations.contains u = true) (f : EvalStep) (tag : Tag) :
    Frame cx.program [t, u] st (cx.write l f tag st) := by
  cases hv : l.trackedVar? cx.program with
  | some v =>
    rw [write_tracked hv]
    have htop : ∀ st', cx.annotateTop l tag st' = cx.annotate u tag st' := fun st' => by
      rw [annotateTop, hu]
    rw [htop]
    refine (Frame.on _ _ st fun w hw => ?_).trans (.annotate cx (by simp) tag _)
    refine Store.le_set_of_ne _ (fun hvw => hw t (by simp) ?_) tag
    rw [hwf.assignsAt hkind, hv, hvw]
  | none =>
    rw [write_untracked hv hu, if_pos hdone]
    exact frame_settle _ u st

/-- What a write to an evaluated target promises. -/
theorem promises_write_evaluated {S : Extent} {u : TokenId} (hu : l.token? = some u)
    (hdone : st.annotations.contains u = true) (hσ : st.store.Describes σ) {tag : Tag} {n old : Int}
    (hn : tag.Holds n) {f : EvalStep} {o : Outcome Unit} (h : cx.execWrite l (pure old) n σ o) :
    Promises cx.program S (cx.write l f tag st) (fun _ => True) o := by
  cases hv : l.trackedVar? cx.program with
  | some v =>
    rw [execWrite_tracked hv] at h
    rw [write_tracked hv]
    cases h
    refine ⟨trivial, ?_⟩
    rw [annotateTop_store]
    exact describes_set hσ hn v
  | none =>
    rw [execWrite_untracked hv hu] at h
    rw [write_untracked hv hu, if_pos hdone]
    rcases h with ⟨hpure, hrest⟩ | hpure | hpure <;> cases hpure
    obtain ⟨σ', rfl, hσ'⟩ := describes_settle hσ hrest
    exact ⟨trivial, hσ'⟩

/-- What a write to a target that is evaluated last promises. -/
theorem promises_write_fresh {u : TokenId} (hl : cx.Sound l .operator) (hu : l.token? = some u)
    (hfresh : Fresh l.tokens st) (hσ : st.store.Describes σ) {tag : Tag} {n : Int}
    (hn : tag.Holds n) {o : Outcome Unit} (h : cx.execWrite l (cx.exec l .operator) n σ o) :
    Promises cx.program (innerExtent t l r) (cx.write l (cx.eval l .operator) tag st)
      (fun _ => True) o := by
  cases hv : l.trackedVar? cx.program with
  | some v =>
    rw [execWrite_tracked hv] at h
    rw [write_tracked hv]
    cases h
    refine ⟨trivial, ?_⟩
    rw [annotateTop_store]
    exact describes_set hσ hn v
  | none =>
    have hnew : st.annotations.contains u = false := by
      simp [Annotations.contains, hfresh u (Expr.mem_tokens_of_token? hu)]
    rw [execWrite_untracked hv hu] at h
    rw [write_untracked hv hu, hnew, if_neg Bool.false_ne_true]
    refine Promises.bind h (hl st σ (fun w hw => hfresh w (List.mem_of_mem_tail hw)) hσ)
      Expr.extent_within_left (frame_settle [] u _) (by simp) (by simp) ?_
    intro a σ₁ _ _ hσ₁ hrest
    obtain ⟨σ', rfl, hσ'⟩ := describes_settle hσ₁ hrest
    exact ⟨trivial, hσ'⟩

/-! ### Operators that write -/

/-- The operator of a token with two operands gives a value that its tag covers, or stops because
the second operand is zero. -/
theorem outcome_of_execBinary {op : String} {A B : Tag} {a b : Int} (ha : A.Holds a)
    (hb : B.Holds b) (h : execBinary t op a b σ o) :
    (∃ n, o = .value n σ ∧ (binaryTag op A B).Holds n) ∨
      (o = .divisionByZero t ∧ b = 0 ∧ (op = "/" ∨ op = "%")) := by
  have hunknown : ∀ n, (Tag.unknown [A, B]).Holds n := fun n =>
    Tag.holds_unknown (by simp [Tag.ne_bottom_of_holds ha, Tag.ne_bottom_of_holds hb]) n
  unfold execBinary at h
  split at h
  · exact .inl ⟨_, h, ha.add hb⟩
  · exact .inl ⟨_, h, ha.subtract hb⟩
  · exact .inl ⟨_, h, ha.multiply hb⟩
  · split_ifs at h with hzero
    · exact .inr ⟨h, hzero, .inl rfl⟩
    · exact .inl ⟨_, h, ha.divide hb _⟩
  · split_ifs at h with hzero
    · exact .inr ⟨h, hzero, .inr rfl⟩
    · exact .inl ⟨_, h, ha.divide hb _⟩
  · exact .inl ⟨_, h, hunknown _⟩
  · exact .inl ⟨_, h, hunknown _⟩
  · exact .inl ⟨_, h, hunknown _⟩
  · exact .inl ⟨_, h, hunknown _⟩
  · exact .inl ⟨_, h, hunknown _⟩
  · exact .inl ⟨_, h, hunknown _⟩
  · obtain ⟨n, rfl⟩ := h
    refine .inl ⟨n, rfl, ?_⟩
    unfold binaryTag
    split
    · rename_i f hf
      unfold Tag.binary? at hf
      split at hf <;> simp_all
    · exact hunknown n

/-- A write, and then a value. -/
theorem promises_write_then {S : Extent} {m : Run Unit} {st' : EvalState} {tag : Tag} {k : Int}
    (hm : ∀ o, m σ o → Promises cx.program S st' (fun _ => True) o) (hk : tag.Holds k)
    (h : (do m; pure k : Run Int) σ o) : Promises cx.program S st' tag.Holds o := by
  refine Promises.bind h hm (.refl S) (.refl _ [] st') (by simp) (by simp) ?_
  intro _ σ₁ _ _ hσ₁ hpure
  cases hpure
  exact ⟨hk, hσ₁⟩

theorem contains_of_get? {a : Annotations} {u : TokenId} {tag : Tag} (h : a.get? u = some tag) :
    a.contains u = true := by
  simp [Annotations.contains, h]

theorem sound_increment (hwf : (Expr.node t l r).WellFormed cx.program)
    (hstep : cx.program.isStep t = true) (hapart : Expr.Apart t l r) {u : TokenId}
    (hu : l.token? = some u) (hl : cx.Sound l .operator)
    (hfresh : Fresh (l.tokens ++ r.tokens) st) (hσ : st.store.Describes σ)
    (h : cx.execIncrement t l (cx.exec l .operator) σ o) :
    Promises cx.program (innerExtent t l r)
      (cx.evalIncrement (cx.program.isPostfix t) l (cx.eval l .operator) st).2
      (cx.evalIncrement (cx.program.isPostfix t) l (cx.eval l .operator) st).1.Holds o := by
  have hfreshLeft : Fresh l.tokens.tail st := fun u hu =>
    hfresh u (List.mem_append_left _ (List.mem_of_mem_tail hu))
  have hdone : (cx.eval l .operator st).2.annotations.contains u = true :=
    contains_of_get? (get?_eval_top hu (Store.Live.of_describes hσ).ne_unreachable)
  have humem : u ∈ l.tokens := Expr.mem_tokens_of_token? hu
  unfold evalIncrement
  refine Promises.bind h (hl st σ hfreshLeft hσ) Expr.extent_within_left
    (frame_write_evaluated hwf (by simp [hstep]) hu hdone _ _) ?_ ?_ ?_
  · intro w hw
    rcases List.mem_pair.1 hw with rfl | rfl
    · exact List.mem_cons_self ..
    · exact List.mem_cons_of_mem _ (List.mem_append_left _ humem)
  · intro w hw hw'
    rcases List.mem_pair.1 hw' with rfl | rfl
    · exact hapart.top_left (List.mem_of_mem_tail hw)
    · exact Expr.not_mem_tail_of_token? hapart.left hu hw
  · intro old σ₁ _ hold hσ₁ hrest
    have hnew : ((cx.eval l .operator st).1.add .nonZero).Holds
        (if cx.program.text t = "++" then old + 1 else old - 1) := by
      split_ifs
      · exact hold.add (b := .nonZero) (by decide : (1 : Int) ≠ 0)
      · exact hold.subtract (b := .nonZero) (by decide : (1 : Int) ≠ 0)
    generalize (if cx.program.text t = "++" then old + 1 else old - 1) = new at hnew hrest
    refine promises_write_then (fun o => promises_write_evaluated hu hdone hσ₁ hnew) ?_ hrest
    split_ifs
    · exact hold
    · exact hnew

/-- The compound assignments that divide are divisions. -/
theorem isDivision_of_compound (hassign : cx.program.isAssignment t = true)
    (hright : (cx.program.token t).right ≠ none)
    (hop : compoundOperator (cx.program.text t) = "/" ∨
      compoundOperator (cx.program.text t) = "%") : cx.program.isDivision t = true := by
  have hmem : cx.program.text t ∈ Program.assignmentOperators := by
    simp only [Program.isAssignment, Bool.and_eq_true, decide_eq_true_eq] at hassign
    exact hassign.1
  have hdivides : ∀ op ∈ Program.assignmentOperators,
      compoundOperator op = "/" ∨ compoundOperator op = "%" →
        op ∉ Program.divisionOperators ∧ op ∈ Program.divisionAssignments := by decide
  obtain ⟨hnot, hdiv⟩ := hdivides _ hmem hop
  unfold Program.isDivision
  rw [if_neg hnot]
  simpa [hdiv, Option.isSome_iff_ne_none] using hright

section Assignment

variable {u : TokenId} (hwf : (Expr.node t l r).WellFormed cx.program)
  (hassign : cx.program.isAssignment t = true) (hapart : Expr.Apart t l r)
  (hu : l.token? = some u) (hl : cx.Sound l .operator) (hr : cx.Sound r .operator)
  (hfresh : Fresh (l.tokens ++ r.tokens) st) (hσ : st.store.Describes σ)
  (h : cx.execAssignment t l (cx.exec l .operator) (cx.exec r .operator) σ o)

include hwf hassign hapart hu hl hr hfresh hσ h

theorem sound_plainAssignment (hplain : cx.program.text t = "=") :
    Promises cx.program (innerExtent t l r)
      (cx.evalAssignment (cx.program.text t) l (cx.eval l .operator) (cx.eval r .operator) st).2
      (cx.evalAssignment (cx.program.text t) l (cx.eval l .operator)
        (cx.eval r .operator) st).1.Holds o := by
  obtain ⟨-, -, -, hlwf, hrwf⟩ := id hwf
  have hkind : (cx.program.isAssignment t || cx.program.isStep t) = true := by simp [hassign]
  have hfreshLeft : Fresh l.tokens st := fun w hw => hfresh w (List.mem_append_left _ hw)
  have hfreshRight : Fresh r.tokens st := fun w hw => hfresh w (List.mem_append_right _ hw)
  unfold execAssignment at h
  unfold evalAssignment
  -- The value comes first, then the target.
  simp only [hplain, if_true] at h ⊢
  have hvalue := (confined_eval hrwf .operator).frame st
  have hfreshLater : Fresh l.tokens (cx.eval r .operator st).2 :=
    hfreshLeft.of_marks hvalue.toMarks hapart.left_right
  have hwrite : Frame cx.program (t :: l.tokens) (cx.eval r .operator st).2
      (cx.write l (cx.eval l .operator) (cx.eval r .operator st).1 (cx.eval r .operator st).2) :=
    write_frame (fun w hw => List.mem_cons_of_mem _ hw)
      (fun v hv => ⟨t, List.mem_cons_self .., by rw [hwf.assignsAt hkind, hv]⟩)
      ((confined_eval hlwf .operator).mono fun w hw => List.mem_cons_of_mem _ hw) _ _
  refine Promises.bind h (hr st σ (fun w hw => hfreshRight w (List.mem_of_mem_tail hw)) hσ)
    Expr.extent_within_right hwrite ?_ ?_ ?_
  · intro w hw
    rcases List.mem_cons.1 hw with rfl | hw
    · exact List.mem_cons_self ..
    · exact List.mem_cons_of_mem _ (List.mem_append_left _ hw)
  · intro w hw hw'
    rcases List.mem_cons.1 hw' with rfl | hw'
    · exact hapart.top_right (List.mem_of_mem_tail hw)
    · exact hapart.left_right w hw' (List.mem_of_mem_tail hw)
  · intro n σ₁ _ hn hσ₁ hrest
    exact promises_write_then
      (fun o => promises_write_fresh hl hu hfreshLater hσ₁ hn) hn hrest

theorem sound_compoundAssignment (hplain : cx.program.text t ≠ "=") :
    Promises cx.program (innerExtent t l r)
      (cx.evalAssignment (cx.program.text t) l (cx.eval l .operator) (cx.eval r .operator) st).2
      (cx.evalAssignment (cx.program.text t) l (cx.eval l .operator)
        (cx.eval r .operator) st).1.Holds o := by
  obtain ⟨ht, -, hright, hlwf, hrwf⟩ := id hwf
  have humem : u ∈ l.tokens := Expr.mem_tokens_of_token? hu
  have hkind : (cx.program.isAssignment t || cx.program.isStep t) = true := by simp [hassign]
  have hfreshLeft : Fresh l.tokens st := fun w hw => hfresh w (List.mem_append_left _ hw)
  have hfreshRight : Fresh r.tokens st := fun w hw => hfresh w (List.mem_append_right _ hw)
  unfold execAssignment at h
  unfold evalAssignment
  -- The target comes first, and is only marked once more when it is written.
  simp only [hplain, if_false] at h ⊢
  have hleft := (confined_eval hlwf .operator).frame st
  generalize hst₁ : cx.eval l .operator st = x at hleft ⊢
  have hvalue := (confined_eval hrwf .operator).frame x.2
  have hfreshValue : Fresh r.tokens x.2 :=
    hfreshRight.of_marks hleft.toMarks fun w hw hw' => hapart.left_right w hw' hw
  have hdone : x.2.annotations.get? u = some x.1 := by
    rw [← hst₁]
    exact get?_eval_top hu (Store.Live.of_describes hσ).ne_unreachable
  generalize hst₂ : cx.eval r .operator x.2 = y at hvalue ⊢
  have hdone' : y.2.annotations.contains u = true := by
    rw [← hvalue.annotations u (hapart.left_right u humem)] at hdone
    exact contains_of_get? hdone
  have hwrite := fun tag => frame_write_evaluated hwf hkind hu hdone' (cx.eval l .operator) tag
  have hpair : ∀ w ∈ [t, u], w ∈ (innerExtent t l r).touched := by
    intro w hw
    rcases List.mem_pair.1 hw with rfl | rfl
    · exact List.mem_cons_self ..
    · exact List.mem_cons_of_mem _ (List.mem_append_left _ humem)
  have hlater : ∀ w ∈ r.tokens ++ [t, u], w ∈ (innerExtent t l r).touched := by
    intro w hw
    rcases List.mem_append.1 hw with hw | hw
    · exact List.mem_cons_of_mem _ (List.mem_append_right _ hw)
    · exact hpair w hw
  have hpromise := hl st σ (fun w hw => hfreshLeft w (List.mem_of_mem_tail hw)) hσ
  rw [hst₁] at hpromise
  refine Promises.bind h hpromise Expr.extent_within_left
    ((hvalue.mono fun w hw => List.mem_append_left _ hw).trans
      ((hwrite _).mono fun w hw => List.mem_append_right _ hw)) hlater ?_ ?_
  · intro w hw hw'
    have hwl := List.mem_of_mem_tail hw
    rcases List.mem_append.1 hw' with hw' | hw'
    · exact hapart.left_right w hwl hw'
    · rcases List.mem_pair.1 hw' with rfl | rfl
      · exact hapart.top_left hwl
      · exact Expr.not_mem_tail_of_token? hapart.left hu hw
  intro a σ₁ _ ha hσ₁ hrest
  have hpromise := hr x.2 σ₁ (fun w hw => hfreshValue w (List.mem_of_mem_tail hw)) hσ₁
  rw [hst₂] at hpromise
  have hrightApart : ∀ w ∈ r.tokens, w ∉ [t, u] := by
    intro w hw hw'
    rcases List.mem_pair.1 hw' with rfl | rfl
    · exact hapart.top_right hw
    · exact hapart.left_right w humem hw
  refine Promises.bind hrest hpromise Expr.extent_within_right (hwrite _) hpair
    (fun w hw => hrightApart w (List.mem_of_mem_tail hw)) ?_
  intro b σ₂ _ hb hσ₂ hop
  rcases hop with ⟨hrun, hrest⟩ | hrun | hrun
  · rcases outcome_of_execBinary ha hb hrun with ⟨n, hn, htag⟩ | ⟨hn, -, -⟩ <;> cases hn
    exact promises_write_then
      (fun o => promises_write_evaluated hu hdone' hσ₂ htag) htag hrest
  · rcases outcome_of_execBinary ha hb hrun with ⟨n, hn, htag⟩ | ⟨hn, hzero, hop⟩ <;> cases hn
    subst hzero
    obtain ⟨w, hw⟩ := Option.ne_none_iff_exists'.1 (ht.assignment hassign)
    have htop := hright.trans hw
    have hwmem : w ∈ r.tokens := Expr.mem_tokens_of_token? htop
    have htagged : y.2.annotations.get? w = some y.1 := by
      rw [← hst₂]
      exact get?_eval_top htop (Store.Live.of_describes hσ₁).ne_unreachable
    refine ⟨.inr ⟨List.mem_singleton_self t, isDivision_of_compound hassign (ht.assignment hassign)
      hop⟩, w, List.mem_append_right _ hwmem, hw, y.1, ?_, Tag.mayBeZero_of_holds_zero hb⟩
    rw [(hwrite _).annotations w (hrightApart w hwmem)]
    exact htagged
  · rcases outcome_of_execBinary ha hb hrun with ⟨n, hn, htag⟩ | ⟨hn, -, -⟩ <;> cases hn

theorem sound_assignment :
    Promises cx.program (innerExtent t l r)
      (cx.evalAssignment (cx.program.text t) l (cx.eval l .operator) (cx.eval r .operator) st).2
      (cx.evalAssignment (cx.program.text t) l (cx.eval l .operator)
        (cx.eval r .operator) st).1.Holds o := by
  by_cases hplain : cx.program.text t = "="
  · exact sound_plainAssignment hwf hassign hapart hu hl hr hfresh hσ h hplain
  · exact sound_compoundAssignment hwf hassign hapart hu hl hr hfresh hσ h hplain

end Assignment

/-- A call runs its callee and its arguments, and may then change what escapes and what it has
references to. -/
theorem sound_call (hlwf : l.WellFormed cx.program) (hrwf : r.WellFormed cx.program)
    (hapart : Expr.Apart t l r) {u : TokenId} (hu : l.token? = some u)
    (hl : cx.Sound l .operator) (hr : cx.Sound r .separator)
    (hfresh : Fresh (l.tokens ++ r.tokens) st) (hσ : st.store.Describes σ) (call : Expr)
    (h : cx.execCall call l (cx.exec l .operator) (cx.exec r .separator) σ o) :
    Promises cx.program (innerExtent t l r)
      (cx.evalCall call l (cx.eval l .operator) (cx.eval r .separator) st).2
      (cx.evalCall call l (cx.eval l .operator) (cx.eval r .separator) st).1.Holds o := by
  have hmark : Marks [u] st (cx.annotateTop l .top st) := by
    rw [annotateTop, hu]
    exact .annotate cx (List.mem_singleton_self u) .top st
  have hfreshCallee : Fresh l.tokens.tail (cx.annotateTop l .top st) := by
    refine Fresh.of_marks (fun w hw => hfresh w (List.mem_append_left _ (List.mem_of_mem_tail hw)))
      hmark fun w hw hwu => ?_
    rw [List.mem_singleton.1 hwu] at hw
    exact Expr.not_mem_tail_of_token? hapart.left hu hw
  have hσ' : (cx.annotateTop l .top st).store.Describes σ := by rwa [annotateTop_store]
  unfold evalCall
  extract_lets st₁ st₂
  have hframe : Frame cx.program l.tokens st₁ st₂ := by
    unfold st₂
    split
    · exact .refl _ _ _
    · exact (confined_eval hlwf .operator).frame st₁
  have hcallee : ∀ o, (if l.isLeaf then Run.any else cx.exec l .operator : Run Int) σ o →
      Promises cx.program l.extent st₂ (fun _ => True) o := by
    intro o hrun
    unfold st₂
    split_ifs at hrun ⊢
    · obtain ⟨n, rfl⟩ := hrun
      exact ⟨trivial, hσ'⟩
    · exact (hl st₁ σ hfreshCallee hσ' o hrun).weaken (.refl _) fun _ _ => trivial
  have hfreshArgs : Fresh r.tokens.tail st₂ := by
    refine Fresh.of_marks (fun w hw => hfresh w (List.mem_append_right _ (List.mem_of_mem_tail hw)))
      ((hmark.mono ?_).trans hframe.toMarks) fun w hw hwl =>
        hapart.left_right w hwl (List.mem_of_mem_tail hw)
    intro w hw
    rw [List.mem_singleton.1 hw]
    exact Expr.mem_tokens_of_token? hu
  have hhavoc (ts : List TokenId) (st' : EvalState) : Frame cx.program ts st' ((cx.havocEscaped st').on
      ((cx.havocEscaped st').store.havoc (call.lentVars cx.program))) :=
    .on _ ts st' fun v _ => Tag.le_trans (Store.le_havoc _ _ v) (Store.le_havoc _ _ v)
  refine Promises.bind h hcallee Expr.extent_within_left
    (((confined_eval hrwf .separator).frame st₂).trans (hhavoc _ _))
    (fun w hw => List.mem_cons_of_mem _ (List.mem_append_right _ hw))
    (fun w hw => hapart.left_right w (List.mem_of_mem_tail hw)) ?_
  intro _ σ₁ _ _ hσ₁ hrest
  refine Promises.bind hrest (hr st₂ σ₁ hfreshArgs hσ₁) Expr.extent_within_right (hhavoc [] _)
    (by simp) (by simp) ?_
  intro a σ₂ _ ha hσ₂ hrest
  obtain ⟨n, σ₃, hσ₃, rfl⟩ := Run.change_any_iff.1 hrest
  refine ⟨Tag.holds_unknown (by simpa using Tag.ne_bottom_of_holds ha) n, ?_⟩
  -- Two rounds of forgetting, one after the other.
  let σ' : State := fun v => if v ∈ cx.escaped then σ₃ v else σ₂ v
  have hσ' : (cx.havocEscaped (cx.eval r .separator st₂).2).store.Describes σ' :=
    describes_havoc hσ₂ fun v hv => if_neg hv
  refine describes_havoc hσ' ?_
  intro v hv
  by_cases hesc : v ∈ cx.escaped
  · exact (if_pos hesc).symm
  · rw [hσ₃ v (by simp [hesc, hv])]
    exact (if_neg hesc).symm

/-! ### Expressions -/

theorem outcome_of_execLeaf (hσ : st.store.Describes σ) (h : cx.execLeaf t σ o) :
    ∃ n, o = .value n σ ∧ (cx.leafTag t st).Holds n := by
  unfold execLeaf Program.literalValue? at h
  unfold leafTag Program.literalTag?
  cases hint : cx.program.integerLiteral? t with
  | some n =>
    simp only [hint] at h ⊢
    exact ⟨n, h, Tag.holds_ofInt n⟩
  | none =>
    cases hbool : cx.program.booleanLiteral? t with
    | some b =>
      simp only [hint, hbool, Option.map_some] at h ⊢
      refine ⟨b.toInt, h, ?_⟩
      cases b <;> simp [Tag.Holds]
    | none =>
      simp only [hint, hbool, Option.map_none] at h ⊢
      cases hvar : cx.program.trackedVar? t with
      | some v =>
        rw [hvar] at h
        exact ⟨σ v, h, hσ v⟩
      | none =>
        rw [hvar] at h
        obtain ⟨n, rfl⟩ := h
        exact ⟨n, rfl, trivial⟩

theorem outcome_of_execUnary {op : String} {A : Tag} {a : Int} (ha : A.Holds a)
    (h : execUnary op a σ o) : ∃ n, o = .value n σ ∧ (unaryTag op A).Holds n := by
  have hunknown : ∀ n, (Tag.unknown [A]).Holds n :=
    Tag.holds_unknown (by simpa using Tag.ne_bottom_of_holds ha)
  unfold execUnary at h
  unfold unaryTag
  by_cases hminus : op = "-"
  · rw [if_pos hminus] at h
    exact ⟨-a, h, by rw [if_pos (.inl hminus)]; exact ha.negate⟩
  rw [if_neg hminus] at h
  by_cases hplus : op = "+"
  · rw [if_pos hplus] at h
    exact ⟨a, h, by rw [if_pos (.inr hplus)]; exact ha⟩
  rw [if_neg hplus] at h
  rw [if_neg (by simp [hminus, hplus])]
  by_cases hnot : op = "!"
  · rw [if_pos hnot] at h ⊢
    exact ⟨_, h, ha.logicalNot⟩
  · rw [if_neg hnot] at h ⊢
    obtain ⟨n, rfl⟩ := h
    exact ⟨n, rfl, hunknown n⟩

/-- The operation at the top of an expression, if that is so for the operands. -/
theorem sound_operation (hwf : (Expr.node t l r).WellFormed cx.program)
    (hnodup : (Expr.node t l r).tokens.Nodup) (hl : ∀ role, cx.Sound l role)
    (hr : ∀ role, cx.Sound r role)
    (harms : ∀ colon a b, r = .node colon a b → cx.Sound a .operator ∧ cx.Sound b .operator)
    (hfresh : Fresh (l.tokens ++ r.tokens) st) (hσ : st.store.Describes σ)
    (h : cx.execOperation t l r (cx.exec l .operator) (cx.exec r .operator)
      (cx.exec r .separator) (cx.execChoice l r) σ o) :
    Promises cx.program (innerExtent t l r) (cx.evalNode t l r st).2
      (cx.evalNode t l r st).1.Holds o := by
  have hop := Program.operation_cases cx.program t l r
  have hapart := Expr.apart_of_nodup hnodup
  obtain ⟨ht, -, hright, hlwf, hrwf⟩ := id hwf
  unfold evalNode evalOperation
  unfold execOperation at h
  simp only at h ⊢
  cases hkind : cx.program.operation t l r <;> rw [hkind] at hop <;> simp only [hkind] at h ⊢
  case leaf =>
    obtain ⟨n, rfl, hn⟩ := outcome_of_execLeaf hσ h
    exact ⟨hn, hσ⟩
  case cast => exact absurd hop (by simp [ht.not_cast])
  case sizeQuery => exact absurd hop (by simp [ht.not_size])
  case assignment =>
    obtain ⟨u, hu⟩ := Program.exists_left hwf (by simp [hkind])
    exact sound_assignment hwf hop.1 hapart hu (hl _) (hr _) hfresh hσ h
  case increment =>
    obtain ⟨u, hu⟩ := Program.exists_left hwf (by simp [hkind])
    exact sound_increment hwf hop.1 hapart hu (hl _) hfresh hσ h
  case call =>
    obtain ⟨u, hu⟩ := Program.exists_left hwf (by simp [hkind])
    exact sound_call hlwf hrwf hapart hu (hl _) (hr _) hfresh hσ _ h
  case shortCircuit => exact sound_shortCircuit _ hlwf hrwf hapart (hl _) (hr _) hfresh hσ h
  case unary =>
    exact sound_unary hapart (hl _) (fun A a σ o ha => outcome_of_execUnary ha) (.refl _ _) rfl
      hfresh hσ h
  case member =>
    refine sound_unary (f := fun a => .unknown [a]) hapart (hl _) ?_ ?_ (annotateTop_store ..)
      hfresh hσ h
    · rintro A a σ o ha ⟨n, rfl⟩
      exact ⟨n, rfl, Tag.holds_unknown (by simpa using Tag.ne_bottom_of_holds ha) n⟩
    · exact (Frame.annotateTop (p := cx.program) cx (fun _ hu => hu) .top _).toMarks
  case comma =>
    rw [← Run.bind_pure (cx.exec r .operator)] at h
    refine sound_binary (f := fun _ b => b) (g := fun _ b => pure b) hlwf hrwf hright hapart (hl _)
      (hr _) ?_ hfresh hσ h
    rintro A B a b σ o - hb rfl
    exact .inl ⟨b, rfl, hb⟩
  case binary =>
    refine sound_binary hlwf hrwf hright hapart (hl _) (hr _) ?_ hfresh hσ h
    intro A B a b σ o ha hb hrun
    refine (outcome_of_execBinary ha hb hrun).imp_right ?_
    rintro ⟨rfl, hzero, htext⟩
    have hleft : (cx.program.token t).left ≠ none := by
      obtain ⟨u, hu⟩ := Program.exists_left hwf (by simp [hkind])
      rw [← hwf.2.1, hu]
      simp
    have hsecond : (cx.program.token t).right ≠ none := by
      rw [← hright]
      exact fun hnone => hop (Expr.token?_eq_none_iff.1 hnone)
    refine ⟨rfl, hzero, ?_, hsecond, rfl⟩
    unfold Program.isDivision
    rw [if_pos (by rcases htext with htext | htext <;> rw [htext] <;> decide)]
    simp [Program.isBinary, Option.isSome_iff_ne_none, hleft, hsecond]
  case choice =>
    cases r with
    | absent =>
      refine sound_unary (f := fun _ => .top) (g := fun _ => Run.any) hapart (hl _) ?_ (.refl _ _)
        rfl hfresh hσ h
      rintro A a σ o - ⟨n, rfl⟩
      exact ⟨n, rfl, trivial⟩
    | node colon a b =>
      obtain ⟨ha, hb⟩ := harms colon a b rfl
      by_cases hcolon : cx.program.text colon = ":"
      · rw [execChoice, if_pos hcolon] at h
        rw [evalChoice, if_pos hcolon]
        exact sound_conditional hlwf hrwf hapart (hl _) ha hb hfresh hσ h
      · rw [execChoice, if_neg hcolon] at h
        rw [evalChoice, if_neg hcolon]
        refine sound_binary (f := fun _ b => .unknown [b]) (g := fun _ _ => Run.any) hlwf hrwf
          hright hapart (hl _) (hr _) ?_ hfresh hσ h
        rintro A B a b σ o - hb ⟨n, rfl⟩
        exact .inl ⟨n, rfl, Tag.holds_unknown (by simpa using Tag.ne_bottom_of_holds hb) n⟩

/-- A known value in place of a tag that is `top` is right about the values that are allowed. -/
theorem holds_withFlowValue {tag : Tag} {n : Int} (hn : tag.Holds n) (hallows : cx.Allows t n) :
    (cx.withFlowValue t tag).Holds n := by
  unfold withFlowValue
  split_ifs with hflow
  · split
    · rename_i k hk
      rw [hallows hflow.2 k hk]
      exact Tag.holds_ofInt k
    · trivial
  · exact hn

/-- The tag at the top is put on last, and this is when a division there becomes a site. -/
theorem promises_top {o : Outcome Int} {tag : Tag} (hapart : Expr.Apart t l r)
    (h : Promises cx.program (innerExtent t l r) st tag.Holds o) {tag' : Tag}
    (htag : ∀ n σ, o = .value n σ → tag.Holds n → tag'.Holds n) :
    Promises cx.program (Expr.node t l r).extent (cx.annotate t tag' st) tag'.Holds o := by
  have hmarks : Marks [t] st (cx.annotate t tag' st) :=
    .annotate cx (List.mem_singleton_self t) tag' st
  cases o with
  | value n σ => exact ⟨htag n σ rfl h.1, h.2⟩
  | raised σ => exact h
  | divisionByZero d =>
    obtain ⟨hsite, u, hu, hright, tag, htag, hzero⟩ := h
    refine ⟨.inl ?_, u, hu, hright, tag, ?_, hzero⟩
    · rcases hsite with hsite | ⟨hpending, hdiv⟩
      · exact hmarks.sites d hsite
      · rw [List.mem_singleton.1 hpending] at hdiv ⊢
        simp [annotate, hdiv]
    · rw [hmarks.annotations u ?_]
      · exact htag
      · rintro hmem
        rw [List.mem_singleton.1 hmem] at hu
        rcases List.mem_append.1 hu with hu | hu
        · exact hapart.top_left hu
        · exact hapart.top_right hu

/-- What is not a division never becomes a site. -/
theorem promises_of_not_division {o : Outcome Int} {P : Int → Prop}
    (ht : ¬ cx.program.isDivision t = true) (h : Promises cx.program (innerExtent t l r) st P o) :
    Promises cx.program (Expr.node t l r).extent st P o := by
  cases o with
  | value n σ => exact h
  | raised σ => exact h
  | divisionByZero d =>
    obtain ⟨hsite, hdivisor⟩ := h
    refine ⟨.inl (hsite.resolve_right ?_), hdivisor⟩
    rintro ⟨hpending, hdiv⟩
    rw [List.mem_singleton.1 hpending] at hdiv
    exact ht hdiv

/-- **Evaluation is sound**: whatever a run of a well-formed expression does, evaluation has
promised. -/
theorem sound_eval {e : Expr} (hwf : e.WellFormed cx.program) (hnodup : e.tokens.Nodup)
    (role : CommaRole) : cx.Sound e role := by
  induction e using Expr.induction_arms generalizing role with
  | habsent =>
    rintro st σ - hσ o ⟨n, rfl⟩
    exact ⟨trivial, hσ⟩
  | hnode t l r ihl ihr iharms =>
    intro st σ hfresh hσ o h
    have hapart := Expr.apart_of_nodup hnodup
    obtain ⟨ht, -, hright, hlwf, hrwf⟩ := id hwf
    have hl := ihl hlwf hapart.left
    have hr := ihr hrwf hapart.right
    rw [exec_node] at h
    rw [eval_node]
    by_cases hsep : role = .separator ∧ cx.program.text t = "," ∧ !l.isAbsent ∧ !r.isAbsent
    · rw [if_pos hsep] at h
      rw [if_pos hsep]
      have hdiv : ¬ cx.program.isDivision t = true := by
        simp [Program.isDivision, Program.divisionOperators, Program.divisionAssignments, hsep.2.1]
      refine promises_of_not_division hdiv ?_
      refine sound_binary (g := fun _ _ => Run.any) hlwf hrwf hright hapart (hl _) (hr _) ?_ ?_ ?_ h
      · rintro A B a b σ o ha hb ⟨n, rfl⟩
        exact .inl ⟨n, rfl, Tag.holds_unknown
          (by simp [Tag.ne_bottom_of_holds ha, Tag.ne_bottom_of_holds hb]) n⟩
      · refine Fresh.of_marks hfresh (.annotate cx (List.mem_singleton_self t) .top st) ?_
        intro u hu hut
        rw [List.mem_singleton.1 hut] at hu
        exact (List.nodup_cons.1 hnodup).1 hu
      · exact hσ
    · have hreach : ¬ st.store.isUnreachable = true := fun hnot =>
        (Store.Live.of_describes hσ).ne_unreachable (Store.isUnreachable_iff.1 hnot)
      have hframe := (confined_eval hwf role).frame st
      rw [eval_node, if_neg hsep, if_neg hreach] at hframe
      rw [if_neg hsep] at h
      rw [if_neg hsep, if_neg hreach]
      have hinner : ∀ o, cx.execOperation t l r (cx.exec l .operator) (cx.exec r .operator)
          (cx.exec r .separator) (cx.execChoice l r) σ o →
          Promises cx.program (innerExtent t l r) (cx.evalNode t l r st).2
            (cx.evalNode t l r st).1.Holds o := by
        intro o hrun
        refine sound_operation hwf hnodup hl hr ?_ hfresh hσ hrun
        rintro colon a b rfl
        obtain ⟨-, -, -, hawf, hbwf⟩ := hrwf
        have hinner := Expr.apart_of_nodup hapart.right
        obtain ⟨iha, ihb⟩ := iharms colon a b rfl
        exact ⟨iha hawf hinner.left _, ihb hbwf hinner.right _⟩
      rcases h with ⟨hrun, hallows⟩ | rfl | ⟨a, σ', ⟨hrun, -⟩, rfl⟩
      · exact promises_top hapart (hinner o hrun)
          fun n σ' ho hn => holds_withFlowValue hn (hallows n σ' ho)
      · -- Nothing has run yet.
        exact fun v hv => (hσ v).mono (hframe.store v hv)
      · exact fun v _ => (hinner _ hrun).2 v

end EvalContext

end DivisorCheck
