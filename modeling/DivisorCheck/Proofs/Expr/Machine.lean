/-
  Machine integers.

  On integers of a fixed width results wrap around.  The tables of operators are true
  of them too, with one exception.  A sum is only said not to be zero if one summand
  is zero, and then nothing wraps; but a product of two numbers that are not zero is
  said not to be zero, and it is if the modulus divides it (`Tag.Describes.multiply_iff`).

  Compound assignments, increments and decrements store what the tables say, so the
  tags of variables are true with the same exception (`machineIntegers_described`).
-/
import DivisorCheck.Proofs.Expr.Writes
import Mathlib.Algebra.Group.Nat.Defs

namespace DivisorCheck

/-! ### Tags of machine integers -/

namespace Tag

/-- The machine integers that a tag describes. -/
def Describes (a : Tag) {w : Nat} (x : BitVec w) : Prop := a.Holds x.toNat

variable {w : Nat} {a b : Tag} {x y z : BitVec w}

@[simp] theorem not_describes_bottom : ¬ bottom.Describes x := id

@[simp] theorem describes_zero : zero.Describes x ↔ x = 0#w := by
  rw [← BitVec.toNat_inj]
  simp [Describes, Holds]

@[simp] theorem describes_nonZero : nonZero.Describes x ↔ x ≠ 0#w := not_congr describes_zero

@[simp] theorem describes_top : top.Describes x := trivial

theorem describes_one (hw : 0 < w) : nonZero.Describes 1#w := by
  rw [describes_nonZero, ne_eq, ← BitVec.toNat_inj, BitVec.toNat_one hw]
  simp

/-- It makes no difference whether integers are signed. -/
theorem describes_iff_toInt : a.Describes x ↔ a.Holds x.toInt := by
  have hzero : x = 0#w ↔ x.toInt = 0 := by
    rw [← BitVec.toInt_inj, BitVec.toInt_zero]
  cases a with
  | bottom => exact Iff.rfl
  | zero => exact describes_zero.trans hzero
  | nonZero => exact describes_nonZero.trans (not_congr hzero)
  | top => exact Iff.rfl

/-- The machine integer for a truth value. -/
def truth (w : Nat) (c : Bool) : BitVec w := if c then 1#w else 0#w

theorem truth_eq_zero_iff (hw : 0 < w) {c : Bool} : truth w c = 0#w ↔ c = false := by
  have hone : 1#w ≠ 0#w := describes_nonZero.1 (describes_one hw)
  cases c <;> simp [truth, hone]

/-! ### Tables -/

/-- Both factors are said not to be zero, and the modulus divides their product. -/
def LosesProduct (a b : Tag) (x y : BitVec w) : Prop :=
  a = nonZero ∧ b = nonZero ∧ 2 ^ w ∣ x.toNat * y.toNat

theorem mul_eq_zero_iff_dvd : x * y = 0#w ↔ 2 ^ w ∣ x.toNat * y.toNat := by
  rw [← BitVec.toNat_inj, BitVec.toNat_mul, Nat.dvd_iff_mod_eq_zero]
  simp

namespace Describes

variable (hx : a.Describes x) (hy : b.Describes y)
include hx

theorem negate : a.negate.Describes (-x) := by
  cases a <;> simp_all [Tag.negate, BitVec.neg_eq_zero_iff]

theorem logicalNot (hw : 0 < w) : a.logicalNot.Describes (truth w (x = 0#w)) := by
  cases a <;> simp_all [Tag.logicalNot, truth_eq_zero_iff hw]

include hy

theorem add : (a.add b).Describes (x + y) := by
  cases a <;> cases b <;> simp_all [Tag.add]

theorem subtract : (a.subtract b).Describes (x - y) := by
  cases a <;> cases b <;> simp_all [Tag.subtract, Tag.add, BitVec.neg_eq_zero_iff]

theorem divide : (a.divide b).Describes z := by
  cases a <;> cases b <;> simp_all [Tag.divide]

/-- The table for products is right unless a product of two numbers that are not zero is lost. -/
theorem multiply_iff : (a.multiply b).Describes (x * y) ↔ ¬ LosesProduct a b x y := by
  rw [LosesProduct, ← mul_eq_zero_iff_dvd]
  cases a <;> cases b <;> simp_all [Tag.multiply]

theorem logicalAnd (hw : 0 < w) :
    (a.logicalAnd b).Describes (truth w (x ≠ 0#w && y ≠ 0#w)) := by
  cases a <;> cases b <;> simp_all [Tag.logicalAnd, truth_eq_zero_iff hw]

theorem logicalOr (hw : 0 < w) :
    (a.logicalOr b).Describes (truth w (x ≠ 0#w || y ≠ 0#w)) := by
  cases a <;> cases b <;> simp_all [Tag.logicalOr, truth_eq_zero_iff hw]

end Describes

end Tag

namespace EvalContext

open Tag (LosesProduct)

/-- What a binary operator may give on machine integers.  Nothing is divided by zero, and quotients
and remainders depend on whether the integers are signed.  An operator that has no table may give
anything. -/
def MachineResult (op : String) {w : Nat} (x y z : BitVec w) : Prop :=
  match op with
  | "+" => z = x + y
  | "-" => z = x - y
  | "*" => z = x * y
  | "/" => y ≠ 0#w ∧ (z = x / y ∨ z = x.sdiv y)
  | "%" => y ≠ 0#w ∧ (z = x % y ∨ z = x.srem y)
  | _ => True

variable {w : Nat} {a b : Tag} {x y z : BitVec w}

theorem binaryTag_describes_iff {op : String} (hx : a.Describes x) (hy : b.Describes y)
    (hz : MachineResult op x y z) :
    (binaryTag op a b).Describes z ↔ ¬ (op = "*" ∧ LosesProduct a b x y) := by
  unfold MachineResult at hz
  split at hz
  · subst hz
    simpa [binaryTag, Tag.binary?] using hx.add hy
  · subst hz
    simpa [binaryTag, Tag.binary?] using hx.subtract hy
  · subst hz
    simpa [binaryTag, Tag.binary?] using hx.multiply_iff hy
  · simpa [binaryTag, Tag.binary?] using hx.divide hy
  · simpa [binaryTag, Tag.binary?] using hx.divide hy
  · rename_i hplus hminus htimes hover hmod
    have hnone : Tag.binary? op = none := by
      unfold Tag.binary?
      split <;> simp_all
    have htag : (Tag.unknown [a, b]).Describes z := by
      cases a <;> cases b <;> simp_all [Tag.unknown]
    refine iff_of_true ?_ fun h => htimes h.1
    rw [binaryTag, hnone]
    exact htag

/-! ### Stores that stay reachable -/

variable {cx : EvalContext} {t : TokenId} {l r e : Expr} {v : VarId} {st : EvalState}

/-- The second store is reachable if the first is. -/
def StaysReachable (s s' : Store) : Prop := s ≠ .unreachable → s' ≠ .unreachable

theorem composes_staysReachable (cx : EvalContext) : cx.Composes StaysReachable where
  refl _ := id
  trans h h' hs := h' (h hs)
  arms _ _ _ s₂ h₁ _ hs := Store.join_ne_unreachable (h₁ (Expr.narrowBy_ne_unreachable hs true)) s₂
  second _ _ _ s₁ _ hs := Store.join_ne_unreachable hs s₁

theorem writesKeep_staysReachable (e : Expr) : cx.WritesKeep StaysReachable e := by
  induction e with
  | absent => trivial
  | node t l r ihl ihr =>
    refine ⟨fun _ _ tag s hs => ?_, fun _ _ s hs => ?_, ihl, ihr⟩
    · unfold written
      split
      · exact Store.set_ne_unreachable hs _ tag
      · split
        · exact hs
        · exact Store.havoc_ne_unreachable hs cx.escaped
    · exact Store.havoc_ne_unreachable (Store.havoc_ne_unreachable hs cx.escaped) _

/-- **Evaluation never makes a store unreachable.** -/
theorem evaluate_ne_unreachable (e : Expr) (hst : st.store ≠ .unreachable) :
    (cx.evaluate e st).2.store ≠ .unreachable :=
  related_eval (composes_staysReachable cx) (writesKeep_staysReachable e) .operator st hst

/-! ### What is stored -/

/-- An operand that has a tag other than `bottom` is evaluated on a reachable store. -/
theorem ne_unreachable_of_evaluate (he : e ≠ .absent) (htag : (cx.evaluate e st).1 ≠ .bottom) :
    st.store ≠ .unreachable := by
  intro hst
  cases e with
  | absent => exact he rfl
  | node t l r =>
    refine htag ?_
    change (cx.eval (.node t l r) .operator st).1 = .bottom
    rw [eval_node, if_neg (by simp), if_pos (Store.isUnreachable_iff.2 hst)]

section Stored

variable (hv : l.trackedVar? cx.program = some v)
include hv

theorem get_write {st : EvalState} (hst : st.store ≠ .unreachable) (evalTarget : EvalStep)
    (tag : Tag) : (cx.write l evalTarget tag st).store.get v = tag := by
  unfold write
  rw [hv]
  dsimp only
  rw [annotateTop_store, Store.get_set hst, if_pos rfl]

variable (hold : (cx.evaluate l st).1 ≠ .bottom)
include hold

/-- A variable that has a tag other than `bottom` is read, and written, on reachable stores. -/
theorem reachable_of_read : ¬ st.store.isUnreachable = true ∧
    (cx.evaluate l st).2.store ≠ .unreachable := by
  have hl : l ≠ .absent := by
    rintro rfl
    cases hv
  have hst : st.store ≠ .unreachable := ne_unreachable_of_evaluate hl hold
  exact ⟨mt Store.isUnreachable_iff.1 hst, evaluate_ne_unreachable l hst⟩

/-- A compound assignment stores what the table of its operator says. -/
theorem get_evaluate_compound (hkind : cx.program.operation t l r = .assignment)
    (htext : cx.program.text t ≠ "=") :
    (cx.evaluate (.node t l r) st).2.store.get v =
      binaryTag (compoundOperator (cx.program.text t)) (cx.evaluate l st).1
        (cx.evaluate r (cx.evaluate l st).2).1 := by
  obtain ⟨hreach, hleft⟩ := reachable_of_read hv hold
  have hright : (cx.evaluate r (cx.evaluate l st).2).2.store ≠ .unreachable :=
    evaluate_ne_unreachable r hleft
  change (cx.eval (.node t l r) .operator st).2.store.get v = _
  rw [eval_node, if_neg (by simp), if_neg hreach]
  simp only [evalNode, evalOperation, hkind, evalAssignment, if_neg htext, annotate_store]
  exact get_write hv hright _ _

/-- An increment or decrement stores what the table of sums says. -/
theorem get_evaluate_increment (hkind : cx.program.operation t l r = .increment) :
    (cx.evaluate (.node t l r) st).2.store.get v = (cx.evaluate l st).1.add .nonZero := by
  obtain ⟨hreach, hleft⟩ := reachable_of_read hv hold
  change (cx.eval (.node t l r) .operator st).2.store.get v = _
  rw [eval_node, if_neg (by simp), if_neg hreach]
  simp only [evalNode, evalOperation, hkind, evalIncrement, annotate_store]
  exact get_write hv hleft _ _

end Stored

/-- **The tables are true of machine integers, but for products that are lost.**  Two tags describe
two integers of the same width.  Then the tables of all operators describe the results, except that
the one for products fails exactly where two numbers that are not zero have a product that the
modulus divides.  What is stored for a variable follows the tables: a compound assignment stores a
tag of its result with the same exception, and an increment or decrement without any. -/
theorem machineIntegers_described {w : Nat} (hw : 0 < w) {x y : BitVec w} {a b : Tag}
    (hx : a.Describes x) (hy : b.Describes y) :
    ((a.add b).Describes (x + y) ∧ (a.subtract b).Describes (x - y) ∧
      ((a.multiply b).Describes (x * y) ↔ ¬ LosesProduct a b x y) ∧
      a.negate.Describes (-x) ∧ a.logicalNot.Describes (Tag.truth w (x = 0#w)) ∧
      (a.logicalAnd b).Describes (Tag.truth w (x ≠ 0#w && y ≠ 0#w)) ∧
      (a.logicalOr b).Describes (Tag.truth w (x ≠ 0#w || y ≠ 0#w)) ∧
      (y ≠ 0#w → ∀ z ∈ [x / y, x.sdiv y, x % y, x.srem y], (a.divide b).Describes z)) ∧
    ∀ (cx : EvalContext) (t : TokenId) (l r : Expr) (v : VarId) (st : EvalState),
      l.trackedVar? cx.program = some v → (cx.evaluate l st).1 = a →
      (cx.program.operation t l r = .assignment → cx.program.text t ≠ "=" →
        (cx.evaluate r (cx.evaluate l st).2).1 = b →
        ∀ z, MachineResult (compoundOperator (cx.program.text t)) x y z →
          (((cx.evaluate (.node t l r) st).2.store.get v).Describes z ↔
            ¬ (compoundOperator (cx.program.text t) = "*" ∧ LosesProduct a b x y))) ∧
      (cx.program.operation t l r = .increment →
        ∀ z ∈ [x + 1#w, x - 1#w], ((cx.evaluate (.node t l r) st).2.store.get v).Describes z) := by
  refine ⟨⟨hx.add hy, hx.subtract hy, hx.multiply_iff hy, hx.negate, hx.logicalNot hw,
    hx.logicalAnd hy hw, hx.logicalOr hy hw, fun _ z _ => hx.divide hy⟩, ?_⟩
  intro cx t l r v st hv ha
  have hold : (cx.evaluate l st).1 ≠ .bottom := by
    rw [ha]
    rintro rfl
    exact hx
  refine ⟨fun hkind htext hb z hz => ?_, fun hkind => ?_⟩
  · rw [get_evaluate_compound hv hold hkind htext, ha, hb]
    exact binaryTag_describes_iff hx hy hz
  · rw [get_evaluate_increment hv hold hkind, ha]
    have hone := Tag.describes_one hw
    simpa using ⟨hx.add hone, hx.subtract hone⟩

end EvalContext

/-! ### A product -/

/-- `n *= m, n++`, the variables being 1 and 2. -/
def scaledStep : Program where
  tokens := #[
    { text := ",", left := some 1, right := some 4 },
    { text := "*=", left := some 2, right := some 3, parent := some 0 },
    { text := "n", isName := true, varId := 1, var := some 0, parent := some 1 },
    { text := "m", isName := true, varId := 2, var := some 1, parent := some 1 },
    { text := "++", left := some 5, parent := some 0 },
    { text := "n", isName := true, varId := 1, var := some 0, parent := some 4 }]
  vars := #[{ id := 1, isLocal := true }, { id := 2, isLocal := true }]

/-- Both variables are known not to be zero. -/
def scaledStepState : EvalState := { store := (Store.top.set 1 .nonZero).set 2 .nonZero }

theorem machineResult_scaledStep {w : Nat} (x y : BitVec w) :
    EvalContext.MachineResult (EvalContext.compoundOperator (scaledStep.text 1)) x y (x * y) := by
  have hop : EvalContext.compoundOperator (scaledStep.text 1) = "*" := by decide
  rw [hop]
  rfl

/-- `16 * 20` wraps around in eight bits, but not to zero. -/
theorem machineIntegers_described_scaledStep :
    (0 < 8 ∧ Tag.nonZero.Describes 16#8 ∧ Tag.nonZero.Describes 20#8) ∧
    (((EvalContext.evaluate { program := scaledStep } (scaledStep.expr 1)
      scaledStepState).2.store.get 1).Describes 64#8) ∧
    (((EvalContext.evaluate { program := scaledStep } (scaledStep.expr 4)
      scaledStepState).2.store.get 1).Describes 17#8) := by
  have hx : Tag.nonZero.Describes 16#8 := by simp
  have hy : Tag.nonZero.Describes 20#8 := by simp
  have hkept : ¬ Tag.LosesProduct .nonZero .nonZero 16#8 20#8 := by
    rintro ⟨-, -, hdvd⟩
    exact absurd hdvd (by decide)
  obtain ⟨-, hstored⟩ := EvalContext.machineIntegers_described (by decide) hx hy
  have hproduct := (hstored { program := scaledStep } 1 (.node 2 .absent .absent)
    (.node 3 .absent .absent) 1 scaledStepState (by decide) (by decide +kernel)).1
    (by decide) (by decide) (by decide +kernel) 64#8 (machineResult_scaledStep 16#8 20#8)
  have hstep := (hstored { program := scaledStep } 4 (.node 5 .absent .absent) .absent 1
    scaledStepState (by decide) (by decide +kernel)).2 (by decide) 17#8 (by decide)
  exact ⟨⟨by decide, hx, hy⟩, hproduct.2 fun h => hkept h.2, hstep⟩

/-- **A product is lost.**  In 32 bits the square of `65536` is zero, and both the table and the tag
stored for `n *= m` say that it is not. -/
theorem product_lost :
    (¬ ∀ (w : Nat) (x y : BitVec w) (a b : Tag), 0 < w → a.Describes x → b.Describes y →
      (a.multiply b).Describes (x * y)) ∧
    ¬ ∀ (w : Nat) (x y z : BitVec w) (a b : Tag) (cx : EvalContext) (t : TokenId) (l r : Expr)
      (v : VarId) (st : EvalState), 0 < w → a.Describes x → b.Describes y →
      l.trackedVar? cx.program = some v → (cx.evaluate l st).1 = a →
      cx.program.operation t l r = .assignment → cx.program.text t ≠ "=" →
      (cx.evaluate r (cx.evaluate l st).2).1 = b →
      EvalContext.MachineResult (EvalContext.compoundOperator (cx.program.text t)) x y z →
      ((cx.evaluate (.node t l r) st).2.store.get v).Describes z := by
  have hx : Tag.nonZero.Describes 65536#32 := by simp
  constructor
  · intro hclaim
    have hproduct := hclaim 32 65536#32 65536#32 .nonZero .nonZero (by decide) hx hx
    exact Tag.describes_nonZero.1 hproduct (by decide)
  · intro hclaim
    have hstored := hclaim 32 65536#32 65536#32 0#32 .nonZero .nonZero { program := scaledStep } 1
      (.node 2 .absent .absent) (.node 3 .absent .absent) 1 scaledStepState (by decide) hx hx
      (by decide) (by decide +kernel) (by decide) (by decide) (by decide +kernel)
      (machineResult_scaledStep 65536#32 65536#32)
    have htag : (EvalContext.evaluate { program := scaledStep }
        (.node 1 (.node 2 .absent .absent) (.node 3 .absent .absent))
        scaledStepState).2.store.get 1 = .nonZero := by decide +kernel
    rw [htag] at hstored
    exact Tag.describes_nonZero.1 hstored rfl

end DivisorCheck
