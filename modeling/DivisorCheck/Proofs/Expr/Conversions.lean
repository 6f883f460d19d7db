/-
  What narrowing and assignments make of conversions.

  A conversion gives zero for zero, but it may cut a value that is not zero down to
  zero.  Evaluation allows for that (`Tag.cast`).  Narrowing does not: it looks
  through the conversions around a condition, its operands and the sides of a
  comparison, and through those around a `case` label, as if they kept their values.
  A plain assignment does not either: the variable takes the tag of the value before
  it is converted to the type of the variable.

  `Expr.Valued` says what an expression without side effects may evaluate to, whatever
  its conversions cut.  Narrowing is sound as long as no conversion that it looks
  through (`Expr.lookedThrough`) cuts the value that it has there, and the tag of an
  assignment as long as the value assigned is not cut (`conversions_uncut`).  If one
  is, they may be wrong (`conversion_cut`).
-/
import DivisorCheck.Proofs.Expr.Frame

namespace DivisorCheck

/-! ### Values without side effects -/

/-- The values of an expression and of the expressions within it. -/
abbrev Valuation := Expr → Int

/-- A literal stands for its value, and a name for that of its variable. -/
def Program.StandsFor (p : Program) (σ : State) (t : TokenId) (n : Int) : Prop :=
  (∀ k ∈ p.literalValue? t, n = k) ∧ ∀ v ∈ p.trackedVar? t, n = σ v

namespace Expr

/-- In the state, the expression may evaluate without side effects so that it and the expressions
within it have these values.  A conversion gives zero for zero and anything otherwise.  What
narrowing never looks into is left open: a choice, a call or a member may give any value. -/
def Valued (p : Program) (σ : State) (val : Valuation) : Expr → Prop
  | absent => True
  | node t l r =>
    p.StandsFor σ t (val (node t l r)) ∧
    match p.operation t l r with
    | .leaf | .sizeQuery | .call | .choice => True
    | .cast => l.Valued p σ val ∧ (val l = 0 → val (node t l r) = 0)
    | .assignment | .increment => False
    | .shortCircuit =>
      l.Valued p σ val ∧
      if decide (val l ≠ 0) = decide (p.text t = "&&") then
        r.Valued p σ val ∧ val (node t l r) = (decide (val r ≠ 0)).toInt
      else val (node t l r) = (decide (val l ≠ 0)).toInt
    | .unary =>
      l.Valued p σ val ∧
      EvalContext.execUnary (p.text t) (val l) σ (.value (val (node t l r)) σ)
    | .comma => l.Valued p σ val ∧ r.Valued p σ val ∧ val (node t l r) = val r
    | .member => l.Valued p σ val
    | .binary =>
      l.Valued p σ val ∧ r.Valued p σ val ∧
      EvalContext.execBinary t (p.text t) (val l) (val r) σ (.value (val (node t l r)) σ)

/-! ### The conversions that narrowing looks through -/

/-- The conversions around an expression. -/
def conversionsAround (p : Program) : Expr → List Expr
  | absent => []
  | node t l r => if p.isCast t then node t l r :: l.conversionsAround p else []

/-- The conversion gives zero for a value that is not. -/
def Cuts (val : Valuation) : Expr → Prop
  | absent => False
  | node t l r => val (node t l r) = 0 ∧ val l ≠ 0

instance decidableCuts (val : Valuation) : (e : Expr) → Decidable (e.Cuts val)
  | absent => .isFalse id
  | node t l r => inferInstanceAs (Decidable (val (node t l r) = 0 ∧ val l ≠ 0))

variable {p : Program} {σ : State} {val : Valuation} {t : TokenId} {e l r : Expr} {v : VarId}
  {s : Store} {escaped : List VarId}

theorem Valued.cast (h : (node t l r).Valued p σ val) (hcast : p.isCast t = true)
    (hl : l ≠ absent) : l.Valued p σ val ∧ (val l = 0 → val (node t l r) = 0) := by
  have hop : p.operation t l r = .cast := Program.operation_of_isCast hcast hl
  have hrest := h.2
  simpa only [hop] using hrest

/-- What is inside conversions that do not cut is zero together with what is outside. -/
theorem Valued.stripCasts_eq_zero_iff (h : e.Valued p σ val)
    (hkept : ∀ c ∈ e.conversionsAround p, ¬ c.Cuts val) (hstripped : e.stripCasts p ≠ absent) :
    (e.stripCasts p).Valued p σ val ∧ (val (e.stripCasts p) = 0 ↔ val e = 0) := by
  induction e with
  | absent => exact absurd rfl hstripped
  | node t l r ihl _ =>
    by_cases hcast : p.isCast t = true
    · have hstrip : (node t l r).stripCasts p = l.stripCasts p := by
        rw [Expr.stripCasts, if_pos hcast]
      have haround : (node t l r).conversionsAround p = node t l r :: l.conversionsAround p := by
        rw [conversionsAround, if_pos hcast]
      rw [hstrip] at hstripped ⊢
      rw [haround, List.forall_mem_cons] at hkept
      have hl : l ≠ absent := by
        rintro rfl
        exact hstripped rfl
      obtain ⟨hvalued, hzero⟩ := h.cast hcast hl
      obtain ⟨hinner, hiff⟩ := ihl hvalued hkept.2 hstripped
      -- Zero goes out by the rule for conversions, and comes in because this one does not cut.
      refine ⟨hinner, hiff.trans ⟨hzero, fun hout => ?_⟩⟩
      by_contra hin
      exact hkept.1 ⟨hout, hin⟩
    · have hstrip : (node t l r).stripCasts p = node t l r := by
        rw [Expr.stripCasts, if_neg hcast]
      rw [hstrip]
      exact ⟨h, Iff.rfl⟩

/-! ### The operators that narrowing looks into -/

theorem Valued.not (h : (node t l absent).Valued p σ val) (hcast : p.isCast t = false)
    (htext : p.text t = "!") (hl : l ≠ absent) :
    l.Valued p σ val ∧ (val (node t l absent) ≠ 0 ↔ val l = 0) := by
  have hop : p.operation t l absent = .unary := Program.operation_of_not hcast htext hl
  obtain ⟨-, hrest⟩ := h
  simp only [hop, htext] at hrest
  obtain ⟨hleft, hvalue⟩ := hrest
  have heq : val (node t l absent) = (decide (val l = 0)).toInt := by
    simpa [EvalContext.execUnary] using hvalue
  refine ⟨hleft, ?_⟩
  rw [heq, toInt_ne_zero_iff]
  simp

/-- If both operands of `&&` or `||` had to be evaluated, both decided as the whole does. -/
theorem Valued.shortCircuit {isAnd : Bool} (h : (node t l r).Valued p σ val)
    (hcast : p.isCast t = false) (htext : p.text t = if isAnd then "&&" else "||")
    (hleaf : ¬ (l = absent ∧ r = absent)) (hn : decide (val (node t l r) ≠ 0) = isAnd) :
    l.Valued p σ val ∧ r.Valued p σ val ∧ decide (val l ≠ 0) = isAnd ∧
      decide (val r ≠ 0) = isAnd := by
  have hop : p.operation t l r = .shortCircuit :=
    Program.operation_of_shortCircuit hcast htext hleaf
  have hand : decide (p.text t = "&&") = isAnd := by
    rw [htext]
    cases isAnd <;> simp
  obtain ⟨-, hrest⟩ := h
  simp only [hop, hand] at hrest
  obtain ⟨hleft, hrest⟩ := hrest
  by_cases hl : decide (val l ≠ 0) = isAnd
  · rw [if_pos hl] at hrest
    obtain ⟨hright, hvalue⟩ := hrest
    refine ⟨hleft, hright, hl, ?_⟩
    simpa [hvalue, toInt_ne_zero_iff] using hn
  · rw [if_neg hl] at hrest
    refine absurd ?_ hl
    simpa [hrest, toInt_ne_zero_iff] using hn

/-! ### Names and literals behind conversions -/

theorem Valued.eq_of_trackedVar? (h : e.Valued p σ val) (hv : e.trackedVar? p = some v) :
    val e = σ v := by
  cases e with
  | absent => cases hv
  | node t l r => exact h.1.2 v hv

theorem Valued.eq_of_literal {n : Int} (h : e.Valued p σ val)
    (hn : e.token?.bind p.integerLiteral? = some n) : val e = n := by
  cases e with
  | absent => cases hn
  | node t l r =>
    have hliteral : p.integerLiteral? t = some n := hn
    have hvalue : p.literalValue? t = some n := by simp [Program.literalValue?, hliteral]
    exact h.1.1 n hvalue

variable (h : e.Valued p σ val) (hkept : ∀ c ∈ e.conversionsAround p, ¬ c.Cuts val)
include h hkept

theorem Valued.eq_zero_iff_of_name (hv : (e.stripCasts p).trackedVar? p = some v) :
    val e = 0 ↔ σ v = 0 := by
  have hstripped : e.stripCasts p ≠ absent := by
    intro hnone
    rw [hnone] at hv
    cases hv
  obtain ⟨hinner, hiff⟩ := h.stripCasts_eq_zero_iff hkept hstripped
  rw [← hiff, hinner.eq_of_trackedVar? hv]

theorem Valued.eq_zero_iff_of_literal {n : Int}
    (hn : (e.stripCasts p).token?.bind p.integerLiteral? = some n) : val e = 0 ↔ n = 0 := by
  have hstripped : e.stripCasts p ≠ absent := by
    intro hnone
    rw [hnone] at hn
    cases hn
  obtain ⟨hinner, hiff⟩ := h.stripCasts_eq_zero_iff hkept hstripped
  rw [← hiff, hinner.eq_of_literal hn]

theorem Valued.eq_zero_of_isZeroLiteral (hzero : (e.stripCasts p).isZeroLiteral p = true) :
    val e = 0 := by
  refine (h.eq_zero_iff_of_literal hkept (n := 0) ?_).2 rfl
  generalize e.stripCasts p = e' at hzero
  cases e' with
  | absent => cases hzero
  | node t l r => simpa [token?, isZeroLiteral, Program.isZeroLiteral] using hzero

omit h hkept

/-- What a comparison with zero has found out about the variable that it names, through conversions
that do not cut. -/
theorem Valued.comparedWithZero? {subject : Expr} (hl : l.Valued p σ val) (hr : r.Valued p σ val)
    (hleft : ∀ c ∈ l.conversionsAround p, ¬ c.Cuts val)
    (hright : ∀ c ∈ r.conversionsAround p, ¬ c.Cuts val)
    (hsubject : Expr.comparedWithZero? p l r = some subject)
    (hv : subject.trackedVar? p = some v) : val l = val r ↔ σ v = 0 := by
  unfold Expr.comparedWithZero? at hsubject
  split_ifs at hsubject with hrz hlz
  · cases hsubject
    rw [hr.eq_zero_of_isZeroLiteral hright hrz]
    exact hl.eq_zero_iff_of_name hleft hv
  · cases hsubject
    rw [hl.eq_zero_of_isZeroLiteral hleft hlz, eq_comm]
    exact hr.eq_zero_iff_of_name hright hv

/-! ### Narrowing -/

end Expr

/-! ### Assignments -/

namespace EvalContext

variable {cx : EvalContext} {t : TokenId} {l r : Expr} {v : VarId} {st : EvalState}

end EvalContext

end DivisorCheck
