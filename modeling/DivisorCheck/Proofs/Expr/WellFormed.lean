/-
  Well-formed expressions.

  The links between tokens promise nothing.  `Expr.WellFormed` says what a front
  end that parses real expressions keeps: the tree holds all operands that its
  tokens link to, literals and variables have none, an operator that has a second
  operand has a first one, and an assignment has both.  It also leaves out what
  the analysis does not follow exactly, conversions and questions about sizes.

  The kinds of operators overlap in `Program`, where each is a question of its
  own; the lemmas about `Program.operation` say what is left of them once the
  operation of a well-formed node is known.
-/
import DivisorCheck.Expr.Narrowing
import DivisorCheck.Expr.Operation
import Mathlib.Tactic.SplitIfs

namespace DivisorCheck

/-- What a token of a well-formed expression keeps to. -/
structure Program.Proper (p : Program) (t : TokenId) : Prop where
  not_cast : p.isCast t = false
  not_size : p.isSizeQuery t = false
  first : (p.token t).right ≠ none → (p.token t).left ≠ none
  assignment : p.isAssignment t = true → (p.token t).right ≠ none
  literal : p.integerLiteral? t ≠ none → (p.token t).left = none ∧ (p.token t).right = none
  name : p.trackedVar? t ≠ none → (p.token t).left = none ∧ (p.token t).right = none ∧
    p.literalTag? t = none ∧ p.isStep t = false

instance (p : Program) (t : TokenId) : Decidable (p.Proper t) :=
  decidable_of_iff (p.isCast t = false ∧ p.isSizeQuery t = false ∧
    ((p.token t).right ≠ none → (p.token t).left ≠ none) ∧
    (p.isAssignment t = true → (p.token t).right ≠ none) ∧
    (p.integerLiteral? t ≠ none → (p.token t).left = none ∧ (p.token t).right = none) ∧
    (p.trackedVar? t ≠ none → (p.token t).left = none ∧ (p.token t).right = none ∧
      p.literalTag? t = none ∧ p.isStep t = false))
    ⟨fun ⟨h₁, h₂, h₃, h₄, h₅, h₆⟩ => ⟨h₁, h₂, h₃, h₄, h₅, h₆⟩,
      fun ⟨h₁, h₂, h₃, h₄, h₅, h₆⟩ => ⟨h₁, h₂, h₃, h₄, h₅, h₆⟩⟩

namespace Expr

variable {p : Program} {t : TokenId} {l r e : Expr} {v : VarId}

/-- The tree is all there, and its tokens are proper. -/
def WellFormed (p : Program) : Expr → Prop
  | absent => True
  | node t l r => p.Proper t ∧ l.token? = (p.token t).left ∧ r.token? = (p.token t).right ∧
      l.WellFormed p ∧ r.WellFormed p

instance decidableWellFormed (p : Program) : (e : Expr) → Decidable (e.WellFormed p)
  | absent => .isTrue trivial
  | node t l r =>
    have := decidableWellFormed p l
    have := decidableWellFormed p r
    inferInstanceAs (Decidable (p.Proper t ∧ l.token? = (p.token t).left ∧
      r.token? = (p.token t).right ∧ l.WellFormed p ∧ r.WellFormed p))

theorem token?_eq_none_iff : e.token? = none ↔ e = absent := by
  cases e <;> simp [token?]

theorem mem_tokens_of_token? {u : TokenId} (hu : e.token? = some u) : u ∈ e.tokens := by
  cases e with
  | absent => cases hu
  | node t l r =>
    cases hu
    exact List.mem_cons_self ..

@[simp] theorem isAbsent_iff : e.isAbsent = true ↔ e = absent := by
  cases e <;> simp [isAbsent]

@[simp] theorem isAbsent_eq_false_iff : e.isAbsent = false ↔ e ≠ absent := by
  cases e <;> simp [isAbsent]

/-- Induction over expressions for what looks one level further down into the second operand, as the
arms of a choice require. -/
@[elab_as_elim]
theorem induction_arms {P : Expr → Prop} (habsent : P absent)
    (hnode : ∀ t l r, P l → P r → (∀ colon a b, r = node colon a b → P a ∧ P b) →
      P (node t l r)) (e : Expr) : P e := by
  have hboth : P e ∧ ∀ u a b, e = node u a b → P a ∧ P b := by
    induction e with
    | absent => exact ⟨habsent, fun u a b h => nomatch h⟩
    | node t l r ihl ihr =>
      refine ⟨hnode t l r ihl.1 ihr.1 ihr.2, fun u a b h => ?_⟩
      cases h
      exact ⟨ihl.1, ihr.1⟩
  exact hboth.1

/-! ### Leaves -/

theorem WellFormed.leaf_of_trackedVar? (h : e.WellFormed p) (hv : e.trackedVar? p = some v) :
    ∃ t, e = node t absent absent ∧ p.trackedVar? t = some v ∧ p.literalTag? t = none := by
  cases e with
  | absent => cases hv
  | node t l r =>
    obtain ⟨ht, hl, hr, -, -⟩ := h
    have htrack : p.trackedVar? t = some v := hv
    obtain ⟨hleft, hright, hlit, -⟩ := ht.name (by rw [htrack]; simp)
    rw [hleft, token?_eq_none_iff] at hl
    rw [hright, token?_eq_none_iff] at hr
    exact ⟨t, by rw [hl, hr], htrack, hlit⟩

theorem WellFormed.leaf_of_isZeroLiteral (h : e.WellFormed p) (hz : e.isZeroLiteral p = true) :
    ∃ t, e = node t absent absent ∧ p.integerLiteral? t = some 0 := by
  cases e with
  | absent => cases hz
  | node t l r =>
    obtain ⟨ht, hl, hr, -, -⟩ := h
    have hzero : p.integerLiteral? t = some 0 := by
      simpa [isZeroLiteral, Program.isZeroLiteral] using hz
    obtain ⟨hleft, hright⟩ := ht.literal (by rw [hzero]; simp)
    rw [hleft, token?_eq_none_iff] at hl
    rw [hright, token?_eq_none_iff] at hr
    exact ⟨t, by rw [hl, hr], hzero⟩

/-- Well-formed expressions have no conversions to strip. -/
theorem WellFormed.stripCasts (h : e.WellFormed p) : e.stripCasts p = e := by
  cases e with
  | absent => rfl
  | node t l r => simp [Expr.stripCasts, h.1.not_cast]

/-- An assignment, increment or decrement writes what its first operand names. -/
theorem WellFormed.assignsAt (h : (node t l r).WellFormed p)
    (hkind : (p.isAssignment t || p.isStep t) = true) : p.assignsAt t = l.trackedVar? p := by
  rw [Program.assignsAt, if_pos hkind, ← h.2.1]
  rfl

/-! ### Trees that may lack operands -/

/-- The operands in the tree are those that its tokens link to; some may be missing. -/
def Linked (p : Program) : Expr → Prop
  | absent => True
  | node t l r => (l = absent ∨ l.token? = (p.token t).left) ∧
      (r = absent ∨ r.token? = (p.token t).right) ∧ l.Linked p ∧ r.Linked p

theorem WellFormed.linked (h : e.WellFormed p) : e.Linked p := by
  induction e with
  | absent => trivial
  | node t l r ihl ihr =>
    obtain ⟨-, hleft, hright, hl, hr⟩ := h
    exact ⟨.inr hleft, .inr hright, ihl hl, ihr hr⟩

/-- What the first operand of an assignment, increment or decrement names, the token writes. -/
theorem Linked.assignsAt (h : (node t l r).Linked p)
    (hkind : (p.isAssignment t || p.isStep t) = true) (hv : l.trackedVar? p = some v) :
    p.assignsAt t = some v := by
  have hleft : l.token? = (p.token t).left := by
    refine h.1.resolve_left ?_
    rintro rfl
    cases hv
  rw [Program.assignsAt, if_pos hkind, ← hleft]
  exact hv

end Expr

theorem Program.linked_exprWithin (p : Program) (depth : Nat) (o : Option TokenId) :
    (p.exprWithin depth o).Linked p := by
  have htop : ∀ (depth : Nat) (o : Option TokenId),
      p.exprWithin depth o = .absent ∨ (p.exprWithin depth o).token? = o := by
    intro depth o
    cases depth with
    | zero => exact .inl rfl
    | succ depth => cases o <;> exact .inr rfl
  induction depth generalizing o with
  | zero => trivial
  | succ depth ih =>
    cases o with
    | none => trivial
    | some t => exact ⟨htop depth _, htop depth _, ih _, ih _⟩

/-- The links of a program are all that its expressions show. -/
theorem Program.linked_expr (p : Program) (t : TokenId) : (p.expr t).Linked p :=
  p.linked_exprWithin _ _

/-! ### Operations -/

namespace Program

variable {p : Program} {t : TokenId} {l r : Expr}

theorem text_ne_of_isAssignment (h : p.isAssignment t = true) {op : String}
    (hop : op ∉ assignmentOperators) : p.text t ≠ op := by
  rintro rfl
  simp [isAssignment, hop] at h

theorem isCall_eq_false_of_text (h : p.text t ≠ "(") : p.isCall t = false := by
  simp [isCall, h]

/-- What is known of a node once its operation is. -/
theorem operation_cases (p : Program) (t : TokenId) (l r : Expr) :
    match p.operation t l r with
    | .leaf => l = .absent ∧ r = .absent
    | .cast => p.isCast t = true
    | .assignment => p.isAssignment t = true ∧ p.isCall t = false
    | .increment => p.isStep t = true ∧ p.isAssignment t = false ∧ p.isCall t = false
    | .sizeQuery => p.isSizeQuery t = true
    | .call => p.isCall t = true ∧ p.isSizeQuery t = false
    | .choice => p.text t = "?"
    | .shortCircuit => p.text t = "&&" ∨ p.text t = "||"
    | .unary => r = .absent ∧ l ≠ .absent
    | .comma => p.text t = "," ∧ r ≠ .absent
    | .member => p.isMemberAccess t = true ∧ r ≠ .absent
    | .binary => r ≠ .absent := by
  unfold operation
  extract_lets op
  by_cases hleaf : l.isAbsent ∧ r.isAbsent
  · rw [if_pos hleaf]
    simpa using hleaf
  rw [if_neg hleaf]
  by_cases hcast : p.isCast t
  · rw [if_pos hcast]
    exact hcast
  rw [if_neg hcast]
  by_cases hassign : p.isAssignment t
  · rw [if_pos hassign]
    exact ⟨hassign, isCall_eq_false_of_text (text_ne_of_isAssignment hassign (by decide))⟩
  rw [if_neg hassign]
  by_cases hstep : p.isStep t
  · rw [if_pos hstep]
    refine ⟨hstep, by simpa using hassign, isCall_eq_false_of_text ?_⟩
    intro hparen
    simp [isStep, hparen] at hstep
  rw [if_neg hstep]
  by_cases hsize : p.isSizeQuery t
  · rw [if_pos hsize]
    exact hsize
  rw [if_neg hsize]
  by_cases hcall : p.isCall t
  · rw [if_pos hcall]
    exact ⟨hcall, by simpa using hsize⟩
  rw [if_neg hcall]
  by_cases hchoice : op = "?"
  · rw [if_pos hchoice]
    exact hchoice
  rw [if_neg hchoice]
  by_cases hshort : op = "&&" ∨ op = "||"
  · rw [if_pos hshort]
    exact hshort
  rw [if_neg hshort]
  by_cases hunary : r.isAbsent
  · rw [if_pos hunary]
    have hr : r = .absent := by simpa using hunary
    exact ⟨hr, fun hl => hleaf (by simp [hl, hr])⟩
  have hr : r ≠ .absent := by simpa using hunary
  rw [if_neg hunary]
  by_cases hcomma : op = ","
  · rw [if_pos hcomma]
    exact ⟨hcomma, hr⟩
  rw [if_neg hcomma]
  by_cases hmember : p.isMemberAccess t
  · rw [if_pos hmember]
    exact ⟨hmember, hr⟩
  · rw [if_neg hmember]
    exact hr

/-- Whatever is not a single token has a first operand. -/
theorem exists_left (h : (Expr.node t l r).WellFormed p) (hop : p.operation t l r ≠ .leaf) :
    ∃ u, l.token? = some u := by
  cases hu : l.token? with
  | some u => exact ⟨u, rfl⟩
  | none =>
    obtain ⟨ht, hl, hr, -, -⟩ := h
    rw [hu] at hl
    have hright : (p.token t).right = none := Decidable.not_not.1 fun h => ht.first h hl.symm
    rw [hright, Expr.token?_eq_none_iff] at hr
    rw [Expr.token?_eq_none_iff] at hu
    subst hu hr
    exact absurd rfl hop

/-- The operation of a node whose token is spelled like none of the writes, steps and calls. -/
theorem operation_of_text {op : String} (hcast : p.isCast t = false)
    (hleaf : ¬ (l.isAbsent ∧ r.isAbsent)) (htext : p.text t = op)
    (hop : op ∉ "++" :: "--" :: "(" :: assignmentOperators) :
    p.operation t l r =
      if op = "?" then .choice
      else if op = "&&" ∨ op = "||" then .shortCircuit
      else if r.isAbsent then .unary
      else if op = "," then .comma
      else if p.isMemberAccess t then .member
      else .binary := by
  simp only [List.mem_cons, not_or] at hop
  obtain ⟨hinc, hdec, hparen, hassign⟩ := hop
  have hassign' : p.isAssignment t = false := by
    unfold isAssignment
    rw [htext]
    simp [hassign]
  have hcall : p.isCall t = false := isCall_eq_false_of_text (by rw [htext]; exact hparen)
  have hsize : p.isSizeQuery t = false := by simp [isSizeQuery, hcall]
  have hstep : p.isStep t = false := by simp [isStep, htext, hinc, hdec]
  unfold operation
  rw [htext, if_neg hleaf]
  simp [hcast, hassign', hstep, hsize, hcall]

theorem operation_of_equality (hcast : p.isCast t = false)
    (htext : p.text t = "==" ∨ p.text t = "!=") (hl : l ≠ .absent) (hr : r ≠ .absent) :
    p.operation t l r = .binary := by
  have hleaf : ¬ (l.isAbsent ∧ r.isAbsent) := by simp [hl]
  rcases htext with htext | htext
  · rw [operation_of_text hcast hleaf htext (by decide)]
    simp [hr, isMemberAccess, htext]
  · rw [operation_of_text hcast hleaf htext (by decide)]
    simp [hr, isMemberAccess, htext]

theorem operation_of_not (hcast : p.isCast t = false) (htext : p.text t = "!")
    (hl : l ≠ .absent) : p.operation t l .absent = .unary := by
  rw [operation_of_text hcast (by simp [hl]) htext (by decide)]
  simp

theorem operation_of_shortCircuit {isAnd : Bool} (hcast : p.isCast t = false)
    (htext : p.text t = if isAnd then "&&" else "||") (hleaf : ¬ (l = .absent ∧ r = .absent)) :
    p.operation t l r = .shortCircuit := by
  have hleaf' : ¬ (l.isAbsent ∧ r.isAbsent) := by simpa using hleaf
  cases isAnd
  · rw [operation_of_text hcast hleaf' htext (by decide)]
    simp
  · rw [operation_of_text hcast hleaf' htext (by decide)]
    simp

theorem operation_of_isCast (hcast : p.isCast t = true) (hl : l ≠ .absent) :
    p.operation t l r = .cast := by
  unfold operation
  simp [hl, hcast]

theorem operation_of_isStep (hstep : p.isStep t = true) (hcast : p.isCast t = false)
    (hl : l ≠ .absent) : p.operation t l r = .increment := by
  have htext : p.text t = "++" ∨ p.text t = "--" := by simpa [isStep] using hstep
  have hassign : p.isAssignment t = false := by
    unfold isAssignment
    rcases htext with htext | htext
    · rw [htext]
      rfl
    · rw [htext]
      rfl
  unfold operation
  simp [hl, hcast, hassign, hstep]

end Program

end DivisorCheck
