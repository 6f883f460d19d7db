/-
  How the analysed program runs an expression.

  `EvalContext.exec` is what `EvalContext.eval` is meant to approximate, and takes
  operands in the same order: an assignment its value before its target, a
  compound one the other way round, `&&`, `||` and `?:` only the operands that
  they need.  Arithmetic is that of the integers, and comparisons and logical
  operators give one or zero.  Everything else is open: a call gives any value
  and may change the variables that escape or that it has references to, a write
  through anything but a plain name may change those that escape, and whatever
  else is read or computed may have any value.  An exception may be raised before
  and after every operator.

  If the front end is trusted to know the values of tokens, only those runs count
  in which they have these values.
-/
import DivisorCheck.Expr.Evaluation
import DivisorCheck.Proofs.Execution.Run

namespace DivisorCheck

/-- The value of a literal. -/
def Program.literalValue? (p : Program) (t : TokenId) : Option Int :=
  match p.integerLiteral? t with
  | some n => some n
  | none => (p.booleanLiteral? t).map Bool.toInt

namespace EvalContext

variable (cx : EvalContext)

/-! ### Operators, given how to run their operands -/

/-- Reads a single token. -/
def execLeaf (t : TokenId) : Run Int :=
  match cx.program.literalValue? t with
  | some n => pure n
  | none =>
    match cx.program.trackedVar? t with
    | some v => Run.read v
    | none => Run.any

/-- The operator of a token with two operands, or the one in a compound assignment. -/
def execBinary (t : TokenId) (op : String) (a b : Int) : Run Int :=
  match op with
  | "+" => pure (a + b)
  | "-" => pure (a - b)
  | "*" => pure (a * b)
  | "/" => if b = 0 then Run.divideByZero t else pure (a.tdiv b)
  | "%" => if b = 0 then Run.divideByZero t else pure (a.tmod b)
  | "==" => pure (decide (a = b)).toInt
  | "!=" => pure (decide (a ≠ b)).toInt
  | "<" => pure (decide (a < b)).toInt
  | "<=" => pure (decide (a ≤ b)).toInt
  | ">" => pure (decide (b < a)).toInt
  | ">=" => pure (decide (b ≤ a)).toInt
  | _ => Run.any

/-- An operator with one operand. -/
def execUnary (op : String) (a : Int) : Run Int :=
  if op = "-" then pure (-a)
  else if op = "+" then pure a
  else if op = "!" then pure (decide (a = 0)).toInt
  else Run.any

/-- Writes to a target.  Only a target that is not a tracked variable is run. -/
def execWrite (target : Expr) (runTarget : Run Int) (n : Int) : Run Unit :=
  match target.trackedVar? cx.program with
  | some v => Run.assign v n
  | none => do
    let _ ← runTarget
    match target.token? with
    | some t => if cx.program.namesPlainly t then pure () else Run.change cx.escaped
    | none => Run.change cx.escaped

/-- An assignment. -/
def execAssignment (t : TokenId) (target : Expr) (runTarget runValue : Run Int) : Run Int :=
  let op := cx.program.text t
  if op = "=" then do
    let n ← runValue
    cx.execWrite target runTarget n
    pure n
  else do
    let old ← runTarget
    let operand ← runValue
    let n ← execBinary t (compoundOperator op) old operand
    cx.execWrite target (pure old) n
    pure n

/-- An increment or decrement. -/
def execIncrement (t : TokenId) (target : Expr) (runTarget : Run Int) : Run Int := do
  let old ← runTarget
  let new := if cx.program.text t = "++" then old + 1 else old - 1
  cx.execWrite target (pure old) new
  pure (if cx.program.isPostfix t then old else new)

/-- A call. -/
def execCall (call callee : Expr) (runCallee runArguments : Run Int) : Run Int := do
  let _ ← (if callee.isLeaf then Run.any else runCallee : Run Int)
  let _ ← runArguments
  Run.change (cx.escaped ++ call.lentVars cx.program)
  Run.any

/-- `c ? a : b` -/
def execConditional (runCond runThen runElse : Run Int) : Run Int := do
  let c ← runCond
  if c ≠ 0 then runThen else runElse

/-- `a && b` and `a || b` -/
def execShortCircuit (isAnd : Bool) (runFirst runSecond : Run Int) : Run Int := do
  let a ← runFirst
  if decide (a ≠ 0) = isAnd then do
    let b ← runSecond
    pure (decide (b ≠ 0)).toInt
  else pure (decide (a ≠ 0)).toInt

/-- The operation of a token, given how to run its operands; the second one also as a list of
arguments, and as the arms of a choice. -/
def execOperation (t : TokenId) (l r : Expr)
    (runLeft runRight runArguments runChoice : Run Int) : Run Int :=
  let p := cx.program
  match p.operation t l r with
  | .leaf => cx.execLeaf t
  | .cast | .member => do
    let _ ← runLeft
    Run.any
  | .assignment => cx.execAssignment t l runLeft runRight
  | .increment => cx.execIncrement t l runLeft
  | .sizeQuery => Run.any
  | .call => cx.execCall (.node t l r) l runLeft runArguments
  | .choice => runChoice
  | .shortCircuit => execShortCircuit (p.text t = "&&") runLeft runRight
  | .unary => do
    let a ← runLeft
    execUnary (p.text t) a
  | .comma => do
    let _ ← runLeft
    runRight
  | .binary => do
    let a ← runLeft
    let b ← runRight
    execBinary t (p.text t) a b

/-- Is it a value that the token may have, if known values are trusted? -/
def Allows (t : TokenId) (n : Int) : Prop :=
  cx.useFlowValues = true → ∀ k, cx.program.knownInteger t = .ok (some k) → n = k

/-! ### Expressions -/

/-- Runs an expression.  As an argument list, it runs its arguments. -/
def exec : Expr → CommaRole → Run Int
  | .absent, _ => Run.any
  | .node t l r, role =>
    if role = .separator ∧ cx.program.text t = "," ∧ !l.isAbsent ∧ !r.isAbsent then do
      let _ ← exec l .separator
      let _ ← exec r .separator
      Run.any
    else
      let runLeft := exec l .operator
      let runRight := exec r .operator
      let runChoice :=
        match r with
        | .absent => do
          let _ ← runLeft
          Run.any
        | .node colon a b =>
          if cx.program.text colon = ":" then
            execConditional runLeft (exec a .operator) (exec b .operator)
          else do
            let _ ← runLeft
            let _ ← runRight
            Run.any
      Run.mayRaise (Run.only (cx.Allows t)
        (cx.execOperation t l r runLeft runRight (exec r .separator) runChoice))
termination_by structural e => e

variable {cx} {t : TokenId}

/-- How a choice runs, given as the two operands of the token. -/
def execChoice (cx : EvalContext) (l : Expr) : Expr → Run Int
  | .absent => do
    let _ ← cx.exec l .operator
    Run.any
  | .node colon a b =>
    if cx.program.text colon = ":" then
      execConditional (cx.exec l .operator) (cx.exec a .operator) (cx.exec b .operator)
    else do
      let _ ← cx.exec l .operator
      let _ ← cx.exec (.node colon a b) .operator
      Run.any

theorem exec_node (t : TokenId) (l r : Expr) (role : CommaRole) :
    cx.exec (.node t l r) role =
      if role = .separator ∧ cx.program.text t = "," ∧ !l.isAbsent ∧ !r.isAbsent then do
        let _ ← cx.exec l .separator
        let _ ← cx.exec r .separator
        Run.any
      else
        Run.mayRaise (Run.only (cx.Allows t) (cx.execOperation t l r (cx.exec l .operator)
          (cx.exec r .operator) (cx.exec r .separator) (cx.execChoice l r))) := by
  cases r <;> rfl

theorem exec_operator (t : TokenId) (l r : Expr) :
    cx.exec (.node t l r) .operator =
      Run.mayRaise (Run.only (cx.Allows t) (cx.execOperation t l r (cx.exec l .operator)
        (cx.exec r .operator) (cx.exec r .separator) (cx.execChoice l r))) := by
  rw [exec_node, if_neg (fun hsep => nomatch hsep.1)]

theorem exec_binary {l r : Expr} (hkind : cx.program.operation t l r = .binary) :
    cx.exec (.node t l r) .operator =
      Run.mayRaise (Run.only (cx.Allows t) (do
        let a ← cx.exec l .operator
        let b ← cx.exec r .operator
        execBinary t (cx.program.text t) a b)) := by
  rw [exec_operator]
  simp only [execOperation, hkind]

/-! ### Runs of single tokens -/

theorem exec_leaf (t : TokenId) (role : CommaRole) :
    cx.exec (.node t .absent .absent) role =
      Run.mayRaise (Run.only (cx.Allows t) (cx.execLeaf t)) := by
  rw [exec_node, if_neg]
  · rfl
  · simp [Expr.isAbsent]

theorem execLeaf_name {v : VarId} (hv : cx.program.trackedVar? t = some v)
    (hlit : cx.program.literalTag? t = none) : cx.execLeaf t = Run.read v := by
  have hnone : cx.program.literalValue? t = none := by
    unfold Program.literalTag? at hlit
    unfold Program.literalValue?
    cases hn : cx.program.integerLiteral? t with
    | some n => simp [hn] at hlit
    | none => simpa [hn] using hlit
  simp [execLeaf, hnone, hv]

theorem execLeaf_literal {n : Int} (hn : cx.program.integerLiteral? t = some n) :
    cx.execLeaf t = pure n := by
  simp [execLeaf, Program.literalValue?, hn]

/-- A name gives the value of its variable. -/
theorem exec_name_iff {v : VarId} {role : CommaRole} {n : Int} {σ σ' : State}
    (hv : cx.program.trackedVar? t = some v) (hlit : cx.program.literalTag? t = none) :
    cx.exec (.node t .absent .absent) role σ (.value n σ') ↔
      (n = σ v ∧ σ' = σ) ∧ cx.Allows t n := by
  rw [exec_leaf, Run.mayRaise_value_iff, Run.only_value_iff, execLeaf_name hv hlit,
    Run.read_value_iff]

theorem exec_literal_iff {k : Int} {role : CommaRole} {n : Int} {σ σ' : State}
    (hk : cx.program.integerLiteral? t = some k) :
    cx.exec (.node t .absent .absent) role σ (.value n σ') ↔
      (n = k ∧ σ' = σ) ∧ cx.Allows t n := by
  rw [exec_leaf, Run.mayRaise_value_iff, Run.only_value_iff, execLeaf_literal hk, Run.pure_iff]
  constructor
  · rintro ⟨heq, hallows⟩
    cases heq
    exact ⟨⟨rfl, rfl⟩, hallows⟩
  · rintro ⟨⟨rfl, rfl⟩, hallows⟩
    exact ⟨rfl, hallows⟩

end EvalContext

end DivisorCheck
