/-
  Evaluation: runs an expression on tags.

  Evaluating an expression gives its tag, changes the store as the assignments,
  steps and calls in it do, and leaves a tag on every token of it.  Operands are
  taken in the order in which the analysed program takes them, except that the
  target of a plain assignment, which is not read, comes after the value, and
  only if it has no tag yet.

  The sites of division are collected on the way: a division token is listed
  each time that it receives a tag.

  Expressions may be as deep as they like, no limit on recursion being reached.  The
  values that the front end has found for tokens are taken to be integers; where one
  has no integer part, nothing is known of the token.
-/
import DivisorCheck.Expr.Narrowing
import DivisorCheck.Expr.Operation
import DivisorCheck.Program.Roots
import DivisorCheck.Tag.Arithmetic

namespace DivisorCheck

/-! ### Annotations -/

/-- The tags of tokens, in the order in which they first received one. -/
structure Annotations where
  entries : List (TokenId × Tag) := []
deriving Repr, Inhabited, DecidableEq

namespace Annotations

/-- Puts a tag into a list, in place of a former one and at the end otherwise. -/
def insertEntry (t : TokenId) (tag : Tag) : List (TokenId × Tag) → List (TokenId × Tag)
  | [] => [(t, tag)]
  | (u, old) :: rest => if u = t then (u, tag) :: rest else (u, old) :: insertEntry t tag rest

/-- The tag in a list. -/
def lookupTag? (t : TokenId) : List (TokenId × Tag) → Option Tag
  | [] => none
  | (u, tag) :: rest => if u = t then some tag else lookupTag? t rest

/-- Gives a token a tag. -/
def insert (a : Annotations) (t : TokenId) (tag : Tag) : Annotations :=
  ⟨insertEntry t tag a.entries⟩

/-- The tag of a token, if it has one. -/
def get? (a : Annotations) (t : TokenId) : Option Tag := lookupTag? t a.entries

/-- Has the token a tag? -/
def contains (a : Annotations) (t : TokenId) : Bool := (a.get? t).isSome

/-- The tokens with a tag. -/
def tokens (a : Annotations) : List TokenId := a.entries.map (·.1)

/-- Adds the tags of `b`, which win. -/
def union (a b : Annotations) : Annotations :=
  b.entries.foldl (fun a e => a.insert e.1 e.2) a

theorem get?_insert (a : Annotations) (t u : TokenId) (tag : Tag) :
    (a.insert t tag).get? u = if t = u then some tag else a.get? u := by
  obtain ⟨l⟩ := a
  simp only [insert, get?]
  induction l with
  | nil => simp [insertEntry, lookupTag?]
  | cons e l ih =>
    obtain ⟨v, old⟩ := e
    simp only [insertEntry]
    by_cases hvt : v = t
    · subst hvt; by_cases hvu : v = u <;> simp [lookupTag?, hvu]
    · by_cases hvu : v = u
      · have htu : t ≠ u := fun h => hvt (hvu.trans h.symm)
        rw [if_neg hvt, if_neg htu]
        simp [lookupTag?, hvu]
      · simp [lookupTag?, hvt, hvu, ih]

end Annotations

/-! ### States -/

/-- What evaluation works with and does not change. -/
structure EvalContext where
  program : Program
  /-- the variables that calls and indirect writes may change -/
  escaped : List VarId := []
  /-- whether known values stand in for tags that are `top` -/
  useFlowValues : Bool := false

/-- What evaluation changes. -/
structure EvalState where
  store : Store := .top
  annotations : Annotations := {}
  sites : Array TokenId := #[]

/-- One step of evaluation. -/
abbrev EvalStep := EvalState → Tag × EvalState

/-- How the commas of an expression are to be read: as operators, or as what separates the
arguments of a call. -/
inductive CommaRole where
  | operator
  | separator
deriving DecidableEq

namespace EvalContext

variable (cx : EvalContext)

/-- Leaves a tag on a token. -/
def annotate (t : TokenId) (tag : Tag) (st : EvalState) : EvalState :=
  { st with
    annotations := st.annotations.insert t tag
    sites := if cx.program.isDivision t then st.sites.push t else st.sites }

/-- Leaves a tag on the top of an expression, if there is one. -/
def annotateTop (e : Expr) (tag : Tag) (st : EvalState) : EvalState :=
  match e.token? with
  | some t => cx.annotate t tag st
  | none => st

/-- Marks a whole expression as never run. -/
def annotateUnreachable (e : Expr) (st : EvalState) : EvalState :=
  e.tokens.foldl (fun st t => cx.annotate t .bottom st) st

/-- Forgets the variables that escape. -/
def havocEscaped (st : EvalState) : EvalState := { st with store := st.store.havoc cx.escaped }

/-- A known value in place of a tag that is `top`. -/
def withFlowValue (t : TokenId) (tag : Tag) : Tag :=
  if tag = .top ∧ cx.useFlowValues then
    match cx.program.knownInteger t with
    | .ok (some n) => .ofInt n
    | _ => .top
  else tag

/-- The tag of a single token: that of a literal, or what the store knows of a variable. -/
def leafTag (t : TokenId) (st : EvalState) : Tag :=
  match cx.program.literalTag? t with
  | some tag => tag
  | none =>
    match cx.program.trackedVar? t with
    | some v => st.store.get v
    | none => .top

/-! ### Operators, given how to evaluate their operands -/

/-- Writes to a target.  A tracked variable takes the tag; any other target is evaluated if it has
no tag yet, and unless it is a plain name, whatever escapes may have changed. -/
def write (target : Expr) (evalTarget : EvalStep) (tag : Tag) (st : EvalState) : EvalState :=
  match target.trackedVar? cx.program with
  | some v => cx.annotateTop target tag { st with store := st.store.set v tag }
  | none =>
    match target.token? with
    | none => cx.havocEscaped st
    | some t =>
      let st := if st.annotations.contains t then st else (evalTarget st).2
      if cx.program.namesPlainly t then st else cx.havocEscaped st

/-- The operator of a compound assignment such as `+=`. -/
def compoundOperator (op : String) : String := String.ofList op.toList.dropLast

/-- The tag of an operator with two operands, from theirs. -/
def binaryTag (op : String) (a b : Tag) : Tag :=
  match Tag.binary? op with
  | some f => f a b
  | none => .unknown [a, b]

/-- An assignment. -/
def evalAssignment (op : String) (target : Expr) (evalTarget evalValue : EvalStep) : EvalStep :=
  fun st =>
    if op = "=" then
      let (tag, st) := evalValue st
      (tag, cx.write target evalTarget tag st)
    else
      let (old, st) := evalTarget st
      let (operand, st) := evalValue st
      let tag := binaryTag (compoundOperator op) old operand
      (tag, cx.write target evalTarget tag st)

/-- An increment or decrement, which yields the old tag if it is postfix. -/
def evalIncrement (isPostfix : Bool) (target : Expr) (evalTarget : EvalStep) : EvalStep := fun st =>
  let (old, st) := evalTarget st
  let new := old.add .nonZero
  (if isPostfix then old else new, cx.write target evalTarget new st)

/-- A question about the size of an operand, which is never run. -/
def evalSizeQuery (callee operand : Expr) : EvalStep := fun st =>
  (.nonZero, cx.annotateUnreachable operand (cx.annotateTop callee .top st))

/-- A call.  It may change what escapes and what it has references to. -/
def evalCall (call : Expr) (callee : Expr) (evalCallee evalArguments : EvalStep) : EvalStep :=
  fun st =>
    let st := cx.annotateTop callee .top st
    let st := if callee.isLeaf then st else (evalCallee st).2
    let (tag, st) := evalArguments st
    let st := cx.havocEscaped st
    (.unknown [tag], { st with store := st.store.havoc (call.lentVars cx.program) })

/-- `c ? a : b`.  Each arm runs on the store narrowed by the condition. -/
def evalConditional (cond : Expr) (colon : TokenId) (evalCond evalThen evalElse : EvalStep) :
    EvalStep := fun st =>
  let (_, st) := evalCond st
  let after := st.store
  let narrowed := fun holds => cond.narrowBy cx.program cx.escaped holds after
  let (a, st) := evalThen { st with store := narrowed true }
  let thenStore := st.store
  let (b, st) := evalElse { st with store := narrowed false }
  (a.join b, cx.annotate colon (a.join b) { st with store := thenStore.join st.store })

/-- `a && b` and `a || b`.  The second operand runs on the store narrowed by the first, or not at
all. -/
def evalShortCircuit (isAnd : Bool) (first : Expr) (evalFirst evalSecond : EvalStep) : EvalStep :=
  fun st =>
    let (a, st) := evalFirst st
    let after := st.store
    let (b, st) := evalSecond
      { st with store := first.narrowBy cx.program cx.escaped isAnd after }
    (if isAnd then a.logicalAnd b else a.logicalOr b, { st with store := after.join st.store })

/-- A prefix operator with one operand. -/
def unaryTag (op : String) (operand : Tag) : Tag :=
  if op = "-" ∨ op = "+" then operand.negate
  else if op = "!" then operand.logicalNot
  else .unknown [operand]

/-- An operator with two operands that are both evaluated, from left to right. -/
def evalBinary (f : Tag → Tag → Tag) (evalLeft evalRight : EvalStep) : EvalStep := fun st =>
  let (a, st) := evalLeft st
  let (b, st) := evalRight st
  (f a b, st)

/-- The operation of a token, given how to evaluate its operands; the second one also as a list of
arguments, and as the arms of a choice. -/
def evalOperation (t : TokenId) (l r : Expr)
    (evalLeft evalRight evalArguments evalChoice : EvalStep) : EvalStep :=
  let p := cx.program
  let op := p.text t
  match p.operation t l r with
  | .leaf => fun st => (cx.leafTag t st, st)
  | .cast => fun st => let (a, st) := evalLeft st; (a.cast, st)
  | .assignment => cx.evalAssignment op l evalLeft evalRight
  | .increment => cx.evalIncrement (p.isPostfix t) l evalLeft
  | .sizeQuery => cx.evalSizeQuery l r
  | .call => cx.evalCall (.node t l r) l evalLeft evalArguments
  | .choice => evalChoice
  | .shortCircuit => cx.evalShortCircuit (op = "&&") l evalLeft evalRight
  | .unary => fun st => let (a, st) := evalLeft st; (unaryTag op a, st)
  | .comma => evalBinary (fun _ b => b) evalLeft evalRight
  | .member => fun st => let (a, st) := evalLeft st; (.unknown [a], cx.annotateTop r .top st)
  | .binary => evalBinary (binaryTag op) evalLeft evalRight

/-! ### Expressions -/

/-- Evaluates an expression.  As an argument list, it yields `unknown` of its arguments. -/
def eval : Expr → CommaRole → EvalStep
  | .absent, _ => fun st => (.top, st)
  | .node t l r, role => fun st =>
    let p := cx.program
    if role = .separator ∧ p.text t = "," ∧ !l.isAbsent ∧ !r.isAbsent then
      evalBinary (fun a b => .unknown [a, b]) (eval l .separator) (eval r .separator)
        (cx.annotate t .top st)
    else if st.store.isUnreachable then (.bottom, cx.annotateUnreachable (.node t l r) st)
    else
      let evalLeft := eval l .operator
      let evalRight := eval r .operator
      let evalChoice : EvalStep :=
        match r with
        | .absent => fun st => (.top, (evalLeft st).2)
        | .node colon a b =>
          if p.text colon = ":" then
            cx.evalConditional l colon evalLeft (eval a .operator) (eval b .operator)
          else evalBinary (fun _ b => .unknown [b]) evalLeft evalRight
      let (tag, st) :=
        cx.evalOperation t l r evalLeft evalRight (eval r .separator) evalChoice st
      let tag := cx.withFlowValue t tag
      (tag, cx.annotate t tag st)
termination_by structural e => e

/-- Evaluates an expression. -/
def evaluate (e : Expr) : EvalStep := cx.eval e .operator

theorem evaluate_leaf {t : TokenId} {st : EvalState} (h : st.store.isUnreachable = false) :
    cx.evaluate (.node t .absent .absent) st =
      (cx.withFlowValue t (cx.leafTag t st), cx.annotate t (cx.withFlowValue t (cx.leafTag t st)) st) := by
  simp only [evaluate]
  unfold eval
  rw [if_neg (fun hs => nomatch hs.1), h]
  rfl

/-- Evaluates one top-level expression of a block; a bare declaration makes its variable unknown. -/
def evalRoot (st : EvalState) (root : TokenId) : EvalState :=
  let p := cx.program
  if st.store.isUnreachable then cx.annotateUnreachable (p.expr root) st
  else if p.isBareDeclaration root then
    let store := match p.trackedVar? root with
      | some v => st.store.forget v
      | none => st.store
    cx.annotate root .top { st with store }
  else (cx.evaluate (p.expr root) st).2

/-- Evaluates the top-level expressions of a stretch of tokens, in order. -/
def evalBlock (ts : List TokenId) (st : EvalState) : EvalState :=
  (cx.program.expressionRoots ts).foldl cx.evalRoot st

end EvalContext

/-- Evaluates an expression that stands outside every function body: nothing is known, and nothing
escapes. -/
def Program.evalStandalone (p : Program) (useFlowValues : Bool) (root : TokenId) : EvalState :=
  let cx : EvalContext := { program := p, useFlowValues }
  (cx.evaluate (p.expr root) {}).2

end DivisorCheck
