/-
  `FlowGraph.ofBody` — the control-flow graph of a function body.

  The tokens of the body are read one statement at a time, by recursive descent.
  Reading a statement takes the block that is live before it, or none if no path
  gets there, and yields the token after the statement with the block that is
  live after it, or none if every path has left through a jump.

  A condition has a block of its own, holding exactly the tokens of its header;
  the edges that leave it tell what was decided.  A `goto` is resolved at the end,
  to the exit if its label is nowhere, and every block of a `try` body may pass to
  each of its handlers.

  Links and chains of tokens that run in circles would keep the reader busy for
  ever.  Which tokens a statement takes depends on where it starts, on the token
  that limits it and on whether a `switch` is around it; so beyond as many nested
  statements as there are such combinations, or as many statements in a row as
  there are tokens, the reader has run in a circle and gives up.

  This is the only bound on how deep statements may stand in each other.  What runs
  the reader may have another one, on recursion; it is taken not to be reached, here
  and where expressions and settings are read.
-/
import DivisorCheck.Flow.Chain
import DivisorCheck.Flow.Graph

namespace DivisorCheck

/-! ### Errors -/

/-- What a body lacks where a statement needs it. -/
inductive BodyFault where
  | unmatchedBrace
  | noParenthesis (keyword : String)
  | noWhile
  | noColon (label : String)
  | noTryBody
  | noCatchBody
deriving DecidableEq, Repr

/-- The text of the fault. -/
def BodyFault.message : BodyFault → String
  | unmatchedBrace => "unmatched '\x7b'"
  | noParenthesis keyword => "expected '(' after '" ++ keyword ++ "'"
  | noWhile => "expected 'while' after 'do' body"
  | noColon label => "expected ':' after '" ++ label ++ "'"
  | noTryBody => "expected '\x7b' after 'try'"
  | noCatchBody => "expected '\x7b' after 'catch (...)'"

/-- A file and a line. -/
structure Place where
  file : String
  line : Int
deriving DecidableEq, Repr

/-- A place that may be unknown, in a message. -/
def Place.text : Option Place → String
  | some p => p.file ++ ":" ++ toString p.line
  | none => "?:?"

/-- Why a body has no graph. -/
inductive BodyError where
  /-- a statement lacks something -/
  | malformed (fault : BodyFault) (place : Option Place)
  /-- a statement is due where there is no token -/
  | missingStatement
  /-- the links run in a circle -/
  | endless
deriving DecidableEq, Repr

/-! ### The state of reading -/

/-- What has been built so far. -/
structure BodyBuilder where
  graph : FlowGraph
  /-- the blocks of labels, a later one first -/
  labels : List (String × BlockId) := []
  /-- the blocks that end in a jump to a label -/
  gotos : List (BlockId × String) := []

/-- A step of building. -/
abbrev Build := StateT BodyBuilder (Except BodyError)

/-- Where jumps lead from inside the statements around. -/
structure JumpTargets where
  breakTo : Option BlockId := none
  continueTo : Option BlockId := none
  /-- the dispatch block of the innermost `switch` -/
  dispatch : Option BlockId := none
  /-- the handlers of the innermost `try` -/
  handlers : Option (List BlockId) := none

/-- What is left of the chain after a statement, and the block that is live there. -/
abbrev AfterStatement := Option TokenId × Option BlockId

/-- How to read one statement: inside which others, up to which token, from which token, and with
which live block. -/
abbrev StatementReader :=
  JumpTargets → TokenId → Option TokenId → Option BlockId → Build AfterStatement

namespace Build

/-- Adds a block. -/
def newBlock (kind : BlockKind) (tokens : List TokenId := []) : Build BlockId :=
  modifyGet (fun s =>
    let (b, graph) := s.graph.newBlock kind tokens
    (b, { s with graph }))

/-- Adds an edge. -/
def edge (src dst : BlockId) (kind : EdgeKind := .fallThrough) (label : Option String := none)
    (value : Option TokenId := none) : Build Unit :=
  modify (fun s => { s with graph := (s.graph.addEdge { src, dst, kind, label, value }).2 })

/-- Adds an edge from a block that may be missing. -/
def edgeFrom (src : Option BlockId) (dst : BlockId) (kind : EdgeKind := .fallThrough) :
    Build Unit :=
  match src with
  | some src => edge src dst kind
  | none => pure ()

/-- Adds tokens to a block. -/
def append (b : BlockId) (ts : List TokenId) : Build Unit :=
  modify (fun s => { s with graph := s.graph.appendTokens b ts })

/-- The live block, or a new one for code that no path reaches. -/
def live (block : Option BlockId) : Build BlockId :=
  match block with
  | some b => pure b
  | none => newBlock .unreachable

/-- Joins the ends that are live in a new block; there is none if no end is live. -/
def merge (kind : BlockKind) (ends : List (Option BlockId)) : Build (Option BlockId) := do
  match ends.filterMap id with
  | [] => pure none
  | live =>
    let merged ← newBlock kind
    live.forM (fun b => edge b merged)
    pure (some merged)

/-- Gives up on the body, pointing at a token. -/
def malformed {α : Type} (p : Program) (fault : BodyFault) (at' : Option TokenId) : Build α :=
  throw (.malformed fault (at'.map (fun t => ⟨(p.token t).file, (p.token t).line⟩)))

/-- What stands in the parentheses after a keyword, and the token after them. -/
def header (p : Program) (keyword : String) (paren : Option TokenId) :
    Build (List TokenId × Option TokenId) :=
  match paren with
  | none => malformed p (.noParenthesis keyword) none
  | some t =>
    match if p.text t = "(" then (p.token t).link else none with
    | none => malformed p (.noParenthesis keyword) (some t)
    | some close => pure (p.between (p.nextOf t) (some close), p.nextOf close)

/-- A block for the header after a keyword, entered from the live block, and the token after the
header. -/
def conditionBlock (p : Program) (kind : BlockKind) (keyword : String) (paren : Option TokenId)
    (current : Option BlockId) : Build (BlockId × Option TokenId) := do
  let (inside, after) ← header p keyword paren
  let cond ← newBlock kind inside
  edgeFrom current cond
  pure (cond, after)

end Build

/-! ### Statements, given how to read those inside them -/

namespace Body

open Build

variable (p : Program) (read : StatementReader)

/-- Reads statements up to a token, at most `fuel` of them. -/
def statements (targets : JumpTargets) (limit : TokenId) :
    Nat → Option TokenId → Option BlockId → Build (Option BlockId)
  | 0, _, _ => throw .endless
  | _ + 1, none, current => pure current
  | fuel + 1, some t, current => do
    if t = limit then pure current
    else
      let (next, current) ← read targets limit (some t) current
      statements targets limit fuel next current

/-- `case e:` and `default:` -/
def caseLabel (dispatch : BlockId) (limit t : TokenId) (current : Option BlockId) :
    Build AfterStatement := do
  let (block, colon) ←
    if p.text t = "default" then do
      let block ← newBlock .defaultLabel
      edge dispatch block .switchDefault
      pure (block, p.nextOf t)
    else do
      let (ts, colon) := p.labelTokens limit p.tokens.size 0 (p.nextOf t)
      let block ← newBlock .caseLabel
      edge dispatch block .switchCase (some (" ".intercalate (ts.map p.text))) (p.labelValue? ts)
      pure (block, colon)
  match colon with
  | some c =>
    if p.text c = ":" then
      edgeFrom current block
      pure (p.nextOf c, some block)
    else malformed p (.noColon (p.text t)) (some t)
  | none => malformed p (.noColon (p.text t)) (some t)

/-- `if (c) s` and `if (c) s else s` -/
def ifStatement (targets : JumpTargets) (limit t : TokenId) (current : Option BlockId) :
    Build AfterStatement := do
  let paren := p.nextOf t
  let paren := if p.textOf paren = "constexpr" then paren.bind p.nextOf else paren
  let (cond, start) ← conditionBlock p .ifCondition "if" paren current
  let trueBlock ← newBlock .ifTrue
  edge cond trueBlock .branchTrue
  let (next, trueEnd) ← read targets limit start (some trueBlock)
  if p.textOf next = "else" then
    let falseBlock ← newBlock .ifFalse
    edge cond falseBlock .branchFalse
    let (next, falseEnd) ← read targets limit (next.bind p.nextOf) (some falseBlock)
    let merged ← merge .ifMerge [trueEnd, falseEnd]
    pure (next, merged)
  else
    let merged ← newBlock .ifMerge
    edge cond merged .branchFalse
    edgeFrom trueEnd merged
    pure (next, some merged)

/-- Reads the body of a loop and closes the circle. -/
def loopBody (targets : JumpTargets) (limit : TokenId) (start : Option TokenId)
    (body back after : BlockId) (kind : EdgeKind) : Build (Option TokenId) := do
  let inside := { targets with breakTo := some after, continueTo := some back }
  let (next, bodyEnd) ← read inside limit start (some body)
  edgeFrom bodyEnd back kind
  pure next

/-- `while (c) s` -/
def whileStatement (targets : JumpTargets) (limit t : TokenId) (current : Option BlockId) :
    Build AfterStatement := do
  let (cond, start) ← conditionBlock p .loopCondition "while" (p.nextOf t) current
  let after ← newBlock .loopAfter
  let body ← newBlock .loopBody
  edge cond body .branchTrue
  edge cond after .branchFalse
  let next ← loopBody read targets limit start body cond after .backEdge
  pure (next, some after)

/-- `for (d : r) s`, and every other header that has not three parts -/
def forRange (targets : JumpTargets) (limit : TokenId) (start : Option TokenId)
    (inside : List TokenId) (after : BlockId) (current : Option BlockId) :
    Build AfterStatement := do
  let cond ← newBlock .forRange inside
  edgeFrom current cond
  let body ← newBlock .loopBody
  edge cond body .branchTrue
  edge cond after .branchFalse
  let next ← loopBody read targets limit start body cond after .backEdge
  pure (next, some after)

/-- `for (i; c; s) s` -/
def forThree (targets : JumpTargets) (limit : TokenId) (start : Option TokenId)
    (initTokens condTokens stepTokens : List TokenId) (after : BlockId) (current : Option BlockId) :
    Build AfterStatement := do
  let init ← newBlock .forInit initTokens
  edgeFrom current init
  let cond ← newBlock .loopCondition condTokens
  edge init cond
  let step ← newBlock .forStep stepTokens
  let body ← newBlock .loopBody
  edge cond body .branchTrue
  if condTokens ≠ [] then edge cond after .branchFalse
  let next ← loopBody read targets limit start body step after .fallThrough
  edge step cond .backEdge
  pure (next, some after)

/-- `for (…) s` -/
def forStatement (targets : JumpTargets) (limit t : TokenId) (current : Option BlockId) :
    Build AfterStatement := do
  let (inside, start) ← header p "for" (p.nextOf t)
  let after ← newBlock .loopAfter
  match p.headerParts 0 inside with
  | (initTokens, [condTokens, stepTokens]) =>
    forThree read targets limit start initTokens condTokens stepTokens after current
  | _ => forRange read targets limit start inside after current

/-- `do s while (c);` -/
def doStatement (targets : JumpTargets) (limit t : TokenId) (current : Option BlockId) :
    Build AfterStatement := do
  let body ← newBlock .loopBody
  edgeFrom current body
  let cond ← newBlock .loopCondition
  let after ← newBlock .loopAfter
  let next ← loopBody read targets limit (p.nextOf t) body cond after .fallThrough
  if p.textOf next ≠ "while" then malformed p .noWhile next
  else
    let (inside, next) ← header p "while" (next.bind p.nextOf)
    append cond inside
    edge cond body .branchTrue
    edge cond after .branchFalse
    let next := if p.textOf next = ";" then next.bind p.nextOf else next
    pure (next, some after)

/-- `switch (e) s`.  What comes before the first label is dead, and without a `default` the dispatch
may pass the body by. -/
def switchStatement (targets : JumpTargets) (limit t : TokenId) (current : Option BlockId) :
    Build AfterStatement := do
  let (dispatch, start) ← conditionBlock p .switchDispatch "switch" (p.nextOf t) current
  let after ← newBlock .switchAfter
  let inside := { targets with breakTo := some after, dispatch := some dispatch }
  let (next, bodyEnd) ← read inside limit start none
  edgeFrom bodyEnd after
  let g := (← get).graph
  if ¬ (g.succEdges dispatch).any (·.kind == .switchDefault) then edge dispatch after .switchDefault
  pure (next, some after)

/-- Where the body of a handler starts: at a brace with a partner. -/
def braced? (start : Option TokenId) : Option (TokenId × TokenId) :=
  match start with
  | none => none
  | some t => if p.text t = "\x7b" then (p.token t).link.map (fun close => (t, close)) else none

/-- The handlers of a `try`, from the token after its body on: where each body starts and its block.
Also yields the token after them all. -/
def handlers : Nat → Option TokenId → Build (List (TokenId × BlockId) × Option TokenId)
  | 0, _ => throw .endless
  | _ + 1, none => pure ([], none)
  | fuel + 1, some t => do
    if p.text t ≠ "catch" then pure ([], some t)
    else
      let (_, start) ← header p "catch" (p.nextOf t)
      match braced? p start with
      | none => malformed p .noCatchBody (some t)
      | some (brace, close) =>
        let block ← newBlock .catchBody
        let (rest, next) ← handlers fuel (p.nextOf close)
        pure ((brace, block) :: rest, next)

/-- Reads the bodies of handlers and yields their ends. -/
def handlerBodies (targets : JumpTargets) (limit : TokenId) :
    List (TokenId × BlockId) → Build (List (Option BlockId))
  | [] => pure []
  | (brace, block) :: rest => do
    let (_, bodyEnd) ← read targets limit (some brace) (some block)
    let ends ← handlerBodies targets limit rest
    pure (bodyEnd :: ends)

/-- Can an exception leave the block?  Not if it is dead code that nothing enters. -/
def mayThrow (g : FlowGraph) (b : BlockId) : Bool :=
  !((g.block b).kind == .unreachable && (g.block b).preds.isEmpty)

/-- `try { … } catch (…) { … } …` -/
def tryStatement (targets : JumpTargets) (limit t : TokenId) (current : Option BlockId) :
    Build AfterStatement := do
  match braced? p (p.nextOf t) with
  | none => malformed p .noTryBody (some t)
  | some (brace, close) =>
    let tryBlock ← newBlock .tryBody
    edgeFrom current tryBlock
    let (clauses, next) ← handlers p (p.tokens.size + 1) (p.nextOf close)
    let handlers := clauses.map (·.2)
    let mark := (← get).graph.nodes.length
    let inside := { targets with handlers := some handlers }
    let (_, bodyEnd) ← read inside limit (some brace) (some tryBlock)
    let g := (← get).graph
    let throwing := (tryBlock :: g.nodes.drop mark).filter (mayThrow g)
    throwing.forM (fun b => handlers.forM (fun h => edge b h .exception))
    let ends ← handlerBodies read targets limit clauses
    let merged ← merge .tryAfter (bodyEnd :: ends)
    pure (next, merged)

/-- The statements that leave the block they stand in. -/
def isJump (s : String) : Bool := s ∈ ["return", "throw", "break", "continue", "goto"]

/-- `return`, `throw`, `break`, `continue` and `goto` -/
def jumpStatement (targets : JumpTargets) (limit t : TokenId) (current : Option BlockId) :
    Build AfterStatement := do
  let (ts, after) := p.statementTokens limit (p.tokens.size + 1) (some t)
  let block ← live current
  append block ts
  let exit := (← get).graph.exit
  match p.text t with
  | "return" =>
    modify (fun s => { s with graph := s.graph.setKind block .returning })
    edge block exit .returnOut
  | "throw" => (targets.handlers.getD [exit]).forM (fun h => edge block h .exception)
  | "break" => edge block (targets.breakTo.getD exit) .breakOut
  | "continue" => edge block (targets.continueTo.getD exit) .continueLoop
  | _ => modify (fun s => { s with gotos := s.gotos ++ [(block, p.textOf (p.nextOf t))] })
  pure (after, none)

/-- A label, without the statement after it. -/
def labelStatement (t : TokenId) (after : Option TokenId) (current : Option BlockId) :
    Build AfterStatement := do
  let block ← newBlock .label
  edgeFrom current block
  modify (fun s => { s with labels := (p.text t, block) :: s.labels })
  pure (after, some block)

/-- A statement of any other kind. -/
def plainStatement (limit t : TokenId) (current : Option BlockId) : Build AfterStatement := do
  let (ts, after) := p.statementTokens limit (p.tokens.size + 1) (some t)
  let block ← live current
  append block ts
  pure (after, some block)

/-- Reads one statement, given how to read those inside it. -/
def statementWith : StatementReader := fun targets limit tok current =>
  match tok with
  | none => throw .missingStatement
  | some t =>
    let s := p.text t
    let next := p.nextOf t
    let isCase := s == "case" || s == "default"
    if s = "\x7b" then
      match (p.token t).link with
      | none => malformed p .unmatchedBrace (some t)
      | some close => do
        let block ← statements read targets close (p.tokens.size + 1) next current
        pure (p.nextOf close, block)
    else if s = ";" then pure (next, current)
    else if isCase && targets.dispatch.isSome then
      caseLabel p (targets.dispatch.getD 0) limit t current
    else if (p.token t).isName && p.textOf next == ":" && !isCase then
      labelStatement p t (next.bind p.nextOf) current
    else if s = "if" then ifStatement p read targets limit t current
    else if s = "while" then whileStatement p read targets limit t current
    else if s = "for" then forStatement p read targets limit t current
    else if s = "do" then doStatement p read targets limit t current
    else if s = "switch" then switchStatement p read targets limit t current
    else if s = "try" then tryStatement p read targets limit t current
    else if isJump s then jumpStatement p targets limit t current
    else plainStatement p limit t current

/-- Reads one statement, with others inside it to the given depth. -/
def statement : Nat → StatementReader
  | 0, _, _, _, _ => throw .endless
  | depth + 1, targets, limit, tok, current =>
    statementWith p (statement depth) targets limit tok current

/-- The greatest depth of statements in each other that links without circles allow. -/
def depthLimit : Nat := 2 * (p.tokens.size + 2) * (p.tokens.size + 2)

/-- Reads a body from the token after its opening brace to its closing one. -/
def body (start : Option TokenId) (limit : TokenId) : Build Unit := do
  let first ← newBlock .body
  let g := (← get).graph
  edge g.entry first
  let last ← statements (statement p (depthLimit p)) {} limit (p.tokens.size + 1) start (some first)
  edgeFrom last g.exit
  let s ← get
  s.gotos.forM (fun (block, label) =>
    edge block (((s.labels.find? (·.1 == label)).map (·.2)).getD g.exit) .goto)

end Body

/-! ### Functions -/

namespace Program

variable (p : Program)

/-- The scope of a function's body: the one that names the function, else the first that has its
name and its number. -/
def functionScope? (f : FunctionId) : Option ScopeId :=
  let fn := p.function f
  let scopes := List.range p.scopes.size
  (scopes.find? (fun s => (p.scope s).kind == "Function" && (p.scope s).function == some f)).or
    (scopes.find? (fun s =>
      let scope := p.scope s
      scope.kind == "Function" && scope.className == fn.name && scope.functionId == fn.id))

/-- The first and the last token of a function's body, braces included. -/
def functionBody? (f : FunctionId) : Option (TokenId × TokenId) := do
  let scope := p.scope (← p.functionScope? f)
  let first ← scope.bodyStart
  let last ← scope.bodyEnd
  return (first, last)

end Program

/-- The control-flow graph of a body given by its braces. -/
def FlowGraph.ofBody (p : Program) (name : Option String) (first last : TokenId) :
    Except BodyError FlowGraph :=
  ((Body.body p (p.nextOf first) last).run { graph := .init name }).map (·.2.graph)

/-- The control-flow graph of a function, if it has a body. -/
def Program.flowGraph (p : Program) (f : FunctionId) : Except BodyError (Option FlowGraph) :=
  match p.functionBody? f with
  | none => .ok none
  | some (first, last) => (FlowGraph.ofBody p (p.function f).name first last).map some

end DivisorCheck
