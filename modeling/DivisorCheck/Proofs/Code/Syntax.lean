/-
  `Stmt` — structured programs, spelled in the tokens of a `Program`.

  A statement knows which tokens spell it; its expressions are left as the tokens
  that they consist of.  `Stmt.Rendered` says what the texts and bracket links of
  these tokens must be for the statement to be what the tokens spell.  It decides
  in particular where an `else` belongs: the first branch of a conditional with
  two must not end in a conditional that could take the `else` for itself
  (`Stmt.dangles`).

  That the tokens follow each other in the chain is a matter of its own
  (`Program.Spells`).
-/
import DivisorCheck.Flow.Chain

namespace DivisorCheck

/-! ### Headers and labels -/

/-- A keyword with what stands in the parentheses after it. -/
structure Header where
  keyword : TokenId
  paren : TokenId
  inside : List TokenId
  close : TokenId

/-- The header of a loop with three parts. -/
structure ForHeader where
  keyword : TokenId
  paren : TokenId
  init : List TokenId
  firstSemicolon : TokenId
  cond : List TokenId
  secondSemicolon : TokenId
  step : List TokenId
  close : TokenId

/-- A label of a `switch`; without a value it is the default. -/
structure ArmLabel where
  keyword : TokenId
  value : Option (List TokenId)
  colon : TokenId

/-- The ways to leave a block that a keyword stands for. -/
inductive Jump where
  | breakOut
  | continueLoop
  | returnOut
deriving DecidableEq

namespace Header

/-- The tokens of a header. -/
def tokens (h : Header) : List TokenId := h.keyword :: h.paren :: (h.inside ++ [h.close])

/-- The keyword is spelled as given, and the parentheses are partners. -/
structure Rendered (p : Program) (h : Header) (word : String) : Prop where
  keyword : p.text h.keyword = word
  paren : p.text h.paren = "("
  link : (p.token h.paren).link = some h.close

end Header

/-- The header without regard to its parts. -/
def ForHeader.header (h : ForHeader) : Header where
  keyword := h.keyword
  paren := h.paren
  inside := h.init ++ h.firstSemicolon :: (h.cond ++ h.secondSemicolon :: h.step)
  close := h.close

/-- The tokens of a label. -/
def ArmLabel.tokens (l : ArmLabel) : List TokenId := l.keyword :: (l.value.getD [] ++ [l.colon])

/-- The text of a label's value, which the default has not. -/
def ArmLabel.text (p : Program) (l : ArmLabel) : Option String :=
  l.value.map fun ts => " ".intercalate (ts.map p.text)

/-- The keyword of a jump. -/
def Jump.word : Jump → String
  | breakOut => "break"
  | continueLoop => "continue"
  | returnOut => "return"

/-! ### Statements -/

mutual

/-- A statement. -/
inductive Stmt where
  | empty (semicolon : TokenId)
  | plain (ts : List TokenId) (semicolon : TokenId)
  | jump (kind : Jump) (keyword : TokenId) (value : List TokenId) (semicolon : TokenId)
  | braces (brace : TokenId) (body : Stmts) (close : TokenId)
  | ifThen (h : Header) (body : Stmt)
  | ifElse (h : Header) (body : Stmt) (elseWord : TokenId) (other : Stmt)
  | whileLoop (h : Header) (body : Stmt)
  | forLoop (h : ForHeader) (body : Stmt)
  | doLoop (doWord : TokenId) (body : Stmt) (h : Header) (semicolon : TokenId)
  | switch (h : Header) (brace : TokenId) (body : Stmts) (close : TokenId)

/-- Statements in a row, with the labels that a `switch` may have between them. -/
inductive Stmts where
  | nil
  | cons (first : Stmt) (rest : Stmts)
  | label (l : ArmLabel) (rest : Stmts)

end

mutual

/-- The tokens of a statement. -/
def Stmt.tokens : Stmt → List TokenId
  | .empty semicolon => [semicolon]
  | .plain ts semicolon => ts ++ [semicolon]
  | .jump _ keyword value semicolon => keyword :: (value ++ [semicolon])
  | .braces brace body close => brace :: (body.tokens ++ [close])
  | .ifThen h body => h.tokens ++ body.tokens
  | .ifElse h body elseWord other => h.tokens ++ (body.tokens ++ elseWord :: other.tokens)
  | .whileLoop h body => h.tokens ++ body.tokens
  | .forLoop h body => h.header.tokens ++ body.tokens
  | .doLoop doWord body h semicolon => doWord :: (body.tokens ++ (h.tokens ++ [semicolon]))
  | .switch h brace body close => h.tokens ++ brace :: (body.tokens ++ [close])

/-- The tokens of statements in a row. -/
def Stmts.tokens : Stmts → List TokenId
  | .nil => []
  | .cons first rest => first.tokens ++ rest.tokens
  | .label l rest => l.tokens ++ rest.tokens

end

/-- Could the statement take an `else` after it for itself? -/
def Stmt.dangles : Stmt → Bool
  | ifThen .. => true
  | ifElse _ _ _ other => other.dangles
  | whileLoop _ body => body.dangles
  | forLoop _ body => body.dangles
  | _ => false

/-- Are there labels between the statements? -/
def Stmts.labelled : Stmts → Bool
  | nil => false
  | cons _ rest => rest.labelled
  | label .. => true

/-- Is one of the labels the default? -/
def Stmts.hasDefault : Stmts → Bool
  | nil => false
  | cons _ rest => rest.hasDefault
  | label l rest => l.value.isNone || rest.hasDefault

/-! ### Rendering -/

/-- The brackets among the tokens are partners, and unless they may, semicolons stand in brackets
only. -/
inductive Program.Bracketed (p : Program) : Bool → List TokenId → Prop where
  | nil {semicolons : Bool} : Bracketed p semicolons []
  | token {semicolons : Bool} {t : TokenId} {rest : List TokenId} :
    p.depthChange t = 0 → (p.text t = ";" → semicolons = true) → Bracketed p semicolons rest →
      Bracketed p semicolons (t :: rest)
  | group {semicolons : Bool} {opening close : TokenId} {inner rest : List TokenId} :
    p.depthChange opening = 1 → (p.token opening).link = some close → p.depthChange close = -1 →
      Bracketed p true inner → Bracketed p semicolons rest →
      Bracketed p semicolons (opening :: (inner ++ close :: rest))

/-- Each colon among the tokens belongs to a conditional expression; `pending` of them have begun
before. -/
def Program.Paired (p : Program) : Nat → List TokenId → Prop
  | pending, [] => pending = 0
  | pending, t :: rest =>
    if p.text t = "?" then Paired p (pending + 1) rest
    else if p.text t = ":" then 0 < pending ∧ Paired p (pending - 1) rest
    else Paired p pending rest

/-- What begins a statement of another kind than an expression, or none. -/
def Program.statementWords : List String :=
  ["\x7b", ";", ":", "case", "default", "if", "else", "while", "for", "do", "switch", "try",
    "return", "throw", "break", "continue", "goto"]

/-- The statement is not a label: its first token is no word before a colon. -/
def Program.Unlabelled (p : Program) (t : TokenId) : Prop :=
  (p.token t).isName = true → p.textOf (p.nextOf t) ≠ ":"

/-- A label reads `default:`, or `case` and a value. -/
def ArmLabel.Rendered (p : Program) (l : ArmLabel) : Prop :=
  p.text l.colon = ":" ∧
    match l.value with
    | none => p.text l.keyword = "default"
    | some ts => p.text l.keyword = "case" ∧ p.Paired 0 ts

theorem ArmLabel.Rendered.word {p : Program} {l : ArmLabel} (h : l.Rendered p) :
    p.text l.keyword = "case" ∨ p.text l.keyword = "default" := by
  obtain ⟨keyword, value, colon⟩ := l
  cases value with
  | none => exact .inr h.2
  | some ts => exact .inl h.2.1

/-- The parts of the header of a loop have semicolons between them, and none outside brackets within
them. -/
structure ForHeader.Rendered (p : Program) (h : ForHeader) : Prop where
  header : h.header.Rendered p "for"
  init : p.Bracketed false h.init
  firstSemicolon : p.text h.firstSemicolon = ";"
  cond : p.Bracketed false h.cond
  secondSemicolon : p.text h.secondSemicolon = ";"
  step : p.Bracketed false h.step

mutual

/-- The tokens of the statement are what it takes to spell it. -/
def Stmt.Rendered (p : Program) : Stmt → Prop
  | .empty semicolon => p.text semicolon = ";"
  | .plain ts semicolon =>
    p.Bracketed false ts ∧ p.text semicolon = ";" ∧
      ∃ t ∈ ts.head?, p.text t ∉ Program.statementWords ∧ p.Unlabelled t
  | .jump kind keyword value semicolon =>
    p.text keyword = kind.word ∧ p.Unlabelled keyword ∧ p.Bracketed false value ∧
      p.text semicolon = ";"
  | .braces brace body close =>
    p.text brace = "\x7b" ∧ (p.token brace).link = some close ∧ p.text close = "\x7d" ∧
      body.labelled = false ∧ body.Rendered p
  | .ifThen h body => h.Rendered p "if" ∧ body.Rendered p
  | .ifElse h body elseWord other =>
    h.Rendered p "if" ∧ body.Rendered p ∧ body.dangles = false ∧ p.text elseWord = "else" ∧
      other.Rendered p
  | .whileLoop h body => h.Rendered p "while" ∧ body.Rendered p
  | .forLoop h body => h.Rendered p ∧ body.Rendered p
  | .doLoop doWord body h semicolon =>
    p.text doWord = "do" ∧ body.Rendered p ∧ h.Rendered p "while" ∧ p.text semicolon = ";"
  | .switch h brace body close =>
    h.Rendered p "switch" ∧ p.text brace = "\x7b" ∧ (p.token brace).link = some close ∧
      p.text close = "\x7d" ∧ body.Rendered p

/-- The tokens of the statements in a row are what it takes to spell them. -/
def Stmts.Rendered (p : Program) : Stmts → Prop
  | .nil => True
  | .cons first rest => first.Rendered p ∧ rest.Rendered p
  | .label l rest => l.Rendered p ∧ rest.Rendered p

end

mutual

/-- Jumps stand only where they may. -/
def Stmt.Legal (mayBreak mayContinue : Bool) : Stmt → Prop
  | .empty _ => True
  | .plain _ _ => True
  | .jump kind _ _ _ =>
    match kind with
    | .breakOut => mayBreak = true
    | .continueLoop => mayContinue = true
    | .returnOut => True
  | .braces _ body _ => body.Legal mayBreak mayContinue
  | .ifThen _ body => body.Legal mayBreak mayContinue
  | .ifElse _ body _ other => body.Legal mayBreak mayContinue ∧ other.Legal mayBreak mayContinue
  | .whileLoop _ body => body.Legal true true
  | .forLoop _ body => body.Legal true true
  | .doLoop _ body _ _ => body.Legal true true
  | .switch _ _ body _ => body.Legal true mayContinue

/-- Jumps stand only where they may. -/
def Stmts.Legal (mayBreak mayContinue : Bool) : Stmts → Prop
  | .nil => True
  | .cons first rest => first.Legal mayBreak mayContinue ∧ rest.Legal mayBreak mayContinue
  | .label _ rest => rest.Legal mayBreak mayContinue

end

end DivisorCheck
