/-
  `Statement` — the statements of the grammar, with the labels that may stand
  before any of them.

  `Stmt` spells programs that have executions; here it matters only where a
  statement ends.  A label belongs to the statement after it, so a labelled
  statement may be the arm of a conditional or the body of a loop, with no braces
  around it.

  The reader takes a label off and leaves the statement that it labels.  For every
  statement, `Statement.left` is what the reader leaves of it that way, if anything,
  and `Statement.taken` are the tokens that it takes.
-/
import DivisorCheck.Flow.Body
import DivisorCheck.Proofs.Code.Syntax

namespace DivisorCheck

/-- The keywords with a header and a body that are read alike as far as their tokens go. -/
inductive HeadKind where
  | whileLoop
  | forLoop
  | switch
deriving DecidableEq

/-- The keyword. -/
def HeadKind.word : HeadKind → String
  | whileLoop => "while"
  | forLoop => "for"
  | switch => "switch"

mutual

/-- A statement. -/
inductive Statement where
  | empty (semicolon : TokenId)
  | plain (ts : List TokenId) (semicolon : TokenId)
  | jump (keyword : TokenId) (rest : List TokenId) (semicolon : TokenId)
  | braces (brace : TokenId) (items : Statements) (close : TokenId)
  | ifThen (h : Header) (body : Statement)
  | ifElse (h : Header) (body : Statement) (elseWord : TokenId) (other : Statement)
  | headed (kind : HeadKind) (h : Header) (body : Statement)
  | doLoop (doWord : TokenId) (body : Statement) (h : Header) (semicolon : TokenId)
  | label (name colon : TokenId) (body : Statement)
  | arm (l : ArmLabel) (body : Statement)

/-- Statements in a row. -/
inductive Statements where
  | nil
  | cons (first : Statement) (rest : Statements)

end

mutual

/-- The tokens of a statement. -/
def Statement.tokens : Statement → List TokenId
  | .empty semicolon => [semicolon]
  | .plain ts semicolon => ts ++ [semicolon]
  | .jump keyword rest semicolon => keyword :: (rest ++ [semicolon])
  | .braces brace items close => brace :: (items.tokens ++ [close])
  | .ifThen h body => h.tokens ++ body.tokens
  | .ifElse h body elseWord other => h.tokens ++ (body.tokens ++ elseWord :: other.tokens)
  | .headed _ h body => h.tokens ++ body.tokens
  | .doLoop doWord body h semicolon => doWord :: (body.tokens ++ (h.tokens ++ [semicolon]))
  | .label name colon body => name :: colon :: body.tokens
  | .arm l body => l.tokens ++ body.tokens

/-- The tokens of statements in a row. -/
def Statements.tokens : Statements → List TokenId
  | .nil => []
  | .cons first rest => first.tokens ++ rest.tokens

end

namespace Statement

/-- Could the statement take an `else` after it for itself? -/
def dangles : Statement → Bool
  | ifThen .. => true
  | ifElse _ _ _ other => other.dangles
  | headed _ _ body => body.dangles
  | label _ _ body => body.dangles
  | arm _ body => body.dangles
  | _ => false

/-- The statement that the reader leaves at the end: the one behind the first label that is met on
the way there. -/
def left : Statement → Option Statement
  | ifThen _ body => body.left
  | ifElse _ _ _ other => other.left
  | headed _ _ body => body.left
  | label _ _ body => some body
  | arm _ body => some body
  | _ => none

/-- The tokens up to the statement that is left. -/
def taken : Statement → List TokenId
  | ifThen h body => h.tokens ++ body.taken
  | ifElse h body elseWord other => h.tokens ++ (body.tokens ++ elseWord :: other.taken)
  | headed _ h body => h.tokens ++ body.taken
  | label name colon _ => [name, colon]
  | arm l _ => l.tokens
  | s => s.tokens

/-- The tokens that are left. -/
def leftTokens (s : Statement) : List TokenId := (s.left.map tokens).getD []

/-- What the reader takes and what it leaves make up the statement. -/
theorem taken_append_leftTokens (s : Statement) : s.taken ++ s.leftTokens = s.tokens := by
  match s with
  | ifThen h body | headed _ h body =>
    have hbody := body.taken_append_leftTokens
    simp only [taken, tokens, List.append_assoc, ← hbody]
    rfl
  | ifElse h body elseWord other =>
    have hother := other.taken_append_leftTokens
    simp only [taken, tokens, List.append_assoc, List.cons_append, ← hother]
    rfl
  | label .. | arm .. => simp [taken, leftTokens, left, tokens]
  | empty .. | plain .. | jump .. | braces .. | doLoop .. => simp [taken, leftTokens, left]

theorem taken_eq_tokens {s : Statement} (h : s.left = none) : s.taken = s.tokens := by
  have hall := s.taken_append_leftTokens
  rwa [leftTokens, h, Option.map_none, Option.getD_none, List.append_nil] at hall

end Statement

/-! ### Rendering -/

mutual

/-- The tokens of the statement are what it takes to spell it. -/
def Statement.Rendered (p : Program) : Statement → Prop
  | .empty semicolon => p.text semicolon = ";"
  | .plain ts semicolon =>
    p.Bracketed false ts ∧ p.text semicolon = ";" ∧
      ∃ t ∈ ts.head?, p.text t ∉ Program.statementWords ∧ p.Unlabelled t
  | .jump keyword rest semicolon =>
    Body.isJump (p.text keyword) = true ∧ p.Unlabelled keyword ∧ p.Bracketed false rest ∧
      p.text semicolon = ";"
  | .braces brace items close =>
    p.text brace = "\x7b" ∧ (p.token brace).link = some close ∧ p.text close = "\x7d" ∧
      items.Rendered p
  | .ifThen h body => h.Rendered p "if" ∧ body.Rendered p
  | .ifElse h body elseWord other =>
    h.Rendered p "if" ∧ body.Rendered p ∧ body.dangles = false ∧ p.text elseWord = "else" ∧
      other.Rendered p
  | .headed kind h body => h.Rendered p kind.word ∧ body.Rendered p
  | .doLoop doWord body h semicolon =>
    p.text doWord = "do" ∧ body.Rendered p ∧ h.Rendered p "while" ∧ p.text semicolon = ";"
  | .label name colon body =>
    p.text name ∉ Program.statementWords ∧ (p.token name).isName = true ∧ p.text colon = ":" ∧
      body.Rendered p
  | .arm l body => l.Rendered p ∧ body.Rendered p

/-- The tokens of the statements in a row are what it takes to spell them. -/
def Statements.Rendered (p : Program) : Statements → Prop
  | .nil => True
  | .cons first rest => first.Rendered p ∧ rest.Rendered p

end

/-- What is left does no harm on the way to it: nothing is left of a branch before `else`, nor of a
body before the `while` of its loop, and a label of a `switch` is met inside it.  `now` says whether
a `switch` is around the statement. -/
def Statement.Kept (now : Bool) : Statement → Prop
  | .ifThen _ body => body.Kept now
  | .ifElse _ body _ other => body.left = none ∧ body.Kept now ∧ other.Kept now
  | .headed kind _ body => body.Kept (now || kind == .switch)
  | .doLoop _ body _ _ => body.left = none ∧ body.Kept now
  | .arm _ _ => now = true
  | _ => True

mutual

/-- The same of what the reader meets besides: of the rows in braces, and of what is left if the
reader goes on with it.  In that case `later` says whether a `switch` is around it then. -/
def Statement.KeptInside (now : Bool) (later : Option Bool) : Statement → Prop
  | .empty _ => True
  | .plain _ _ => True
  | .jump _ _ _ => True
  | .braces _ items _ => items.Kept now
  | .ifThen _ body => body.KeptInside now later
  | .ifElse _ body _ other => body.KeptInside now later ∧ other.KeptInside now later
  | .headed kind _ body => body.KeptInside (now || kind == .switch) later
  | .doLoop _ body _ _ => body.KeptInside now later
  | .label _ _ body => ∀ around ∈ later, body.Kept around ∧ body.KeptInside around later
  | .arm _ body => ∀ around ∈ later, body.Kept around ∧ body.KeptInside around later

/-- The same of statements in a row: the reader goes on with what is left of each. -/
def Statements.Kept (now : Bool) : Statements → Prop
  | .nil => True
  | .cons first rest => first.Kept now ∧ first.KeptInside now (some now) ∧ rest.Kept now

end

namespace Statement

variable {p : Program} {s : Statement}

theorem Rendered.left : (s : Statement) → s.Rendered p → ∀ r ∈ s.left, r.Rendered p
  | ifThen _ body, h | headed _ _ body, h => Rendered.left body h.2
  | ifElse _ _ _ other, h => Rendered.left other h.2.2.2.2
  | label _ _ _, h => fun _ hr => Option.some.inj hr ▸ h.2.2.2
  | arm _ _, h => fun _ hr => Option.some.inj hr ▸ h.2
  | empty _, _ | plain _ _, _ | jump _ _ _, _ | braces _ _ _, _ | doLoop _ _ _ _, _ => nofun

theorem KeptInside.left : (s : Statement) → {now around : Bool} →
    s.KeptInside now (some around) → ∀ r ∈ s.left, r.Kept around ∧ r.KeptInside around (some around)
  | ifThen _ body, _, _, h | headed _ _ body, _, _, h => KeptInside.left body h
  | ifElse _ _ _ other, _, _, h => KeptInside.left other h.2
  | label _ _ _, _, _, h | arm _ _, _, _, h => fun _ hr => Option.some.inj hr ▸ h _ rfl
  | empty _, _, _, _ | plain _ _, _, _, _ | jump _ _ _, _, _, _ | braces _ _ _, _, _, _
  | doLoop _ _ _ _, _, _, _ => nofun

/-- A statement begins with a token that neither labels it nor belongs to a conditional before. -/
theorem Rendered.exists_cons (h : s.Rendered p) :
    ∃ t ts, s.taken = t :: ts ∧ p.text t ≠ ":" ∧ p.text t ≠ "else" := by
  have hsub : [":", "else"] ⊆ Program.statementWords := by decide
  match s, h with
  | .empty semicolon, h =>
    refine ⟨semicolon, [], rfl, ?_⟩
    rw [show p.text semicolon = ";" from h]
    decide
  | .plain [] _, ⟨_, _, _, ht, _⟩ => exact absurd ht nofun
  | .plain (t :: ts) semicolon, ⟨_, _, _, ht, hword, _⟩ =>
    obtain rfl := Option.some.inj ht
    exact ⟨t, ts ++ [semicolon], rfl, fun hcolon => hword (hcolon ▸ by decide),
      fun helse => hword (helse ▸ by decide)⟩
  | .jump keyword _ _, ⟨hjump, _⟩ =>
    refine ⟨keyword, _, rfl, fun hcolon => ?_, fun helse => ?_⟩
    · exact absurd (hcolon ▸ hjump) (by decide)
    · exact absurd (helse ▸ hjump) (by decide)
  | .braces brace _ _, h => exact ⟨brace, _, rfl, by rw [h.1]; decide⟩
  | .ifThen .., h | .ifElse .., h => exact ⟨_, _, rfl, by rw [h.1.keyword]; decide⟩
  | .headed kind .., h => exact ⟨_, _, rfl, by rw [h.1.keyword]; cases kind <;> decide⟩
  | .doLoop .., h => exact ⟨_, _, rfl, by rw [h.1]; decide⟩
  | .label name _ _, h =>
    exact ⟨name, _, rfl, fun hcolon => h.1 (hcolon ▸ by decide), fun helse => h.1 (helse ▸ by decide)⟩
  | .arm l _, h =>
    refine ⟨l.keyword, _, rfl, ?_⟩
    rcases ArmLabel.Rendered.word h.1 with hword | hword
    all_goals
      rw [hword]
      decide

end Statement

end DivisorCheck
