/-
  The kinds of statements, as the reader tells them apart.

  The word that a statement begins with, and for some kinds the token after it,
  decide which part of the reader takes over.  There is one equation for each kind;
  what is proved about statements of a kind starts from it.
-/
import DivisorCheck.Flow.Body
import DivisorCheck.Proofs.Code.Scanning

namespace DivisorCheck

variable {p : Program} {limit t : TokenId} {start after : Option TokenId} {us : List TokenId}

/-- A keyword with its parentheses is taken off, and what stands in them is found. -/
theorem Program.Placed.header_eq {h : Header} {word : String}
    (hplaced : p.Placed limit start (h.tokens ++ us) after) (hr : h.Rendered p word)
    (name : String) :
    start = some h.keyword ∧ p.textOf (p.nextOf h.keyword) = "(" ∧
    Build.header p name (p.nextOf h.keyword) = pure (h.inside, p.nextOf h.close) ∧
    p.Placed limit (p.nextOf h.close) us after := by
  -- The tokens one by one, so that they can be taken off in turn.
  have hassoc : h.tokens ++ us = h.keyword :: h.paren :: (h.inside ++ h.close :: us) := by
    simp [Header.tokens]
  rw [hassoc] at hplaced
  obtain ⟨hstart, -, hparen⟩ := hplaced.cons
  obtain ⟨hnext, -, hrest⟩ := hparen.cons
  obtain ⟨hinside, hafter⟩ := hrest.inside
  rw [hnext]
  refine ⟨hstart, hr.paren, ?_, hafter⟩
  unfold Build.header
  simp only [if_pos hr.paren, hr.link]
  rw [Program.between_eq hinside]

/-- A plain statement is found up to its semicolon. -/
theorem Program.Placed.plain_eq {ts : List TokenId} {semicolon : TokenId}
    (hplaced : p.Placed limit start (ts ++ [semicolon]) after) (hts : p.Bracketed false ts)
    (hsemicolon : p.text semicolon = ";")
    (hhead : ∃ t ∈ ts.head?, p.text t ∉ Program.statementWords ∧ p.Unlabelled t) :
    ∃ t, start = some t ∧ p.text t ∉ Program.statementWords ∧ p.Unlabelled t ∧
      p.statementTokens limit (p.tokens.size + 1) (some t) = (ts ++ [semicolon], after) := by
  obtain ⟨t, ht, hword, hlabel⟩ := hhead
  have hlength := hplaced.length
  rw [List.length_append, List.length_singleton] at hlength
  have hscan := statementTokens_eq hts hsemicolon hplaced
    (show ts.length < p.tokens.size + 1 by omega)
  cases ts with
  | nil => cases ht
  | cons t' ts =>
    obtain rfl : t' = t := Option.some.inj ht
    obtain ⟨rfl, -, -⟩ := hplaced.cons
    exact ⟨t', rfl, hword, hlabel, hscan⟩

/-- The keyword of a jump is no bracket. -/
theorem depthChange_of_isJump (hword : Body.isJump (p.text t) = true) : p.depthChange t = 0 := by
  simp only [Body.isJump, List.mem_cons, List.not_mem_nil, or_false, decide_eq_true_eq] at hword
  unfold Program.depthChange
  rcases hword with h | h | h | h | h
  all_goals
    rw [h]
    decide

/-- A jump is found up to its semicolon. -/
theorem Program.Placed.jump_eq {keyword semicolon : TokenId} {rest : List TokenId}
    (hplaced : p.Placed limit start (keyword :: (rest ++ [semicolon])) after)
    (hjump : Body.isJump (p.text keyword) = true) (hrest : p.Bracketed false rest)
    (hsemicolon : p.text semicolon = ";") :
    start = some keyword ∧ p.statementTokens limit (p.tokens.size + 1) (some keyword) =
      (keyword :: (rest ++ [semicolon]), after) := by
  have hlength := hplaced.length
  rw [List.length_cons, List.length_append, List.length_singleton] at hlength
  have hts : p.Bracketed false (keyword :: rest) :=
    .token (depthChange_of_isJump hjump) (fun heq => absurd (heq ▸ hjump) (by decide)) hrest
  have hscan := statementTokens_eq hts hsemicolon hplaced
    (show (keyword :: rest).length < p.tokens.size + 1 by rw [List.length_cons]; omega)
  obtain ⟨rfl, -, -⟩ := hplaced.cons
  exact ⟨rfl, hscan⟩

namespace Body

open Build

variable {close : TokenId} {targets : JumpTargets} {depth : Nat} {current : Option BlockId}

/-- A reader that starts as deep as it may goes deeper than the program has tokens. -/
theorem le_depthLimit (p : Program) : p.tokens.size + 2 ≤ depthLimit p :=
  Nat.le_mul_of_pos_left _ (Nat.mul_pos Nat.two_pos (Nat.succ_pos _))

/-! ### Any statement -/

/-- What holds of the reading of every kind of statement holds of the reading of any. -/
theorem statementWith_cases {motive : (StatementReader → Build AfterStatement) → Prop}
    (unmatched : p.text t = "\x7b" → motive fun _ => malformed p .unmatchedBrace (some t))
    (braces : ∀ close, p.text t = "\x7b" → (p.token t).link = some close → motive fun read =>
      statements read targets close (p.tokens.size + 1) (p.nextOf t) current >>=
        fun block => pure (p.nextOf close, block))
    (empty : p.text t = ";" → motive fun _ => pure (p.nextOf t, current))
    (arm : ∀ d, targets.dispatch = some d → motive fun _ => caseLabel p d limit t current)
    (label : (p.token t).isName = true → p.textOf (p.nextOf t) = ":" → motive fun _ =>
      labelStatement p t ((p.nextOf t).bind p.nextOf) current)
    (ifWord : p.text t = "if" → motive fun read => ifStatement p read targets limit t current)
    (whileWord : p.text t = "while" → motive fun read =>
      whileStatement p read targets limit t current)
    (forWord : p.text t = "for" → motive fun read => forStatement p read targets limit t current)
    (doWord : p.text t = "do" → motive fun read => doStatement p read targets limit t current)
    (switchWord : p.text t = "switch" → motive fun read =>
      switchStatement p read targets limit t current)
    (tryWord : p.text t = "try" → motive fun read => tryStatement p read targets limit t current)
    (jump : isJump (p.text t) = true → motive fun _ => jumpStatement p targets limit t current)
    (plain : isJump (p.text t) = false → motive fun _ => plainStatement p limit t current) :
    motive fun read => statementWith p read targets limit (some t) current := by
  unfold statementWith
  dsimp only
  -- The questions come in the order in which the reader asks them.
  by_cases hbrace : p.text t = "\x7b"
  · simp only [if_pos hbrace]
    cases hlink : (p.token t).link with
    | none => exact unmatched hbrace
    | some close => exact braces close hbrace hlink
  simp only [if_neg hbrace]
  by_cases hempty : p.text t = ";"
  · simp only [if_pos hempty]
    exact empty hempty
  simp only [if_neg hempty]
  split
  · rename_i hcase
    obtain ⟨d, hd⟩ := Option.isSome_iff_exists.1 (Bool.and_eq_true_iff.1 hcase).2
    rw [hd]
    exact arm d hd
  split
  · rename_i hlabel
    obtain ⟨hname, hcolon⟩ := Bool.and_eq_true_iff.1 (Bool.and_eq_true_iff.1 hlabel).1
    exact label hname (eq_of_beq hcolon)
  by_cases hif : p.text t = "if"
  · simp only [if_pos hif]
    exact ifWord hif
  simp only [if_neg hif]
  by_cases hwhile : p.text t = "while"
  · simp only [if_pos hwhile]
    exact whileWord hwhile
  simp only [if_neg hwhile]
  by_cases hfor : p.text t = "for"
  · simp only [if_pos hfor]
    exact forWord hfor
  simp only [if_neg hfor]
  by_cases hdo : p.text t = "do"
  · simp only [if_pos hdo]
    exact doWord hdo
  simp only [if_neg hdo]
  by_cases hswitch : p.text t = "switch"
  · simp only [if_pos hswitch]
    exact switchWord hswitch
  simp only [if_neg hswitch]
  by_cases htry : p.text t = "try"
  · simp only [if_pos htry]
    exact tryWord htry
  simp only [if_neg htry]
  split
  · rename_i hjump
    exact jump hjump
  · rename_i hjump
    exact plain (Bool.eq_false_iff.2 hjump)

/-- A closing bracket that is no label begins a plain statement. -/
theorem statementWith_closing {read : StatementReader} (htext : p.text t ∈ [")", "]", "\x7d"])
    (hlabel : p.Unlabelled t) :
    statementWith p read targets limit (some t) current = plainStatement p limit t current := by
  unfold Program.Unlabelled at hlabel
  simp only [List.mem_cons, List.not_mem_nil, or_false] at htext
  unfold statementWith
  rcases htext with h | h | h
  all_goals
    simp [h, isJump]
    intro hname hcolon
    exact absurd hcolon (hlabel hname)

/-- The body of a `try` or a handler is in braces. -/
theorem of_braced? {brace : TokenId} (h : braced? p start = some (brace, close)) :
    start = some brace ∧ p.text brace = "\x7b" ∧ (p.token brace).link = some close := by
  unfold braced? at h
  split at h
  · cases h
  · split_ifs at h with htext
    obtain ⟨link, hlink, heq⟩ := Option.map_eq_some_iff.1 h
    cases heq
    exact ⟨rfl, htext, hlink⟩

/-! ### Each kind -/

/-- A reader that is deep enough reads one statement, and less deep those inside it. -/
theorem statement_succ (start : Option TokenId) (cur : Option BlockId) :
    statement p (depth + 1) targets limit start cur =
      statementWith p (statement p depth) targets limit start cur := rfl

theorem statement_while (hword : p.text t = "while") (hnext : p.textOf (p.nextOf t) = "(") :
    statement p (depth + 1) targets limit (some t) =
      whileStatement p (statement p depth) targets limit t := by
  funext cur
  rw [statement_succ]
  unfold statementWith
  simp [hword, hnext]

theorem statement_brace (hword : p.text t = "\x7b") (hlink : (p.token t).link = some close) :
    statement p (depth + 1) targets limit (some t) = fun cur =>
      statements (statement p depth) targets close (p.tokens.size + 1) (p.nextOf t) cur >>=
        fun block => pure (p.nextOf close, block) := by
  funext cur
  rw [statement_succ]
  unfold statementWith
  simp [hword, hlink]

theorem statement_empty (hword : p.text t = ";") :
    statement p (depth + 1) targets limit (some t) = fun cur => pure (p.nextOf t, cur) := by
  funext cur
  rw [statement_succ]
  unfold statementWith
  simp [hword]

theorem statement_jump (hword : isJump (p.text t) = true) (hlabel : p.Unlabelled t) :
    statement p (depth + 1) targets limit (some t) = jumpStatement p targets limit t := by
  funext cur
  unfold Program.Unlabelled at hlabel
  have hwords := hword
  simp only [isJump, List.mem_cons, List.not_mem_nil, or_false, decide_eq_true_eq] at hwords
  rw [statement_succ]
  unfold statementWith
  rcases hwords with h | h | h | h | h
  all_goals
    simp only [h] at hword ⊢
    simp [hword]
    intro hname hcolon
    exact absurd hcolon (hlabel hname)

theorem statement_plain (hword : p.text t ∉ Program.statementWords) (hlabel : p.Unlabelled t) :
    statement p (depth + 1) targets limit (some t) = plainStatement p limit t := by
  funext cur
  unfold Program.Unlabelled at hlabel
  simp only [Program.statementWords, List.mem_cons, List.not_mem_nil, or_false, not_or] at hword
  rw [statement_succ]
  unfold statementWith
  simp [hword, isJump]
  intro hname hcolon
  exact absurd hcolon (hlabel hname)

theorem statement_label {d : BlockId} (hword : p.text t = "case" ∨ p.text t = "default")
    (hd : targets.dispatch = some d) :
    statement p (depth + 1) targets limit (some t) =
      caseLabel p (targets.dispatch.getD 0) limit t := by
  funext cur
  rcases hword with hword | hword
  · rw [statement_succ]
    unfold statementWith
    simp [hword, hd]
  · rw [statement_succ]
    unfold statementWith
    simp [hword, hd]

/-- A name before a colon labels what comes after it. -/
theorem statement_name (hword : p.text t ∉ Program.statementWords)
    (hname : (p.token t).isName = true) (hcolon : p.textOf (p.nextOf t) = ":") :
    statement p (depth + 1) targets limit (some t) =
      labelStatement p t ((p.nextOf t).bind p.nextOf) := by
  funext cur
  simp only [Program.statementWords, List.mem_cons, List.not_mem_nil, or_false, not_or] at hword
  rw [statement_succ]
  unfold statementWith
  simp [hword, hname, hcolon]

theorem statement_if (hword : p.text t = "if") (hnext : p.textOf (p.nextOf t) = "(") :
    statement p (depth + 1) targets limit (some t) =
      ifStatement p (statement p depth) targets limit t := by
  funext cur
  rw [statement_succ]
  unfold statementWith
  simp [hword, hnext]

/-- An `if` before a parenthesis is none with `constexpr`. -/
theorem ne_constexpr {paren : Option TokenId} (h : p.textOf paren = "(") :
    p.textOf paren ≠ "constexpr" := by
  rw [h]
  decide

theorem statement_for (hword : p.text t = "for") (hnext : p.textOf (p.nextOf t) = "(") :
    statement p (depth + 1) targets limit (some t) =
      forStatement p (statement p depth) targets limit t := by
  funext cur
  rw [statement_succ]
  unfold statementWith
  simp [hword, hnext]

theorem statement_do (hword : p.text t = "do") (hnext : p.textOf (p.nextOf t) ≠ ":") :
    statement p (depth + 1) targets limit (some t) =
      doStatement p (statement p depth) targets limit t := by
  funext cur
  rw [statement_succ]
  unfold statementWith
  simp [hword, hnext]

theorem statement_switch (hword : p.text t = "switch") (hnext : p.textOf (p.nextOf t) = "(") :
    statement p (depth + 1) targets limit (some t) =
      switchStatement p (statement p depth) targets limit t := by
  funext cur
  rw [statement_succ]
  unfold statementWith
  simp [hword, hnext]

end Body

end DivisorCheck
