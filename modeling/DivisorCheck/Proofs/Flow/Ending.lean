/-
  Reading a body comes to an end.

  If the chain of tokens that a body starts is finite, and the partner of every
  opening bracket comes after it (`Program.Chained`), then whatever the tokens are,
  the reader does not run in a circle: each statement takes at least one token
  unless it stands at the token that limits it, so the statements in a row and the
  depth of statements in each other are both bounded by the tokens that are left
  (`Program.Left`).

  The reader then gives a graph or says what a statement lacks, with one exception.
  Where the chain breaks off right after the header of an `if`, a loop or a `switch`,
  or right after `else` or `do`, a statement is due and there is no token to blame
  (`Program.BreaksOff`).
-/
import DivisorCheck.Proofs.Flow.Kinds

namespace DivisorCheck

namespace Program

variable {p : Program} {t z : TokenId} {tok : Option TokenId} {ts us : List TokenId} {n m : Nat}

/-! ### Chains -/

/-- The token after each one, and the partner of each opening bracket, come later. -/
def InOrder (p : Program) : List TokenId → Prop
  | [] => True
  | t :: ts => (∀ after ∈ p.nextOf t, after ∈ ts) ∧ (∀ close ∈ p.partner? t, close ∈ ts) ∧
      InOrder p ts

instance decidableInOrder (p : Program) : (ts : List TokenId) → Decidable (p.InOrder ts)
  | [] => .isTrue trivial
  | t :: ts =>
    have := decidableInOrder p ts
    inferInstanceAs (Decidable ((∀ after ∈ p.nextOf t, after ∈ ts) ∧
      (∀ close ∈ p.partner? t, close ∈ ts) ∧ p.InOrder ts))

/-- The tokens to be met from one on are finitely many, and the chain and its links lead forward
through them.  The chain may end anywhere, and a link may lead to where the chain does not. -/
structure Chained (p : Program) (start : TokenId) (ts : List TokenId) : Prop where
  start_mem : start ∈ ts
  tokens : ts ⊆ p.tokenIds
  nodup : ts.Nodup
  inOrder : p.InOrder ts

/-- The keywords with a header in parentheses and a statement after it. -/
def headKeywords : List String := ["if", "while", "for", "switch"]

/-- The header of a keyword starts at a token: the next one, unless that is `constexpr`. -/
def HeaderAt (p : Program) (keyword : TokenId) (paren : Option TokenId) : Prop :=
  p.nextOf keyword = paren ∨
    ∃ c, p.nextOf keyword = some c ∧ p.text c = "constexpr" ∧ p.nextOf c = paren

/-- The chain ends where a statement is due: after `else` or `do`, or after a header. -/
def BreaksOff (p : Program) (ts : List TokenId) : Prop :=
  ∃ z ∈ ts, p.nextOf z = none ∧ (p.text z = "else" ∨ p.text z = "do" ∨
    ∃ k ∈ ts, p.text k ∈ headKeywords ∧ ∃ paren, p.HeaderAt k (some paren) ∧
      p.text paren = "(" ∧ (p.token paren).link = some z)

theorem InOrder.of_append (h : p.InOrder (us ++ ts)) : p.InOrder ts := by
  induction us with
  | nil => exact h
  | cons u us ih => exact ih h.2.2

/-- No chain is longer than the program. -/
theorem Chained.length_le {start : TokenId} (h : p.Chained start ts) :
    ts.length ≤ p.tokens.size :=
  length_le_size h.nodup fun _ ht => List.mem_range.1 (h.tokens ht)

/-! ### What is left of a chain -/

/-- The tokens are in order, and from a given one on at most so many of them are left. -/
def Left (p : Program) (ts : List TokenId) (n : Nat) (tok : Option TokenId) : Prop :=
  p.InOrder ts ∧ ∀ t ∈ tok, ∃ us, t :: us <:+ ts ∧ us.length < n

namespace Left

theorem mono (h : p.Left ts n tok) (hnm : n ≤ m) : p.Left ts m tok := by
  refine ⟨h.1, fun t ht => ?_⟩
  obtain ⟨us, hsuffix, hlength⟩ := h.2 t ht
  exact ⟨us, hsuffix, Nat.lt_of_lt_of_le hlength hnm⟩

theorem pos (h : p.Left ts n (some t)) : 0 < n := by
  obtain ⟨us, -, hlength⟩ := h.2 t rfl
  exact Nat.zero_lt_of_lt hlength

theorem mem (h : p.Left ts n (some t)) : t ∈ ts := by
  obtain ⟨us, hsuffix, -⟩ := h.2 t rfl
  exact hsuffix.subset (List.mem_cons_self ..)

/-- From a token that comes later, one less is left. -/
theorem later (h : p.Left ts (n + 1) (some t)) (hz : ∀ us, p.InOrder (t :: us) → z ∈ us) :
    p.Left ts n (some z) := by
  obtain ⟨us, hsuffix, hlength⟩ := h.2 t rfl
  have hrest : p.InOrder (t :: us) := by
    have hall := h.1
    obtain ⟨pre, rfl⟩ := hsuffix
    exact hall.of_append
  -- What is left from there on is a part of what is left after the first token.
  obtain ⟨as, bs, rfl⟩ := List.append_of_mem (hz us hrest)
  refine ⟨h.1, fun z' hz' => ?_⟩
  obtain rfl := Option.some.inj hz'
  refine ⟨bs, (List.suffix_append (t :: as) (z :: bs)).trans hsuffix, ?_⟩
  simp only [List.length_append, List.length_cons] at hlength
  omega

theorem next (h : p.Left ts (n + 1) (some t)) : p.Left ts n (p.nextOf t) := by
  cases hafter : p.nextOf t with
  | none => exact ⟨h.1, nofun⟩
  | some after => exact h.later fun _ hus => hus.1 after hafter

/-- The partner of an opening bracket comes later. -/
theorem partner (h : p.Left ts (n + 1) (some t)) {close : TokenId}
    (hclose : p.partner? t = some close) : p.Left ts n (some close) :=
  h.later fun _ hus => hus.2.1 close hclose

theorem next_le (h : p.Left ts n (some t)) : p.Left ts n (p.nextOf t) :=
  (h.mono (Nat.le_succ n)).next

theorem bind_next (h : p.Left ts n tok) : p.Left ts n (tok.bind p.nextOf) := by
  cases tok with
  | none => exact h
  | some t => exact h.next_le

end Left

/-- A statement is due: if there is no token to begin it, the chain breaks off. -/
def Due (p : Program) (ts : List TokenId) (n : Nat) (tok : Option TokenId) : Prop :=
  p.Left ts n tok ∧ (tok = none → p.BreaksOff ts)

/-! ### Pieces of a chain -/

section Pieces

variable {limit : TokenId}

theorem left_statementTokens (fuel : Nat) (h : p.Left ts n tok) :
    p.Left ts n (p.statementTokens limit fuel tok).2 := by
  induction fuel generalizing n tok with
  | zero => exact h
  | succ fuel ih =>
    cases tok with
    | none => exact h
    | some t =>
      rw [statementTokens]
      split
      · exact h
      · split
        · rename_i close hclose
          exact ih ((h.mono (Nat.le_succ n)).partner hclose).next_le
        · split
          · exact h.next_le
          · exact ih h.next_le

/-- A statement takes at least one token, unless it stands at the limit. -/
theorem left_after_statementTokens (fuel : Nat)
    (h : p.Left ts (n + 1) (some t)) (hlimit : t ≠ limit) :
    p.Left ts n (p.statementTokens limit (fuel + 1) (some t)).2 := by
  rw [statementTokens, if_neg hlimit]
  split
  · rename_i close hclose
    exact left_statementTokens fuel (h.partner hclose).next_le
  · split_ifs
    · exact h.next
    · exact left_statementTokens fuel h.next

theorem left_labelTokens (fuel pending : Nat) (h : p.Left ts n tok) :
    p.Left ts n (p.labelTokens limit fuel pending tok).2 := by
  induction fuel generalizing n tok pending with
  | zero => exact h
  | succ fuel ih =>
    cases tok with
    | none => exact h
    | some t =>
      rw [labelTokens]
      split
      · exact h
      · split
        · exact h
        · exact ih _ h.next_le

end Pieces

end Program

/-! ### How a step of building may end -/

/-- The step yields what satisfies `Q`, or fails with an error that satisfies `E`. -/
def Build.Ends {α : Type} (E : BodyError → Prop) (Q : α → Prop) (m : Build α) : Prop :=
  ∀ s, match m s with
    | .ok (a, _) => Q a
    | .error e => E e

/-- What may go wrong on a chain: a statement lacks something, or the chain breaks off. -/
def Program.Excuses (p : Program) (ts : List TokenId) (e : BodyError) : Prop :=
  e ≠ .endless ∧ (e = .missingStatement → p.BreaksOff ts)

namespace Build

variable {α β : Type} {E : BodyError → Prop} {Q : α → Prop} {R : β → Prop}

theorem Ends.bind {m : Build α} {f : α → Build β} (hm : Ends E Q m)
    (hf : ∀ a, Q a → Ends E R (f a)) : Ends E R (m >>= f) := by
  intro s
  have hms := hm s
  change match (m s >>= fun r => f r.1 r.2) with
    | .ok (b, _) => R b
    | .error e => E e
  cases hrun : m s with
  | error e =>
    rw [hrun] at hms
    exact hms
  | ok r =>
    rw [hrun] at hms
    exact hf r.1 hms r.2

theorem Ends.mono {Q' : α → Prop} {m : Build α} (hm : Ends E Q m) (hQ : ∀ a, Q a → Q' a) :
    Ends E Q' m := by
  intro s
  have hms := hm s
  split at hms
  · exact hQ _ hms
  · exact hms

theorem ends_pure {a : α} (h : Q a) : Ends E Q (pure a : Build α) := fun _ => h

theorem ends_pure_bind {a : α} {f : α → Build β} (h : Ends E R (f a)) :
    Ends E R (pure a >>= f) := h

theorem ends_throw {e : BodyError} (h : E e) : Ends E Q (throw e : Build α) := fun _ => h

theorem ends_get : Ends E (fun _ => True) (get : Build BodyBuilder) := fun _ => trivial

theorem ends_modify (f : BodyBuilder → BodyBuilder) :
    Ends E (fun _ => True) (modify f : Build Unit) := fun _ => trivial

theorem ends_newBlock {kind : BlockKind} {tokens : List TokenId} :
    Ends E (fun _ => True) (newBlock kind tokens) := fun _ => trivial

theorem ends_edge {src dst : BlockId} {kind : EdgeKind} {label : Option String}
    {value : Option TokenId} : Ends E (fun _ => True) (edge src dst kind label value) :=
  fun _ => trivial

theorem ends_edgeFrom {src : Option BlockId} {dst : BlockId} {kind : EdgeKind} :
    Ends E (fun _ => True) (edgeFrom src dst kind) := by
  cases src with
  | none => exact ends_pure trivial
  | some src => exact ends_edge

theorem ends_append {b : BlockId} {ts : List TokenId} :
    Ends E (fun _ => True) (append b ts) := fun _ => trivial

theorem ends_live {block : Option BlockId} : Ends E (fun _ => True) (live block) := by
  cases block with
  | none => exact ends_newBlock
  | some b => exact ends_pure trivial

theorem ends_forM (xs : List α) {f : α → Build Unit} (hf : ∀ x, Ends E (fun _ => True) (f x)) :
    Ends E (fun _ => True) (xs.forM f) := by
  induction xs with
  | nil => exact ends_pure trivial
  | cons x xs ih => exact (hf x).bind fun _ _ => ih

theorem ends_merge {kind : BlockKind} {ends : List (Option BlockId)} :
    Ends E (fun _ => True) (merge kind ends) := by
  unfold merge
  split
  · exact ends_pure trivial
  · refine ends_newBlock.bind fun merged _ => ?_
    exact (ends_forM _ fun b => ends_edge).bind fun _ _ => ends_pure trivial

theorem ends_conditionBlock {p : Program} {kind : BlockKind} {keyword : String}
    {paren : Option TokenId} {current : Option BlockId} {R : Option TokenId → Prop}
    (h : Ends E (fun r => R r.2) (header p keyword paren)) :
    Ends E (fun r => R r.2) (conditionBlock p kind keyword paren current) := by
  unfold conditionBlock
  refine h.bind fun r hr => ?_
  exact ends_newBlock.bind fun cond _ => ends_edgeFrom.bind fun _ _ => ends_pure hr

section Chain

variable {p : Program} {ts : List TokenId} {n : Nat} {paren : Option TokenId}

theorem ends_malformed (fault : BodyFault) (place : Option TokenId) :
    Ends (p.Excuses ts) Q (malformed p fault place : Build α) :=
  ends_throw ⟨(nomatch ·), (nomatch ·)⟩

/-- Where nothing is left after the header of a keyword, the chain breaks off. -/
theorem ends_header (keyword : String) (h : p.Left ts n paren) :
    Ends (p.Excuses ts) (fun r => p.Left ts n r.2 ∧ (r.2 = none → ∀ k ∈ ts,
      p.text k ∈ Program.headKeywords → p.HeaderAt k paren → p.BreaksOff ts))
      (header p keyword paren) := by
  unfold header
  split
  · exact ends_malformed _ _
  · rename_i t
    split
    · exact ends_malformed _ _
    · rename_i close hclose
      obtain ⟨htext, hlink⟩ : p.text t = "(" ∧ (p.token t).link = some close := by
        split_ifs at hclose with htext
        exact ⟨htext, hclose⟩
      have hpartner : p.partner? t = some close :=
        (Program.partner?_of_text (by simp [htext])).trans hlink
      have hleft := (h.mono (Nat.le_succ n)).partner hpartner
      exact ends_pure ⟨hleft.next_le, fun hnone k hk hkeyword hat =>
        ⟨close, hleft.mem, hnone, .inr (.inr ⟨k, hk, hkeyword, t, hat, htext, hlink⟩)⟩⟩

/-- A statement is due after the header of a keyword. -/
theorem ends_header_due {k : TokenId} (keyword : String) (h : p.Left ts n paren) (hk : k ∈ ts)
    (hkeyword : p.text k ∈ Program.headKeywords) (hat : p.HeaderAt k paren) :
    Ends (p.Excuses ts) (fun r => p.Due ts n r.2) (header p keyword paren) :=
  (ends_header keyword h).mono fun _ hr => ⟨hr.1, fun hnone => hr.2 hnone k hk hkeyword hat⟩

end Chain

end Build

/-! ### Statements of each kind -/

namespace Body

open Build

variable {p : Program} {read : StatementReader} {targets : JumpTargets} {limit t : TokenId}
  {start : Option TokenId} {current : Option BlockId}

section Kinds

variable {E : BodyError → Prop} {R M Q : Option TokenId → Prop}

/-- From a token that satisfies `R`, whatever block is live, the step ends before one that satisfies
`Q`. -/
def Leads (E : BodyError → Prop) (R Q : Option TokenId → Prop)
    (m : Option TokenId → Option BlockId → Build AfterStatement) : Prop :=
  ∀ start current, R start → Ends E (fun a => Q a.1) (m start current)

/-- The body of a loop is read with other targets, but inside the same `switch`. -/
theorem ends_loopBody {body back after : BlockId} {kind : EdgeKind}
    (hread : ∀ inside, inside.dispatch = targets.dispatch → Leads E R Q (read inside limit))
    (hstart : R start) :
    Ends E Q (loopBody read targets limit start body back after kind) := by
  unfold loopBody
  extract_lets inside
  refine (hread inside rfl start (some body) hstart).bind fun a ha => ?_
  exact ends_edgeFrom.bind fun _ _ => ends_pure ha

theorem ends_whileStatement
    (hheader : Ends E (fun r => R r.2) (header p "while" (p.nextOf t)))
    (hread : ∀ inside, inside.dispatch = targets.dispatch → Leads E R Q (read inside limit)) :
    Ends E (fun a => Q a.1) (whileStatement p read targets limit t current) := by
  unfold whileStatement
  refine (ends_conditionBlock hheader).bind ?_
  rintro ⟨cond, start⟩ hstart
  refine ends_newBlock.bind fun after _ => ends_newBlock.bind fun body _ => ?_
  refine ends_edge.bind fun _ _ => ends_edge.bind fun _ _ => ?_
  exact (ends_loopBody hread hstart).bind fun next hnext => ends_pure hnext

theorem ends_forStatement
    (hheader : Ends E (fun r => R r.2) (header p "for" (p.nextOf t)))
    (hread : ∀ inside, inside.dispatch = targets.dispatch → Leads E R Q (read inside limit)) :
    Ends E (fun a => Q a.1) (forStatement p read targets limit t current) := by
  unfold forStatement
  refine hheader.bind ?_
  rintro ⟨inside, start⟩ hstart
  refine ends_newBlock.bind fun after _ => ?_
  split
  · unfold forThree
    refine ends_newBlock.bind fun init _ => ends_edgeFrom.bind fun _ _ => ?_
    refine ends_newBlock.bind fun cond _ => ends_edge.bind fun _ _ => ?_
    refine ends_newBlock.bind fun step _ => ends_newBlock.bind fun body _ => ?_
    refine ends_edge.bind fun _ _ => ?_
    extract_lets finish
    have hfinish : Ends E (fun a => Q a.1) (finish ()) :=
      (ends_loopBody hread hstart).bind fun next hnext =>
        ends_edge.bind fun _ _ => ends_pure hnext
    split_ifs
    · exact ends_edge.bind fun _ _ => hfinish
    · exact hfinish
  · unfold forRange
    refine ends_newBlock.bind fun cond _ => ends_edgeFrom.bind fun _ _ => ?_
    refine ends_newBlock.bind fun body _ => ends_edge.bind fun _ _ => ends_edge.bind fun _ _ => ?_
    exact (ends_loopBody hread hstart).bind fun next hnext => ends_pure hnext

/-- After the body of a `do` its `while` is due, and a semicolon may follow the header. -/
theorem ends_doStatement (hstart : R (p.nextOf t))
    (hread : ∀ inside, inside.dispatch = targets.dispatch → Leads E R M (read inside limit))
    (hmissing : ∀ next, M next → p.textOf next ≠ "while" → ∀ place, E (.malformed .noWhile place))
    (hheader : ∀ next, M next → p.textOf next = "while" →
      Ends E (fun r => Q (if p.textOf r.2 = ";" then r.2.bind p.nextOf else r.2))
        (header p "while" (next.bind p.nextOf))) :
    Ends E (fun a => Q a.1) (doStatement p read targets limit t current) := by
  unfold doStatement
  refine ends_newBlock.bind fun body _ => ends_edgeFrom.bind fun _ _ => ?_
  refine ends_newBlock.bind fun cond _ => ends_newBlock.bind fun after _ => ?_
  refine (ends_loopBody hread hstart).bind fun next hnext => ?_
  split_ifs with hword
  · exact ends_throw (hmissing next hnext hword _)
  · refine (hheader next hnext (not_not.1 hword)).bind ?_
    rintro ⟨inside, next⟩ hafter
    refine ends_append.bind fun _ _ => ends_edge.bind fun _ _ => ends_edge.bind fun _ _ => ?_
    exact ends_pure hafter

/-- After the first branch of an `if`, another one is due if there is an `else`. -/
theorem ends_ifStatement
    (hheader : Ends E (fun r => R r.2) (header p "if"
      (if p.textOf (p.nextOf t) = "constexpr" then (p.nextOf t).bind p.nextOf else p.nextOf t)))
    (hread : Leads E R M (read targets limit))
    (hstop : ∀ next, M next → p.textOf next ≠ "else" → Q next)
    (hother : Leads E (fun start => ∃ next, M next ∧ p.textOf next = "else" ∧
      start = next.bind p.nextOf) Q (read targets limit)) :
    Ends E (fun a => Q a.1) (ifStatement p read targets limit t current) := by
  unfold ifStatement
  extract_lets next paren
  refine (ends_conditionBlock hheader).bind ?_
  rintro ⟨cond, start⟩ hstart
  refine ends_newBlock.bind fun trueBlock _ => ends_edge.bind fun _ _ => ?_
  refine (hread start (some trueBlock) hstart).bind ?_
  rintro ⟨next, trueEnd⟩ hnext
  dsimp only at hnext ⊢
  split_ifs with helse
  · refine ends_newBlock.bind fun falseBlock _ => ends_edge.bind fun _ _ => ?_
    refine (hother _ (some falseBlock) ⟨next, hnext, helse, rfl⟩).bind fun a ha => ?_
    exact ends_merge.bind fun _ _ => ends_pure ha
  · exact ends_newBlock.bind fun merged _ => ends_edge.bind fun _ _ => ends_edgeFrom.bind fun _ _ =>
      ends_pure (hstop next hnext helse)

theorem ends_switchStatement
    (hheader : Ends E (fun r => R r.2) (header p "switch" (p.nextOf t)))
    (hread : ∀ inside, inside.dispatch.isSome = true → Leads E R Q (read inside limit)) :
    Ends E (fun a => Q a.1) (switchStatement p read targets limit t current) := by
  unfold switchStatement
  refine (ends_conditionBlock hheader).bind ?_
  rintro ⟨dispatch, start⟩ hstart
  refine ends_newBlock.bind fun after _ => ?_
  refine (hread _ rfl start none hstart).bind ?_
  rintro ⟨next, bodyEnd⟩ hnext
  refine ends_edgeFrom.bind fun _ _ => ends_get.bind fun s _ => ?_
  extract_lets g finish
  have hfinish : Ends E (fun a => Q a.1) (finish ()) := ends_pure hnext
  split_ifs
  · exact hfinish
  · exact ends_edge.bind fun _ _ => hfinish

theorem ends_jumpStatement
    (hQ : Q (p.statementTokens limit (p.tokens.size + 1) (some t)).2) :
    Ends E (fun a => Q a.1) (jumpStatement p targets limit t current) := by
  unfold jumpStatement
  refine ends_live.bind fun block _ => ends_append.bind fun _ _ => ends_get.bind fun s _ => ?_
  extract_lets exit finish
  have hfinish : Ends E (fun a => Q a.1) (finish ()) := ends_pure hQ
  split
  · exact (ends_modify _).bind fun _ _ => ends_edge.bind fun _ _ => hfinish
  · exact (ends_forM _ fun handler => ends_edge).bind fun _ _ => hfinish
  · exact ends_edge.bind fun _ _ => hfinish
  · exact ends_edge.bind fun _ _ => hfinish
  · exact (ends_modify _).bind fun _ _ => hfinish

theorem ends_labelStatement {after : Option TokenId} (hQ : Q after) :
    Ends E (fun a => Q a.1) (labelStatement p t after current) := by
  unfold labelStatement
  exact ends_newBlock.bind fun block _ => ends_edgeFrom.bind fun _ _ =>
    (ends_modify _).bind fun _ _ => ends_pure hQ

theorem ends_plainStatement
    (hQ : Q (p.statementTokens limit (p.tokens.size + 1) (some t)).2) :
    Ends E (fun a => Q a.1) (plainStatement p limit t current) := by
  unfold plainStatement
  exact ends_live.bind fun block _ => ends_append.bind fun _ _ => ends_pure hQ

end Kinds

/-! ### Statements on a chain -/

variable {ts : List TokenId} {n : Nat}

/-- From a place where at most so many tokens are left, the reader comes to an end.  It takes a
token unless it stands at the limit, and it finds one unless the chain breaks off. -/
def Reads (p : Program) (ts : List TokenId) (read : StatementReader) (n : Nat) : Prop :=
  ∀ (targets : JumpTargets) (limit : TokenId) (tok : Option TokenId) (current : Option BlockId),
    p.Due ts n tok →
      Ends (p.Excuses ts) (fun a => p.Left ts n a.1 ∧ (tok ≠ some limit → p.Left ts (n - 1) a.1))
        (read targets limit tok current)

theorem Reads.leads (h : Reads p ts read n) :
    Leads (p.Excuses ts) (p.Due ts n) (p.Left ts n) (read targets limit) :=
  fun start current hstart => (h targets limit start current hstart).mono fun _ => And.left

section Statements

/-- Each statement in a row takes a token, so the fuel does not run out. -/
theorem ends_statements (hread : ∀ m ≤ n, Reads p ts read m) {fuel : Nat}
    (h : p.Left ts n start) (hfuel : n < fuel) :
    Ends (p.Excuses ts) (fun _ => True) (statements read targets limit fuel start current) := by
  induction fuel generalizing n start current with
  | zero => exact absurd hfuel (Nat.not_lt_zero n)
  | succ fuel ih =>
    cases start with
    | none => exact ends_pure trivial
    | some t =>
      rw [statements]
      split_ifs with hlimit
      · exact ends_pure trivial
      · obtain ⟨m, rfl⟩ := Nat.exists_eq_add_one_of_ne_zero (Nat.ne_zero_of_lt h.pos)
        refine (hread (m + 1) (Nat.le_refl _) targets limit (some t) current ⟨h, nofun⟩).bind ?_
        rintro ⟨next, current⟩ ⟨-, htaken⟩
        -- The statement does not stand at the limit, so it has taken a token for the fuel spent.
        refine ih (fun k hk => hread k (Nat.le_succ_of_le hk)) ?_ (Nat.lt_of_succ_lt_succ hfuel)
        exact htaken fun heq => hlimit (Option.some.inj heq)

theorem ends_caseLabel (dispatch : BlockId) (h : p.Left ts (n + 1) (some t)) :
    Ends (p.Excuses ts) (fun a => p.Left ts n a.1) (caseLabel p dispatch limit t current) := by
  unfold caseLabel
  extract_lets finish
  have hfinish : ∀ r : BlockId × Option TokenId, p.Left ts n r.2 →
      Ends (p.Excuses ts) (fun a => p.Left ts n a.1) (finish r) := by
    rintro ⟨block, colon⟩ hcolon
    unfold finish
    dsimp only
    split
    · split_ifs
      · exact ends_edgeFrom.bind fun _ _ => ends_pure hcolon.next_le
      · exact ends_malformed _ _
    · exact ends_malformed _ _
  split_ifs
  · exact ends_newBlock.bind fun block _ => ends_edge.bind fun _ _ =>
      ends_pure_bind (hfinish (block, _) h.next)
  · exact ends_newBlock.bind fun block _ => ends_edge.bind fun _ _ =>
      ends_pure_bind (hfinish (block, _) (Program.left_labelTokens _ _ h.next))

/-- The header of an `if` may have to be looked for behind `constexpr`. -/
theorem header_if (h : p.Left ts (n + 1) (some t)) :
    ∃ paren, (if p.textOf (p.nextOf t) = "constexpr" then (p.nextOf t).bind p.nextOf
      else p.nextOf t) = paren ∧ p.Left ts n paren ∧ p.HeaderAt t paren := by
  refine ⟨_, rfl, ?_⟩
  split_ifs with hconstexpr
  · refine ⟨h.next.bind_next, .inr ?_⟩
    cases hc : p.nextOf t with
    | none => simp [hc, Program.textOf] at hconstexpr
    | some c =>
      rw [hc] at hconstexpr
      exact ⟨c, rfl, hconstexpr, rfl⟩
  · exact ⟨h.next, .inl rfl⟩

/-- A statement is due after `else`, which may be the last token. -/
theorem due_of_else {next : Option TokenId} (h : p.Left ts n next)
    (helse : p.textOf next = "else") : p.Due ts n (next.bind p.nextOf) := by
  refine ⟨h.bind_next, fun hnone => ?_⟩
  cases next with
  | none => simp [Program.textOf] at helse
  | some z => exact ⟨z, h.mem, hnone, .inl helse⟩

/-! ### Handlers -/

/-- The handlers of a `try` take tokens as well; the body of each starts on the chain. -/
theorem ends_handlers {fuel : Nat} (h : p.Left ts n start)
    (hfuel : n < fuel) :
    Ends (p.Excuses ts) (fun r => p.Left ts n r.2 ∧ ∀ c ∈ r.1, p.Left ts n (some c.1))
      (handlers p fuel start) := by
  induction fuel generalizing n start with
  | zero => exact absurd hfuel (Nat.not_lt_zero n)
  | succ fuel ih =>
    cases start with
    | none => exact ends_pure ⟨h, nofun⟩
    | some t =>
      rw [handlers]
      split_ifs
      · exact ends_pure ⟨h, nofun⟩
      · obtain ⟨m, rfl⟩ := Nat.exists_eq_add_one_of_ne_zero (Nat.ne_zero_of_lt h.pos)
        refine (ends_header "catch" h.next).bind ?_
        rintro ⟨inside, start⟩ ⟨hstart, -⟩
        dsimp only at hstart ⊢
        split
        · exact ends_malformed _ _
        · rename_i brace close hbraced
          obtain ⟨rfl, htext, hlink⟩ := of_braced? hbraced
          have hpartner := (Program.partner?_of_text (by simp [htext])).trans hlink
          have hclose := (hstart.mono (Nat.le_succ m)).partner hpartner
          refine ends_newBlock.bind fun block _ => ?_
          refine (ih hclose.next_le (Nat.lt_of_succ_lt_succ hfuel)).bind ?_
          rintro ⟨rest, next⟩ ⟨hnext, hrest⟩
          refine ends_pure ⟨hnext.mono (Nat.le_succ m), fun c hc => ?_⟩
          rcases List.mem_cons.1 hc with rfl | hc
          · exact hstart.mono (Nat.le_succ m)
          · exact (hrest c hc).mono (Nat.le_succ m)

theorem ends_handlerBodies (hread : Reads p ts read n) {clauses : List (TokenId × BlockId)}
    (h : ∀ c ∈ clauses, p.Left ts n (some c.1)) :
    Ends (p.Excuses ts) (fun _ => True) (handlerBodies read targets limit clauses) := by
  induction clauses with
  | nil => exact ends_pure trivial
  | cons c clauses ih =>
    obtain ⟨brace, block⟩ := c
    rw [handlerBodies]
    refine (hread.leads _ _ ⟨h _ (List.mem_cons_self ..), nofun⟩).bind ?_
    rintro ⟨-, bodyEnd⟩ -
    refine (ih fun c hc => h c (List.mem_cons_of_mem _ hc)).bind fun ends _ => ?_
    exact ends_pure trivial

theorem ends_tryStatement (hread : ∀ m ≤ n, Reads p ts read m)
    (h : p.Left ts (n + 1) (some t)) (hsize : n ≤ p.tokens.size) :
    Ends (p.Excuses ts) (fun a => p.Left ts n a.1)
      (tryStatement p read targets limit t current) := by
  have hnow := hread n (Nat.le_refl n)
  unfold tryStatement
  split
  · exact ends_malformed _ _
  · rename_i brace close hbraced
    obtain ⟨hbrace, htext, hlink⟩ := of_braced? hbraced
    have hpartner := (Program.partner?_of_text (by simp [htext])).trans hlink
    have hstart : p.Left ts n (some brace) := hbrace ▸ h.next
    have hclose := (hstart.mono (Nat.le_succ n)).partner hpartner
    refine ends_newBlock.bind fun tryBlock _ => ends_edgeFrom.bind fun _ _ => ?_
    refine (ends_handlers hclose.next_le (Nat.lt_succ_of_le hsize)).bind ?_
    rintro ⟨clauses, next⟩ ⟨hnext, hclauses⟩
    refine ends_get.bind fun s _ => (hnow.leads _ _ ⟨hstart, nofun⟩).bind ?_
    rintro ⟨-, bodyEnd⟩ -
    refine ends_get.bind fun s _ => ?_
    refine (ends_forM _ fun b => ends_forM _ fun handler => ends_edge).bind fun _ _ => ?_
    refine (ends_handlerBodies hnow hclauses).bind fun ends _ => ?_
    exact ends_merge.bind fun merged _ => ends_pure hnext

/-! ### Any statement -/

/-- One statement comes to an end if those inside it do. -/
theorem reads_statementWith (hsize : n ≤ p.tokens.size)
    (hread : ∀ m < n, Reads p ts read m) : Reads p ts (statementWith p read) n := by
  rintro targets limit tok current ⟨h, hbreak⟩
  cases tok with
  | none => exact ends_throw ⟨nofun, fun _ => hbreak rfl⟩
  | some t =>
    obtain ⟨n, rfl⟩ := Nat.exists_eq_add_one_of_ne_zero (Nat.ne_zero_of_lt h.pos)
    have hinner : ∀ m ≤ n, Reads p ts read m := fun m hm => hread m (Nat.lt_succ_of_le hm)
    have hnow := hinner n (Nat.le_refl n)
    have hroom : n ≤ p.tokens.size := Nat.le_of_succ_le hsize
    -- All statements take their first token, but for those that run up to the limit.
    have htaken : ∀ {m : Build AfterStatement}, Ends (p.Excuses ts) (fun a => p.Left ts n a.1) m →
        Ends (p.Excuses ts) (fun a => p.Left ts (n + 1) a.1 ∧
          (some t ≠ some limit → p.Left ts (n + 1 - 1) a.1)) m := fun hm =>
      hm.mono fun a ha => ⟨ha.mono (Nat.le_succ n), fun _ => ha⟩
    let taken := fun next => p.Left ts (n + 1) next ∧ (some t ≠ some limit → p.Left ts n next)
    have hscanned : taken (p.statementTokens limit (p.tokens.size + 1) (some t)).2 :=
      ⟨Program.left_statementTokens _ h, fun hlimit =>
        Program.left_after_statementTokens _ h fun heq => hlimit (heq ▸ rfl)⟩
    apply statementWith_cases (motive := fun F => Ends (p.Excuses ts)
      (fun a => p.Left ts (n + 1) a.1 ∧ (some t ≠ some limit → p.Left ts (n + 1 - 1) a.1)) (F read))
    case unmatched => exact fun _ => ends_malformed _ _
    case braces =>
      intro close hbrace hlink
      have hpartner : p.partner? t = some close :=
        (Program.partner?_of_text (by simp [hbrace])).trans hlink
      apply htaken
      refine (ends_statements hinner h.next (Nat.lt_succ_of_le hroom)).bind fun block _ => ?_
      exact ends_pure (h.partner hpartner).next_le
    case empty => exact fun _ => htaken (ends_pure h.next)
    case arm => exact fun d _ => htaken (ends_caseLabel d h)
    case label => exact fun _ _ => htaken (ends_labelStatement h.next.bind_next)
    case ifWord =>
      intro hif
      obtain ⟨paren, hparen, hleft, hat⟩ := header_if h
      refine htaken (ends_ifStatement (R := p.Due ts n) (M := p.Left ts n) ?_ hnow.leads
        (fun _ hnext _ => hnext) ?_)
      · rw [hparen]
        exact ends_header_due "if" hleft h.mem (by rw [hif]; decide) hat
      · rintro start current ⟨next, hnext, helse, rfl⟩
        exact hnow.leads _ current (due_of_else hnext helse)
    case whileWord =>
      intro hwhile
      have hheader := ends_header_due "while" h.next h.mem (by rw [hwhile]; decide) (.inl rfl)
      exact htaken (ends_whileStatement hheader fun _ _ => hnow.leads)
    case forWord =>
      intro hfor
      have hheader := ends_header_due "for" h.next h.mem (by rw [hfor]; decide) (.inl rfl)
      exact htaken (ends_forStatement hheader fun _ _ => hnow.leads)
    case doWord =>
      intro hdo
      have hdue : p.Due ts n (p.nextOf t) :=
        ⟨h.next, fun hnone => ⟨t, h.mem, hnone, .inr (.inl hdo)⟩⟩
      refine htaken (ends_doStatement (M := p.Left ts n) hdue (fun _ _ => hnow.leads)
        (fun _ _ _ _ => ⟨nofun, nofun⟩) ?_)
      intro next hnext _
      refine (ends_header "while" hnext.bind_next).mono fun r hr => ?_
      split_ifs
      · exact hr.1.bind_next
      · exact hr.1
    case switchWord =>
      intro hswitch
      have hheader := ends_header_due "switch" h.next h.mem (by rw [hswitch]; decide) (.inl rfl)
      exact htaken (ends_switchStatement hheader fun _ _ => hnow.leads)
    case tryWord => exact fun _ => htaken (ends_tryStatement hinner h hroom)
    case jump => exact fun _ => ends_jumpStatement (Q := taken) hscanned
    case plain => exact fun _ => ends_plainStatement (Q := taken) hscanned

/-- The depth that statements in each other need is bounded by the tokens that are left. -/
theorem reads_statement {depth : Nat} (hdepth : n < depth)
    (hsize : n ≤ p.tokens.size) : Reads p ts (statement p depth) n := by
  induction depth generalizing n with
  | zero => exact absurd hdepth (Nat.not_lt_zero n)
  | succ depth ih =>
    intro targets limit tok current h
    have hinner : ∀ m < n, Reads p ts (statement p depth) m := fun m hm =>
      ih (Nat.lt_of_lt_of_le hm (Nat.le_of_lt_succ hdepth)) (Nat.le_trans (Nat.le_of_lt hm) hsize)
    exact reads_statementWith hsize hinner targets limit tok current h

end Statements

end Body

/-! ### Bodies -/

/-- **Reading a body comes to an end.**  On a finite chain with forward links it yields a graph, or
the statement that lacks something, or it finds that the chain breaks off. -/
theorem FlowGraph.ofBody_ends {p : Program} {first : TokenId} {ts : List TokenId}
    (h : p.Chained first ts) (name : Option String) (last : TokenId) :
    match FlowGraph.ofBody p name first last with
    | .ok _ => True
    | .error e => p.Excuses ts e := by
  have hlength := h.length_le
  have hstart : p.Left ts p.tokens.size (some first) := by
    obtain ⟨pre, us, rfl⟩ := List.append_of_mem h.start_mem
    refine ⟨h.inOrder, fun t ht => ?_⟩
    obtain rfl := Option.some.inj ht
    refine ⟨us, List.suffix_append pre (first :: us), ?_⟩
    simp only [List.length_append, List.length_cons] at hlength
    omega
  -- A statement inside another one starts later, so depth is bounded by the tokens as well.
  have hdepth := Body.le_depthLimit p
  have hread : ∀ m ≤ p.tokens.size, Body.Reads p ts (Body.statement p (Body.depthLimit p)) m :=
    fun m hm => Body.reads_statement (by omega) hm
  have hbody : Build.Ends (p.Excuses ts) (fun _ => True)
      (Body.body p (p.nextOf first) last) := by
    unfold Body.body
    refine Build.ends_newBlock.bind fun first _ => Build.ends_get.bind fun s _ => ?_
    refine Build.ends_edge.bind fun _ _ => ?_
    refine (Body.ends_statements hread hstart.next_le (Nat.lt_succ_self _)).bind fun last _ => ?_
    refine Build.ends_edgeFrom.bind fun _ _ => Build.ends_get.bind fun s _ => ?_
    exact Build.ends_forM _ fun _ => Build.ends_edge
  have hrun := hbody { graph := .init name }
  unfold FlowGraph.ofBody
  change match (Body.body p (p.nextOf first) last { graph := .init name }).map (·.2.graph) with
    | .ok _ => True
    | .error e => p.Excuses ts e
  cases hr : Body.body p (p.nextOf first) last { graph := .init name } with
  | ok r => trivial
  | error e =>
    rw [hr] at hrun
    exact hrun

end DivisorCheck
