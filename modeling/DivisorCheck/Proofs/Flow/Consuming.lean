/-
  What the reader takes of a statement.

  Whatever has been built before, the reader stops at a token that the statement
  alone settles: after it, or before the statement behind the label that an unbraced
  arm or body ends with (`Statement.taken`).  In a row it goes on with what is left,
  as if the row had been that from the start (`Statements.onward`).

  Where it stops does not depend on what stands in braces, for the closing brace
  ends that in any case; but only there may the reader fail.  So the lemmas leave
  open which errors are allowed: with all of them, they say where the reader stops
  if it does, and with none, that it does not fail.

  For statements in each other the induction is on the depth of the reader.  For
  statements in a row it is on the fuel: what is left of a statement is no part that
  a constructor names, but it is shorter.
-/
import DivisorCheck.Proofs.Code.Grammar
import DivisorCheck.Proofs.Flow.Ending
import DivisorCheck.Proofs.Flow.Execution

namespace DivisorCheck

open Build Body

variable {p : Program} {E : BodyError → Prop} {limit : TokenId} {now : Bool}
  {start mid after : Option TokenId}

/-! ### Readers that stop at a token -/

/-- With any live block and whatever has been built, the step stops at the token, unless it fails
with an error that is allowed. -/
def Build.StopsAt (E : BodyError → Prop) (m : Option BlockId → Build AfterStatement)
    (next : Option TokenId) : Prop :=
  ∀ current, Ends E (fun a => a.1 = next) (m current)

theorem Build.StopsAt.leads {m : Option TokenId → Option BlockId → Build AfterStatement}
    (h : StopsAt E (m start) mid) : Leads E (· = start) (· = mid) m := by
  rintro _ current rfl
  exact h current

theorem Build.StopsAt.fst_eq {m : Option BlockId → Build AfterStatement} (h : StopsAt E m mid)
    {current : Option BlockId} {s s' : BodyBuilder} {a : AfterStatement}
    (hrun : m current s = .ok (a, s')) : a.1 = mid := by
  have hends := h current s
  rwa [hrun] at hends

theorem Build.StopsAt.exists_ok {m : Option BlockId → Build AfterStatement}
    (h : StopsAt (fun _ => False) m mid) (current : Option BlockId) (s : BodyBuilder) :
    ∃ block s', m current s = .ok ((mid, block), s') := by
  cases hrun : m current s with
  | error e =>
    have hends := h current s
    rw [hrun] at hends
    exact hends.elim
  | ok r =>
    obtain ⟨⟨next, block⟩, s'⟩ := r
    obtain rfl := h.fst_eq hrun
    exact ⟨block, s', rfl⟩

/-- Where all errors are allowed, a step may end as it likes. -/
theorem Build.ends_of_forall {α : Type} (hE : ∀ e, E e) (m : Build α) :
    Ends E (fun _ => True) m := by
  intro s
  split
  · trivial
  · exact hE _

/-- Wherever the statement stands, the reader takes of it what it does not leave; `now` says whether
a `switch` is around it. -/
def Statement.IsTakenBy (p : Program) (E : BodyError → Prop) (read : StatementReader) (now : Bool)
    (s : Statement) : Prop :=
  ∀ targets limit start mid, targets.dispatch.isSome = now →
    p.Placed limit start s.taken mid → (s.dangles = true → p.textOf mid ≠ "else") →
    StopsAt E (read targets limit start) mid

/-- Statements in a row that end at the limit are all read. -/
def Statements.AreTakenBy (p : Program) (E : BodyError → Prop) (read : StatementReader) (now : Bool)
    (items : Statements) : Prop :=
  ∀ targets limit start fuel current, targets.dispatch.isSome = now →
    p.Placed limit start items.tokens (some limit) → items.tokens.length < fuel →
    p.text limit ≠ "else" →
    Ends E (fun _ => True) (Body.statements read targets limit fuel start current)

theorem Program.Placed.ends_header {h : Header} {word : String} {us : List TokenId}
    (hplaced : p.Placed limit start (h.tokens ++ us) after) (hr : h.Rendered p word)
    (name : String) :
    start = some h.keyword ∧ p.textOf (p.nextOf h.keyword) = "(" ∧
    Ends E (fun r => r.2 = p.nextOf h.close) (Build.header p name (p.nextOf h.keyword)) ∧
    p.Placed limit (p.nextOf h.close) us after := by
  obtain ⟨hstart, hparen, hheader, hafter⟩ := hplaced.header_eq hr name
  refine ⟨hstart, hparen, ?_, hafter⟩
  rw [hheader]
  exact ends_pure rfl

/-! ### Each kind of statement -/

section Kinds

variable {depth : Nat} {h : Header} {body other : Statement}

theorem taken_empty {semicolon : TokenId} (hr : (Statement.empty semicolon).Rendered p) :
    (Statement.empty semicolon).IsTakenBy p E (statement p (depth + 1)) now := by
  intro targets limit start mid _ hplaced _
  obtain ⟨rfl, -, hrest⟩ := hplaced.cons
  obtain rfl : p.nextOf semicolon = mid := hrest.spells
  rw [statement_empty hr]
  exact fun current => ends_pure rfl

theorem taken_plain {ts : List TokenId} {semicolon : TokenId}
    (hr : (Statement.plain ts semicolon).Rendered p) :
    (Statement.plain ts semicolon).IsTakenBy p E (statement p (depth + 1)) now := by
  intro targets limit start mid _ hplaced _
  obtain ⟨hts, hsemicolon, hhead⟩ := hr
  obtain ⟨t, rfl, hword, hlabel, hscan⟩ := hplaced.plain_eq hts hsemicolon hhead
  rw [statement_plain hword hlabel]
  exact fun current => ends_plainStatement (Q := (· = mid)) (congrArg Prod.snd hscan)

theorem taken_jump {keyword semicolon : TokenId} {rest : List TokenId}
    (hr : (Statement.jump keyword rest semicolon).Rendered p) :
    (Statement.jump keyword rest semicolon).IsTakenBy p E (statement p (depth + 1)) now := by
  intro targets limit start mid _ hplaced _
  obtain ⟨hjump, hlabel, hrest, hsemicolon⟩ := hr
  obtain ⟨rfl, hscan⟩ := Program.Placed.jump_eq hplaced hjump hrest hsemicolon
  rw [statement_jump hjump hlabel]
  exact fun current => ends_jumpStatement (Q := (· = mid)) (congrArg Prod.snd hscan)

theorem taken_braces {brace close : TokenId} {items : Statements}
    (hr : (Statement.braces brace items close).Rendered p)
    (hitems : (∀ e, E e) ∨ items.AreTakenBy p E (statement p depth) now) :
    (Statement.braces brace items close).IsTakenBy p E (statement p (depth + 1)) now := by
  intro targets limit start mid hnow hplaced _
  obtain ⟨hbrace, hlink, hclose, -⟩ := hr
  obtain ⟨rfl, -, hrest⟩ := hplaced.cons
  obtain ⟨hinside, hafter⟩ := hrest.inside
  obtain rfl : p.nextOf close = mid := hafter.spells
  rw [statement_brace hbrace hlink]
  have helse : p.text close ≠ "else" := by
    rw [hclose]
    decide
  intro current
  have hrow : Ends E (fun _ => True) (Body.statements (statement p depth) targets close
      (p.tokens.size + 1) (p.nextOf brace) current) := by
    rcases hitems with hE | hitems
    · exact ends_of_forall hE _
    · exact hitems targets close _ _ current hnow hinside (Nat.lt_succ_of_le hinside.length) helse
  exact hrow.bind fun block _ => ends_pure rfl

theorem taken_ifThen (hr : h.Rendered p "if")
    (hbody : body.IsTakenBy p E (statement p depth) now) :
    (Statement.ifThen h body).IsTakenBy p E (statement p (depth + 1)) now := by
  intro targets limit start mid hnow hplaced helse
  obtain ⟨rfl, hparen, hheader, hrest⟩ := hplaced.ends_header hr "if"
  have hstops := hbody targets limit _ mid hnow hrest fun _ => helse rfl
  rw [statement_if hr.keyword hparen]
  intro current
  refine ends_ifStatement (R := (· = p.nextOf h.close)) (M := (· = mid)) ?_ hstops.leads
    (fun _ hnext _ => hnext) ?_
  · rw [if_neg (ne_constexpr hparen)]
    exact hheader
  · -- The branch for `else` is not taken, since no `else` comes next.
    rintro _ _ ⟨_, rfl, hword, rfl⟩
    exact absurd hword (helse rfl)

theorem taken_ifElse {elseWord : TokenId} (hr : (Statement.ifElse h body elseWord other).Rendered p)
    (hleft : body.left = none) (hbody : body.IsTakenBy p E (statement p depth) now)
    (hother : other.IsTakenBy p E (statement p depth) now) :
    (Statement.ifElse h body elseWord other).IsTakenBy p E (statement p (depth + 1)) now := by
  intro targets limit start mid hnow hplaced helse
  obtain ⟨hhead, -, hdangles, hword, -⟩ := hr
  obtain ⟨rfl, hparen, hheader, hrest⟩ := hplaced.ends_header hhead "if"
  obtain ⟨_, hbodyPlaced, hafter⟩ := hrest.append
  obtain ⟨rfl, -, hotherPlaced⟩ := hafter.cons
  rw [← Statement.taken_eq_tokens hleft] at hbodyPlaced
  have hstopsBody := hbody targets limit _ _ hnow hbodyPlaced
    fun htrue => absurd (hdangles.symm.trans htrue) nofun
  have hstopsOther := hother targets limit _ mid hnow hotherPlaced helse
  rw [statement_if hhead.keyword hparen]
  intro current
  refine ends_ifStatement (R := (· = p.nextOf h.close)) (M := (· = some elseWord))
    (Q := (· = mid)) ?_ hstopsBody.leads ?_ ?_
  · rw [if_neg (ne_constexpr hparen)]
    exact hheader
  · rintro _ rfl hnot
    exact absurd hword hnot
  · rintro _ current ⟨_, rfl, -, rfl⟩
    exact hstopsOther current

theorem taken_headed {kind : HeadKind} (hr : h.Rendered p kind.word)
    (hbody : body.IsTakenBy p E (statement p depth) (now || kind == .switch)) :
    (Statement.headed kind h body).IsTakenBy p E (statement p (depth + 1)) now := by
  intro targets limit start mid hnow hplaced helse
  obtain ⟨rfl, hparen, hheader, hrest⟩ := hplaced.ends_header hr kind.word
  -- Loops leave the `switch` around them as it is, and a `switch` is one itself.
  have hread : ∀ inside : JumpTargets, inside.dispatch.isSome = (now || kind == .switch) →
      Leads E (· = p.nextOf h.close) (· = mid) (statement p depth inside limit) :=
    fun inside hsame => (hbody inside limit _ mid hsame hrest helse).leads
  intro current
  cases kind with
  | whileLoop =>
    rw [statement_while hr.keyword hparen]
    refine ends_whileStatement hheader fun inside hsame => hread inside ?_
    rw [hsame, hnow]
    exact (Bool.or_false _).symm
  | forLoop =>
    rw [statement_for hr.keyword hparen]
    refine ends_forStatement hheader fun inside hsame => hread inside ?_
    rw [hsame, hnow]
    exact (Bool.or_false _).symm
  | switch =>
    rw [statement_switch hr.keyword hparen]
    refine ends_switchStatement hheader fun inside hsame => hread inside ?_
    rw [hsame]
    exact (Bool.or_true _).symm

theorem taken_doLoop {doWord semicolon : TokenId}
    (hr : (Statement.doLoop doWord body h semicolon).Rendered p)
    (hleft : body.left = none) (hbody : body.IsTakenBy p E (statement p depth) now) :
    (Statement.doLoop doWord body h semicolon).IsTakenBy p E (statement p (depth + 1)) now := by
  intro targets limit start mid hnow hplaced _
  obtain ⟨hdo, hbodyRendered, hhead, hsemicolon⟩ := hr
  obtain ⟨rfl, -, hrest⟩ := hplaced.cons
  obtain ⟨next, hbodyPlaced, hafter⟩ := hrest.append
  obtain ⟨rfl, -, hheader, hlast⟩ := hafter.ends_header hhead "while"
  obtain ⟨hstart, -, hend⟩ := hlast.cons
  obtain rfl : p.nextOf semicolon = mid := hend.spells
  -- The word is no label, for a statement stands behind it.
  have hcolon : p.textOf (p.nextOf doWord) ≠ ":" := by
    obtain ⟨t, ts, htaken, hne, -⟩ := hbodyRendered.exists_cons
    rw [← Statement.taken_eq_tokens hleft, htaken] at hbodyPlaced
    rw [hbodyPlaced.cons.1]
    exact hne
  rw [← Statement.taken_eq_tokens hleft] at hbodyPlaced
  have hword : p.textOf (some h.keyword) = "while" := hhead.keyword
  have hread : ∀ inside : JumpTargets, inside.dispatch = targets.dispatch →
      Leads E (· = p.nextOf doWord) (· = some h.keyword) (statement p depth inside limit) := by
    intro inside hsame
    refine (hbody inside limit _ _ (hsame ▸ hnow) hbodyPlaced fun _ => ?_).leads
    rw [hword]
    decide
  rw [statement_do hdo hcolon]
  intro current
  refine ends_doStatement (R := (· = p.nextOf doWord)) (Q := (· = p.nextOf semicolon)) rfl hread ?_ ?_
  · rintro _ rfl hnot
    exact absurd hword hnot
  · rintro _ rfl -
    refine hheader.mono fun r hnext => ?_
    rw [hnext, hstart]
    exact if_pos hsemicolon

theorem taken_label {name colon : TokenId} (hr : (Statement.label name colon body).Rendered p) :
    (Statement.label name colon body).IsTakenBy p E (statement p (depth + 1)) now := by
  intro targets limit start mid _ hplaced _
  obtain ⟨hword, hname, hcolon, -⟩ := hr
  obtain ⟨rfl, -, hrest⟩ := hplaced.cons
  obtain ⟨hnext, -, hend⟩ := hrest.cons
  obtain rfl : p.nextOf colon = mid := hend.spells
  have htext : p.textOf (p.nextOf name) = ":" := by
    rw [hnext]
    exact hcolon
  rw [statement_name hword hname htext, hnext]
  exact fun current => ends_labelStatement (Q := (· = p.nextOf colon)) rfl

theorem taken_arm {l : ArmLabel} (hr : (Statement.arm l body).Rendered p) :
    (Statement.arm l body).IsTakenBy p E (statement p (depth + 1)) true := by
  intro targets limit start mid hnow hplaced _
  obtain ⟨d, hd⟩ := Option.isSome_iff_exists.1 hnow
  have hlabel := ArmLabel.Rendered.word hr.1
  obtain ⟨⟨hcolon, hvalue⟩, -⟩ := hr
  obtain ⟨rfl, -, hrest⟩ := Program.Placed.cons hplaced
  rw [statement_label hlabel hd]
  intro current
  unfold caseLabel
  extract_lets finish
  -- The two kinds of labels differ in how their colon is found, and go on alike.
  have hfinish : ∀ block, Ends E (fun a => a.1 = mid) (finish (block, some l.colon)) := by
    intro block
    obtain ⟨_, -, hlast⟩ := hrest.append
    obtain ⟨-, -, hend⟩ := hlast.cons
    unfold finish
    simp only [if_pos hcolon]
    exact ends_edgeFrom.bind fun _ _ => ends_pure hend.spells
  obtain ⟨keyword, value, colon⟩ := l
  cases value with
  | none =>
    rw [if_pos hvalue, hrest.cons.1]
    exact ends_newBlock.bind fun block _ => ends_edge.bind fun _ _ =>
      ends_pure_bind (hfinish block)
  | some ts =>
    obtain ⟨hword, hpaired⟩ := hvalue
    have hnot : p.text keyword ≠ "default" := by
      rw [hword]
      decide
    have hlength := hrest.length
    rw [Option.getD_some, List.length_append, List.length_singleton] at hlength
    have hscan := Program.labelTokens_eq hpaired hcolon hrest
      (show ts.length < p.tokens.size by omega)
    rw [if_neg hnot, hscan]
    exact ends_newBlock.bind fun block _ => ends_edge.bind fun _ _ =>
      ends_pure_bind (hfinish block)

end Kinds

/-! ### Statements in a row -/

/-- The row that is read after what the reader takes of the first statement. -/
def Statements.onward (first : Statement) (rest : Statements) : Statements :=
  match first.left with
  | none => rest
  | some r => .cons r rest

/-- No tokens get lost on the way. -/
theorem Statements.onward_tokens (first : Statement) (rest : Statements) :
    (onward first rest).tokens = first.leftTokens ++ rest.tokens := by
  unfold onward Statement.leftTokens
  cases first.left with
  | none => rfl
  | some r => rfl

/-- A row is what the reader takes of its first statement, and the row that is read then. -/
theorem Statements.tokens_cons (first : Statement) (rest : Statements) :
    (cons first rest).tokens = first.taken ++ (onward first rest).tokens := by
  rw [onward_tokens, ← List.append_assoc, first.taken_append_leftTokens]
  rfl

theorem Statements.Rendered.onward {first : Statement} {rest : Statements}
    (h : (Statements.cons first rest).Rendered p) : (Statements.onward first rest).Rendered p := by
  unfold Statements.onward
  split
  · exact h.2
  · rename_i r hr
    exact ⟨h.1.left first r hr, h.2⟩

theorem Statements.Kept.onward {first : Statement} {rest : Statements}
    (h : (Statements.cons first rest).Kept now) : (Statements.onward first rest).Kept now := by
  unfold Statements.onward
  split
  · exact h.2.2
  · rename_i r hr
    obtain ⟨hkept, hinside⟩ := h.2.1.left first r hr
    exact ⟨hkept, hinside, h.2.2⟩

/-- What a row begins with, or the limit after it, takes no `else` with it. -/
theorem Program.Placed.textOf_ne_else {items : Statements}
    (h : p.Placed limit start items.tokens (some limit)) (hr : items.Rendered p)
    (hlimit : p.text limit ≠ "else") : p.textOf start ≠ "else" := by
  cases items with
  | nil =>
    obtain rfl : start = some limit := h.spells
    exact hlimit
  | cons first rest =>
    obtain ⟨t, ts, htaken, -, helse⟩ := hr.1.exists_cons
    change p.Placed limit start (first.tokens ++ rest.tokens) _ at h
    rw [← first.taken_append_leftTokens, htaken] at h
    rw [h.cons.1]
    exact helse

theorem areTaken {depth : Nat}
    (hread : ∀ s : Statement, s.tokens.length ≤ depth → s.Rendered p → s.Kept now →
      s.KeptInside now (some now) → s.IsTakenBy p E (statement p depth) now)
    (items : Statements) (hdepth : items.tokens.length ≤ depth) (hr : items.Rendered p)
    (hkept : items.Kept now) : items.AreTakenBy p E (statement p depth) now := by
  intro targets limit start fuel current hnow hplaced hfuel hlimit
  induction fuel generalizing items start current with
  | zero => exact absurd hfuel (Nat.not_lt_zero _)
  | succ fuel ih =>
    cases items with
    | nil =>
      obtain rfl : start = some limit := hplaced.spells
      rw [Body.statements, if_pos rfl]
      exact ends_pure trivial
    | cons first rest =>
      obtain ⟨t, ts, htaken, -, -⟩ := hr.1.exists_cons
      have htokens := Statements.tokens_cons first rest
      rw [htokens] at hplaced hdepth hfuel
      obtain ⟨mid, hfirst, honward⟩ := hplaced.append
      have hstops : StopsAt E (statement p depth targets limit start) mid := by
        have hshort : first.tokens.length ≤ depth := by
          rw [← htokens] at hdepth
          change (first.tokens ++ rest.tokens).length ≤ depth at hdepth
          rw [List.length_append] at hdepth
          omega
        exact hread first hshort hr.1 hkept.1 hkept.2.1 targets limit start mid hnow hfirst
          fun _ => honward.textOf_ne_else hr.onward hlimit
      -- At least one token is taken, so the row that comes next is shorter.
      rw [List.length_append, htaken, List.length_cons] at hdepth hfuel
      rw [htaken] at hfirst
      obtain ⟨rfl, hne, -⟩ := hfirst.cons
      rw [Body.statements, if_neg hne]
      refine (hstops current).bind fun a ha => ?_
      obtain ⟨next, block⟩ := a
      obtain rfl : next = mid := ha
      exact ih (Statements.onward first rest) (by omega) hr.onward hkept.onward _ block honward
        (by omega)

/-! ### Statements in each other -/

/-- A reader that is as deep as there are tokens takes the statement.  It can only fail for what is
not kept inside. -/
theorem isTaken (depth : Nat) (s : Statement) (later : Option Bool)
    (hdepth : s.tokens.length ≤ depth) (hr : s.Rendered p) (hkept : s.Kept now)
    (hinside : (∀ e, E e) ∨ s.KeptInside now later) :
    s.IsTakenBy p E (statement p depth) now := by
  induction depth generalizing s now later with
  | zero =>
    obtain ⟨t, ts, htaken, -⟩ := hr.exists_cons
    rw [← s.taken_append_leftTokens, htaken] at hdepth
    exact absurd hdepth (Nat.not_succ_le_zero _)
  | succ depth ih =>
    cases s with
    | empty => exact taken_empty hr
    | plain => exact taken_plain hr
    | jump => exact taken_jump hr
    | braces brace items close =>
      refine taken_braces hr (hinside.imp_right fun hitems => ?_)
      refine areTaken (fun s hs hr hkept hinside => ih s (some now) hs hr hkept (.inr hinside))
        items ?_ hr.2.2.2 hitems
      change (brace :: (items.tokens ++ [close])).length ≤ _ at hdepth
      simp only [List.length_cons, List.length_append] at hdepth
      omega
    | ifThen h body =>
      refine taken_ifThen hr.1 (ih body later ?_ hr.2 hkept hinside)
      change (h.tokens ++ body.tokens).length ≤ _ at hdepth
      simp only [Header.tokens, List.length_cons, List.length_append] at hdepth
      omega
    | ifElse h body elseWord other =>
      obtain ⟨hleft, hkeptBody, hkeptOther⟩ := hkept
      change (h.tokens ++ (body.tokens ++ elseWord :: other.tokens)).length ≤ _ at hdepth
      simp only [Header.tokens, List.length_cons, List.length_append] at hdepth
      exact taken_ifElse hr hleft
        (ih body later (by omega) hr.2.1 hkeptBody (hinside.imp_right And.left))
        (ih other later (by omega) hr.2.2.2.2 hkeptOther (hinside.imp_right And.right))
    | headed kind h body =>
      refine taken_headed hr.1 (ih body later ?_ hr.2 hkept hinside)
      change (h.tokens ++ body.tokens).length ≤ _ at hdepth
      simp only [Header.tokens, List.length_cons, List.length_append] at hdepth
      omega
    | doLoop doWord body h semicolon =>
      refine taken_doLoop hr hkept.1 (ih body later ?_ hr.2.1 hkept.2 hinside)
      change (doWord :: (body.tokens ++ (h.tokens ++ [semicolon]))).length ≤ _ at hdepth
      simp only [List.length_cons, List.length_append] at hdepth
      omega
    | label => exact taken_label hr
    | arm =>
      obtain rfl : now = true := hkept
      exact taken_arm hr

/-- **The reader takes one statement, up to a label that it ends an unbraced arm or body with.**
Where nothing is left behind such a label, it stops right after the statement.  It may only fail,
and stop nowhere, for what stands in braces. -/
theorem Statement.read_up_to_label {s : Statement} (targets : JumpTargets) (hr : s.Rendered p)
    (hkept : s.Kept targets.dispatch.isSome) (hplaced : p.Placed limit start s.tokens after)
    (helse : s.dangles = true → p.textOf after ≠ "else") :
    ∃ next, p.Spells start s.taken next ∧ p.Spells next s.leftTokens after ∧
      (s.left = none → next = after) ∧
      (∀ current builder a builder',
        Body.statement p (Body.depthLimit p) targets limit start current builder =
          .ok (a, builder') → a.1 = next) ∧
      (s.KeptInside targets.dispatch.isSome none → ∀ current builder, ∃ block builder',
        Body.statement p (Body.depthLimit p) targets limit start current builder =
          .ok ((next, block), builder')) := by
  have hdepth : s.tokens.length ≤ Body.depthLimit p := by
    have hroom := hplaced.length
    have hlimit := Body.le_depthLimit p
    omega
  rw [← s.taken_append_leftTokens] at hplaced
  obtain ⟨next, htaken, hleft⟩ := hplaced.append
  have hnone : s.left = none → next = after := by
    intro hnone
    have hspells := hleft.spells
    rw [Statement.leftTokens, hnone] at hspells
    exact hspells
  have hnext : s.dangles = true → p.textOf next ≠ "else" := by
    intro hdangles
    cases hs : s.left with
    | none =>
      rw [hnone hs]
      exact helse hdangles
    | some r =>
      -- What is left is a statement, and none begins with `else`.
      obtain ⟨t, ts, hrest, -, hword⟩ := (hr.left s r hs).exists_cons
      have hplaced := hleft
      rw [Statement.leftTokens, hs, Option.map_some, Option.getD_some,
        ← r.taken_append_leftTokens, hrest] at hplaced
      rw [hplaced.cons.1]
      exact hword
  have hstops : ∀ E : BodyError → Prop,
      (∀ e, E e) ∨ s.KeptInside targets.dispatch.isSome none →
      StopsAt E (Body.statement p (Body.depthLimit p) targets limit start) next :=
    fun E hinside => isTaken _ s none hdepth hr hkept hinside targets limit start next rfl htaken
      hnext
  refine ⟨next, htaken.spells, hleft.spells, hnone, fun _ _ _ _ hrun => ?_, fun hinside => ?_⟩
  · exact (hstops (fun _ => True) (.inl fun _ => trivial)).fst_eq hrun
  · exact (hstops (fun _ => False) (.inr hinside)).exists_ok

/-- `{ while (c) L: x; }`, and a brace after it -/
def labelledLoop : Program where
  tokens := #[
    { text := "\x7b", next := some 1, link := some 9 },
    { text := "while", next := some 2, isName := true },
    { text := "(", next := some 3, link := some 4 },
    { text := "c", next := some 4, isName := true },
    { text := ")", next := some 5, link := some 2 },
    { text := "L", next := some 6, isName := true },
    { text := ":", next := some 7 },
    { text := "x", next := some 8, isName := true },
    { text := ";", next := some 9 },
    { text := "\x7d", next := some 10, link := some 0 },
    { text := "\x7d" }]

/-- `while (c) L: x;` -/
def labelledWhile : Statement :=
  .headed .whileLoop ⟨1, 2, [3], 4⟩ (.label 5 6 (.plain [7] 8))

theorem rendered_labelledWhile : labelledWhile.Rendered labelledLoop := by
  have hplain : (Statement.plain [7] 8).Rendered labelledLoop :=
    ⟨.token rfl (by decide) .nil, rfl, 7, rfl, by decide, fun _ => by decide⟩
  exact ⟨⟨rfl, rfl, rfl⟩, by decide, rfl, rfl, hplain⟩

theorem read_up_to_label_labelledLoop : ∃ block builder,
    Body.statement labelledLoop (Body.depthLimit labelledLoop) {} 10 (some 0) none
      { graph := .init none } = .ok ((some 10, block), builder) := by
  let s : Statement := .braces 0 (.cons labelledWhile .nil) 9
  have hrendered : s.Rendered labelledLoop := ⟨rfl, rfl, rfl, rendered_labelledWhile, trivial⟩
  have hplaced : labelledLoop.Placed 10 (some 0) s.tokens (some 10) :=
    ⟨by repeat constructor, by decide, by decide, by decide⟩
  obtain ⟨next, -, -, hnext, -, hread⟩ := Statement.read_up_to_label {} hrendered trivial hplaced
    nofun
  obtain rfl := hnext rfl
  have hinside : s.KeptInside false none :=
    ⟨trivial, fun _ _ => ⟨trivial, trivial⟩, trivial⟩
  exact hread hinside none { graph := .init none }

/-- **A body with a label is not read to its end.**  The reader stops before `x`. -/
theorem body_not_taken_labelledLoop : ¬ ∀ (p : Program) (s : Statement) (limit : TokenId)
    (start after : Option TokenId), s.Rendered p → s.Kept false → s.KeptInside false (some false) →
      p.Placed limit start s.tokens after → (s.dangles = true → p.textOf after ≠ "else") →
      ∀ current builder, ∃ block builder',
        Body.statement p (Body.depthLimit p) {} limit start current builder =
          .ok ((after, block), builder') := by
  intro hclaim
  have hplaced : labelledLoop.Placed 10 (some 1) labelledWhile.tokens (some 9) :=
    ⟨by repeat constructor, by decide, by decide, by decide⟩
  obtain ⟨block, builder, hread⟩ := hclaim labelledLoop labelledWhile 10 (some 1) (some 9)
    rendered_labelledWhile trivial (fun _ _ => ⟨trivial, trivial⟩) hplaced nofun none
    { graph := .init none }
  have hstop : ((Body.statement labelledLoop (Body.depthLimit labelledLoop) {} 10 (some 1) none
      { graph := .init none }).toOption.map (·.1.1)) = some (some 7) := by decide +kernel
  rw [hread] at hstop
  change some (some 9) = some (some 7) at hstop
  exact absurd hstop (by decide)

end DivisorCheck
