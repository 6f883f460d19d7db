/-
  The graph of a body has the executions of the body.

  The reader is followed through a body along its structure: each statement begins
  with a word that tells the reader its kind, and the reader is deep enough for what
  is nested in it, since that has fewer tokens.  What is left then is the frame: the
  entry leads to the body, and its end and every `return` lead to the exit.
-/
import DivisorCheck.Proofs.Flow.Kinds
import DivisorCheck.Proofs.Flow.Switch

namespace DivisorCheck

open scoped Computability
open Build

variable {p : Program} {limit t : TokenId} {start after : Option TokenId} {us : List TokenId}

/-! ### What the reader finds first -/

/-- A statement begins with a token that neither labels it nor belongs to a conditional before. -/
theorem Stmt.Rendered.exists_cons :
    (s : Stmt) → s.Rendered p → ∃ t ts, s.tokens = t :: ts ∧ p.text t ∉ [":", "else"]
  | .empty _, h => ⟨_, [], rfl, by rw [show p.text _ = ";" from h]; decide⟩
  | .plain ts semicolon, ⟨_, _, t, ht, hword, _⟩ => by
    cases ts with
    | nil => cases ht
    | cons t' ts =>
      obtain rfl : t' = t := Option.some.inj ht
      refine ⟨t', ts ++ [semicolon], rfl, fun hmem => hword ?_⟩
      have hsub : [":", "else"] ⊆ Program.statementWords := by decide
      exact hsub hmem
  | .jump kind _ _ _, h => ⟨_, _, rfl, by rw [h.1]; cases kind <;> decide⟩
  | .braces _ _ _, h => ⟨_, _, rfl, by rw [h.1]; decide⟩
  | .ifThen _ _, h => ⟨_, _, rfl, by rw [h.1.keyword]; decide⟩
  | .ifElse _ _ _ _, h => ⟨_, _, rfl, by rw [h.1.keyword]; decide⟩
  | .whileLoop _ _, h => ⟨_, _, rfl, by rw [h.1.keyword]; decide⟩
  | .forLoop _ _, h => ⟨_, _, rfl, by rw [h.1.header.keyword]; decide⟩
  | .doLoop _ _ _ _, h => ⟨_, _, rfl, by rw [h.1]; decide⟩
  | .switch _ _ _ _, h => ⟨_, _, rfl, by rw [h.1.keyword]; decide⟩

namespace Program.Placed

theorem start_statement {s : Stmt} (h : p.Placed limit start (s.tokens ++ us) after)
    (hs : s.Rendered p) :
    ∃ t, start = some t ∧ t ≠ limit ∧ p.text t ≠ ":" ∧ p.text t ≠ "else" := by
  obtain ⟨t, ts, htokens, hword⟩ := Stmt.Rendered.exists_cons s hs
  rw [htokens] at h
  obtain ⟨hstart, hlimit, -⟩ := h.cons
  rw [List.mem_cons, List.mem_singleton, not_or] at hword
  exact ⟨t, hstart, hlimit, hword⟩

theorem label {l : ArmLabel} (h : p.Placed limit start (l.tokens ++ us) after) :
    start = some l.keyword ∧ l.keyword ≠ limit ∧ p.Placed limit (p.nextOf l.colon) us after := by
  have hassoc : l.tokens ++ us = l.keyword :: (l.value.getD [] ++ l.colon :: us) := by
    simp [ArmLabel.tokens]
  rw [hassoc] at h
  obtain ⟨hstart, hlimit, hrest⟩ := h.cons
  exact ⟨hstart, hlimit, hrest.inside.2⟩

theorem start_ne_else {body : Stmts} (h : p.Placed limit start body.tokens (some limit))
    (hbody : body.Rendered p) (hlimit : p.text limit ≠ "else") : p.textOf start ≠ "else" := by
  cases body with
  | nil =>
    obtain rfl : start = some limit := h.spells
    exact hlimit
  | cons first rest =>
    obtain ⟨t, rfl, -, -, helse⟩ := h.start_statement hbody.1
    exact helse
  | label l rest =>
    obtain ⟨rfl, -, -⟩ := h.label
    show p.text l.keyword ≠ "else"
    rcases hbody.1.word with hword | hword
    all_goals
      rw [hword]
      decide

/-- A keyword with a header after it is read. -/
theorem header {h : Header} {word : String} (hplaced : p.Placed limit start (h.tokens ++ us) after)
    (hr : h.Rendered p word) (name : String) :
    start = some h.keyword ∧ p.textOf (p.nextOf h.keyword) = "(" ∧
    (∀ k, Draws (Build.header p name (p.nextOf h.keyword)) k (h.inside, p.nextOf h.close) k) ∧
    p.Placed limit (p.nextOf h.close) us after := by
  obtain ⟨hstart, hparen, hheader, hafter⟩ := hplaced.header_eq hr name
  refine ⟨hstart, hparen, fun k => ?_, hafter⟩
  rw [hheader]
  exact draws_pure k _

end Program.Placed

/-! ### Statements in each other -/

/-- Wherever the statement stands, a reader that is deep enough reads it and adds to the graph what
it does. -/
def Stmt.IsRead (p : Program) (s : Stmt) : Prop :=
  ∀ depth targets limit start after, p.Placed limit start s.tokens after →
    s.tokens.length ≤ depth → (s.dangles = true → p.textOf after ≠ "else") →
    Follows (Body.statement p depth targets limit start) after targets (s.runs p)

/-- The same of statements in a row. -/
def Stmts.AreRead (p : Program) (body : Stmts) : Prop :=
  ∀ depth targets limit start fuel, p.Placed limit start body.tokens (some limit) →
    body.tokens.length ≤ depth → body.tokens.length < fuel → p.text limit ≠ "else" →
    FollowsAll p (Body.statements (Body.statement p depth) targets limit fuel start) id targets body

section Cases

variable {h : Header} {body other : Stmt} {inner rest : Stmts}

theorem isRead_empty {semicolon : TokenId} (hr : p.text semicolon = ";") :
    (Stmt.empty semicolon).IsRead p := by
  intro depth targets limit start after hplaced hdepth _
  obtain ⟨rfl, -, hrest⟩ := hplaced.cons
  obtain rfl : p.nextOf semicolon = after := hrest.spells
  cases depth with
  | zero => exact absurd hdepth (Nat.not_succ_le_zero _)
  | succ depth =>
    rw [Body.statement_empty hr]
    exact fun k cur hk => ⟨k, cur, draws_pure _ _, .refl hk, k.does_nothing cur targets⟩

theorem isRead_plain {ts : List TokenId} {semicolon : TokenId}
    (hr : (Stmt.plain ts semicolon).Rendered p) : (Stmt.plain ts semicolon).IsRead p := by
  intro depth targets limit start after hplaced hdepth _
  obtain ⟨hts, hsemicolon, hhead⟩ := hr
  obtain ⟨t, rfl, hword, hlabel, hscan⟩ := hplaced.plain_eq hts hsemicolon hhead
  change (ts ++ [semicolon]).length ≤ _ at hdepth
  simp only [List.length_append, List.length_singleton] at hdepth
  cases depth with
  | zero => omega
  | succ depth =>
    rw [Body.statement_plain hword hlabel]
    exact plainStatement_follows hscan

theorem isRead_jump {kind : Jump} {keyword semicolon : TokenId} {value : List TokenId}
    (hr : (Stmt.jump kind keyword value semicolon).Rendered p) :
    (Stmt.jump kind keyword value semicolon).IsRead p := by
  intro depth targets limit start after hplaced hdepth _
  obtain ⟨hword, hlabel, hvalue, hsemicolon⟩ := hr
  have hjump : Body.isJump (p.text keyword) = true := by
    rw [hword]
    cases kind <;> decide
  obtain ⟨rfl, hscan⟩ := Program.Placed.jump_eq hplaced hjump hvalue hsemicolon
  change (keyword :: (value ++ [semicolon])).length ≤ _ at hdepth
  simp only [List.length_cons, List.length_append] at hdepth
  cases depth with
  | zero => omega
  | succ depth =>
    rw [Body.statement_jump hjump hlabel]
    exact jumpStatement_follows hword hscan

theorem followsAll_braces {depth : Nat} {targets : JumpTargets} {brace close : TokenId}
    (hplaced : p.Placed limit start (brace :: (inner.tokens ++ close :: us)) after)
    (hbrace : p.text brace = "\x7b") (hlink : (p.token brace).link = some close)
    (hclose : p.text close = "\x7d") (hinner : inner.AreRead p) (hdepth : inner.tokens.length ≤ depth) :
    start = some brace ∧ p.Placed limit (p.nextOf close) us after ∧
    FollowsAll p (Body.statement p (depth + 1) targets limit start)
      (fun out => (p.nextOf close, out)) targets inner := by
  obtain ⟨rfl, -, hrest⟩ := hplaced.cons
  obtain ⟨hinside, hafter⟩ := hrest.inside
  refine ⟨rfl, hafter, ?_⟩
  rw [Body.statement_brace hbrace hlink]
  have helse : p.text close ≠ "else" := by
    rw [hclose]
    decide
  have hall := hinner depth targets close (p.nextOf brace) (p.tokens.size + 1) hinside hdepth
    (Nat.lt_succ_of_le hinside.length) helse
  intro k cur hk hlabel
  obtain ⟨k', out, new, hdraws, hrest⟩ := hall k cur hk hlabel
  exact ⟨k', out, new, hdraws.bind (draws_pure _ _), hrest⟩

theorem isRead_braces {brace close : TokenId} (hr : (Stmt.braces brace inner close).Rendered p)
    (hinner : inner.AreRead p) : (Stmt.braces brace inner close).IsRead p := by
  intro depth targets limit start after hplaced hdepth _
  obtain ⟨hbrace, hlink, hclose, hlabelled, -⟩ := hr
  change (brace :: (inner.tokens ++ [close])).length ≤ depth at hdepth
  simp only [List.length_cons, List.length_append] at hdepth
  cases depth with
  | zero => omega
  | succ depth =>
    obtain ⟨rfl, hrest, hall⟩ := followsAll_braces hplaced hbrace hlink hclose hinner
      (show inner.tokens.length ≤ depth by omega)
    obtain rfl : p.nextOf close = after := hrest.spells
    exact hall.follows hlabelled

theorem isRead_ifThen (hr : h.Rendered p "if") (hbody : body.IsRead p) :
    (Stmt.ifThen h body).IsRead p := by
  intro depth targets limit start after hplaced hdepth helse
  obtain ⟨rfl, hparen, hheader, hrest⟩ := hplaced.header hr "if"
  change (h.tokens ++ body.tokens).length ≤ depth at hdepth
  simp only [Header.tokens, List.length_append, List.length_cons] at hdepth
  cases depth with
  | zero => omega
  | succ depth =>
    rw [Body.statement_if hr.keyword hparen]
    exact ifStatement_follows (Body.ne_constexpr hparen) hheader
      (hbody depth targets limit _ after hrest (by omega) fun _ => helse rfl) (helse rfl)

theorem isRead_ifElse {elseWord : TokenId} (hr : h.Rendered p "if") (hbody : body.IsRead p)
    (hdangles : body.dangles = false) (hword : p.text elseWord = "else") (hother : other.IsRead p) :
    (Stmt.ifElse h body elseWord other).IsRead p := by
  intro depth targets limit start after hplaced hdepth helse
  obtain ⟨rfl, hparen, hheader, hrest⟩ := hplaced.header hr "if"
  obtain ⟨mid, hbodyPlaced, hmid⟩ := hrest.append
  obtain ⟨rfl, -, hotherPlaced⟩ := hmid.cons
  change (h.tokens ++ (body.tokens ++ elseWord :: other.tokens)).length ≤ depth at hdepth
  simp only [Header.tokens, List.length_append, List.length_cons] at hdepth
  cases depth with
  | zero => omega
  | succ depth =>
    rw [Body.statement_if hr.keyword hparen]
    refine ifElseStatement_follows (Body.ne_constexpr hparen) hheader ?_ hword ?_
    · exact hbody depth targets limit _ _ hbodyPlaced (by omega)
        fun htrue => absurd htrue (by simp [hdangles])
    · exact hother depth targets limit _ after hotherPlaced (by omega) helse

theorem isRead_whileLoop (hr : h.Rendered p "while") (hbody : body.IsRead p) :
    (Stmt.whileLoop h body).IsRead p := by
  intro depth targets limit start after hplaced hdepth helse
  obtain ⟨rfl, hparen, hheader, hrest⟩ := hplaced.header hr "while"
  change (h.tokens ++ body.tokens).length ≤ depth at hdepth
  simp only [Header.tokens, List.length_append, List.length_cons] at hdepth
  cases depth with
  | zero => omega
  | succ depth =>
    rw [Body.statement_while hr.keyword hparen]
    exact whileStatement_follows hheader fun inner =>
      hbody depth inner limit _ after hrest (by omega) helse

theorem isRead_forLoop {h : ForHeader} (hr : h.Rendered p) (hbody : body.IsRead p) :
    (Stmt.forLoop h body).IsRead p := by
  intro depth targets limit start after hplaced hdepth helse
  obtain ⟨rfl, hparen, hheader, hrest⟩ := hplaced.header hr.header "for"
  change (h.header.tokens ++ body.tokens).length ≤ depth at hdepth
  simp only [Header.tokens, List.length_append, List.length_cons] at hdepth
  cases depth with
  | zero => omega
  | succ depth =>
    rw [Body.statement_for hr.header.keyword hparen]
    exact forStatement_follows hheader (Program.headerParts_eq hr) fun inner =>
      hbody depth inner limit _ after hrest (by omega) helse

theorem isRead_doLoop {doWord semicolon : TokenId} (hdo : p.text doWord = "do")
    (hbodyRendered : body.Rendered p) (hbody : body.IsRead p) (hr : h.Rendered p "while")
    (hsemicolon : p.text semicolon = ";") : (Stmt.doLoop doWord body h semicolon).IsRead p := by
  intro depth targets limit start after hplaced hdepth _
  obtain ⟨rfl, -, hrest⟩ := hplaced.cons
  obtain ⟨t, hfirst, -, hcolon, -⟩ := hrest.start_statement hbodyRendered
  obtain ⟨mid, hbodyPlaced, hmid⟩ := hrest.append
  obtain ⟨rfl, hparen, hheader, hlast⟩ := hmid.header hr "while"
  obtain ⟨hstart, -, hend⟩ := hlast.cons
  obtain rfl : p.nextOf semicolon = after := hend.spells
  change (doWord :: (body.tokens ++ (h.tokens ++ [semicolon]))).length ≤ depth at hdepth
  simp only [Header.tokens, List.length_append, List.length_cons] at hdepth
  cases depth with
  | zero => omega
  | succ depth =>
    have hnext : p.textOf (p.nextOf doWord) ≠ ":" := by
      rw [hfirst]
      exact hcolon
    rw [Body.statement_do hdo hnext]
    refine doStatement_follows hr.keyword hheader (fun inner => ?_) ?_
    · refine hbody depth inner limit _ _ hbodyPlaced (by omega) fun _ => ?_
      show p.text h.keyword ≠ "else"
      rw [hr.keyword]
      decide
    · rw [hstart]
      exact (if_pos hsemicolon).symm

theorem isRead_switch {brace close : TokenId} (hr : (Stmt.switch h brace inner close).Rendered p)
    (hinner : inner.AreRead p) : (Stmt.switch h brace inner close).IsRead p := by
  intro depth targets limit start after hplaced hdepth _
  obtain ⟨hheading, hbrace, hlink, hclose, -⟩ := hr
  obtain ⟨rfl, hparen, hheader, hrest⟩ := hplaced.header hheading "switch"
  change (h.tokens ++ brace :: (inner.tokens ++ [close])).length ≤ depth at hdepth
  simp only [Header.tokens, List.length_append, List.length_cons] at hdepth
  cases depth with
  | zero => omega
  | succ depth =>
    rw [Body.statement_switch hheading.keyword hparen]
    -- One level for the `switch`, and one for the braces of its body.
    refine switchStatement_follows hheader fun targets => ?_
    cases depth with
    | zero => omega
    | succ depth =>
      obtain ⟨-, hend, hall⟩ :=
        followsAll_braces hrest hbrace hlink hclose hinner (show inner.tokens.length ≤ depth by omega)
      obtain rfl : p.nextOf close = after := hend.spells
      exact hall

theorem areRead_nil : Stmts.nil.AreRead p := by
  intro depth targets limit start fuel hplaced _ hfuel _
  obtain rfl : start = some limit := hplaced.spells
  cases fuel with
  | zero => exact absurd hfuel (Nat.not_lt_zero _)
  | succ fuel =>
    have hstop : Body.statements (Body.statement p depth) targets limit (fuel + 1) (some limit) =
        fun cur => pure cur := by
      funext cur
      exact if_pos rfl
    rw [hstop]
    exact followsAll_nil

theorem areRead_cons {first : Stmt} (hfirst : first.Rendered p) (hfirstRead : first.IsRead p)
    (hrest : rest.Rendered p) (hrestRead : rest.AreRead p) : (Stmts.cons first rest).AreRead p := by
  intro depth targets limit start fuel hplaced hdepth hfuel hlimit
  obtain ⟨t, rfl, hne, -, -⟩ := hplaced.start_statement hfirst
  obtain ⟨mid, hfirstPlaced, hrestPlaced⟩ := hplaced.append
  obtain ⟨t', ts, htokens, -⟩ := Stmt.Rendered.exists_cons first hfirst
  change (first.tokens ++ rest.tokens).length ≤ depth at hdepth
  change (first.tokens ++ rest.tokens).length < fuel at hfuel
  simp only [List.length_append] at hdepth hfuel
  have hpositive : 0 < first.tokens.length := by
    rw [htokens]
    exact Nat.succ_pos _
  cases fuel with
  | zero => omega
  | succ fuel =>
    have hstep : Body.statements (Body.statement p depth) targets limit (fuel + 1) (some t) =
        fun cur => Body.statement p depth targets limit (some t) cur >>= fun x =>
          Body.statements (Body.statement p depth) targets limit fuel x.1 x.2 := by
      funext cur
      exact if_neg hne
    -- A conditional at the end of the first statement finds no `else` in the second.
    have hfirst := hfirstRead depth targets limit _ mid hfirstPlaced (by omega)
      fun _ => hrestPlaced.start_ne_else hrest hlimit
    have hrest := hrestRead depth targets limit mid fuel hrestPlaced (by omega) (by omega) hlimit
    rw [hstep]
    exact followsAll_cons hfirst hrest

theorem areRead_label {l : ArmLabel} (hl : l.Rendered p) (hrestRead : rest.AreRead p) :
    (Stmts.label l rest).AreRead p := by
  intro depth targets limit start fuel hplaced hdepth hfuel hlimit
  obtain ⟨rfl, hne, hrestPlaced⟩ := hplaced.label
  change (l.tokens ++ rest.tokens).length ≤ depth at hdepth
  change (l.tokens ++ rest.tokens).length < fuel at hfuel
  simp only [ArmLabel.tokens, List.length_append, List.length_cons] at hdepth hfuel
  intro k cur hk hlabel
  obtain ⟨d, hd, -⟩ := hlabel rfl
  cases fuel with
  | zero => omega
  | succ fuel =>
    cases depth with
    | zero => omega
    | succ depth =>
      have hstep : Body.statements (Body.statement p (depth + 1)) targets limit (fuel + 1)
          (some l.keyword) cur = Body.caseLabel p (targets.dispatch.getD 0) limit l.keyword cur >>=
            fun x => Body.statements (Body.statement p (depth + 1)) targets limit fuel x.1 x.2 := by
        rw [← Body.statement_label hl.word hd]
        exact if_neg hne
      have hrest := hrestRead (depth + 1) targets limit _ fuel hrestPlaced (by omega) (by omega)
        hlimit
      rw [hstep]
      exact followsAll_label hl hplaced hrest k cur hk hlabel

end Cases

mutual

theorem Stmt.isRead : (s : Stmt) → s.Rendered p → s.IsRead p
  | .empty _, h => isRead_empty h
  | .plain _ _, h => isRead_plain h
  | .jump _ _ _ _, h => isRead_jump h
  | .braces _ body _, h => isRead_braces h (Stmts.areRead body h.2.2.2.2)
  | .ifThen _ body, h => isRead_ifThen h.1 (Stmt.isRead body h.2)
  | .ifElse _ body _ other, h =>
    isRead_ifElse h.1 (Stmt.isRead body h.2.1) h.2.2.1 h.2.2.2.1 (Stmt.isRead other h.2.2.2.2)
  | .whileLoop _ body, h => isRead_whileLoop h.1 (Stmt.isRead body h.2)
  | .forLoop _ body, h => isRead_forLoop h.1 (Stmt.isRead body h.2)
  | .doLoop _ body _ _, h => isRead_doLoop h.1 h.2.1 (Stmt.isRead body h.2.1) h.2.2.1 h.2.2.2
  | .switch _ _ body _, h => isRead_switch h (Stmts.areRead body h.2.2.2.2)

theorem Stmts.areRead : (body : Stmts) → body.Rendered p → body.AreRead p
  | .nil, _ => areRead_nil
  | .cons first rest, h =>
    areRead_cons h.1 (Stmt.isRead first h.1) h.2 (Stmts.areRead rest h.2)
  | .label _ rest, h => areRead_label h.1 (Stmts.areRead rest h.2)

end

/-! ### Bodies of functions -/

/-- The statements are what stands between two braces. -/
structure Stmts.Between (p : Program) (body : Stmts) (first last : TokenId) : Prop where
  spells : p.Spells (p.nextOf first) body.tokens (some last)
  before : last ∉ body.tokens
  held : ∀ t ∈ body.tokens, t < p.tokens.size
  close : p.text last = "\x7d"
  rendered : body.Rendered p
  unlabelled : body.labelled = false

theorem Stmts.Between.placed {body : Stmts} {first last : TokenId}
    (h : body.Between p first last) :
    p.Placed last (p.nextOf first) body.tokens (some last) := by
  have hnodup := h.spells.nodup h.before
  exact ⟨h.spells, hnodup, h.before, Program.length_le_size hnodup h.held⟩

/-- What a graph is before anything is read. -/
def Sketch.initial : Sketch where
  size := 2
  tokens _ := []
  succs _ := []

theorem Sketch.initial_drawn (name : Option String) :
    Sketch.initial.Drawn { graph := .init name } := by
  have hblock : ∀ b, ((FlowGraph.init name).block b).tokens = [] ∧
      ((FlowGraph.init name).block b).succs = [] := by
    intro b
    match b with
    | 0 => exact ⟨rfl, rfl⟩
    | 1 => exact ⟨rfl, rfl⟩
    | _ + 2 => exact ⟨rfl, rfl⟩
  refine ⟨rfl, fun b => (hblock b).1, fun b => ?_, fun b i hi => ?_, rfl, rfl, rfl⟩
  · show ((FlowGraph.init name).block b).succs.map _ = []
    rw [(hblock b).2]
    rfl
  · rw [(hblock b).2] at hi
    exact absurd hi List.not_mem_nil

theorem exists_body {body : Stmts} {first last : TokenId} (h : body.Between p first last) :
    let k₁ := (Sketch.initial.add []).link { src := 0, dst := 2 }
    ∃ k₂ out, Draws (Body.body p (p.nextOf first) last) Sketch.initial () (k₂.linkFrom out 1) ∧
      k₁.Ready (some 2) ∧ k₁.Grows (some 2) [] k₂ out ∧
      k₁.Does (some 2) k₂ out {} (body.runs p) := by
  intro k₁
  have hready : k₁.Ready (some 2) := by
    refine ⟨show 2 ≤ 3 by decide, ?_, ?_, ?_⟩
    all_goals rintro _ ⟨⟩
    · exact show 2 < 3 by decide
    · decide
    · rfl
  have helse : p.text last ≠ "else" := by
    rw [h.close]
    decide
  have hall := Stmts.areRead body h.rendered (Body.depthLimit p) {} last _ (p.tokens.size + 1)
    h.placed (by have := h.placed.length; have := Body.le_depthLimit p; omega)
    (Nat.lt_succ_of_le h.placed.length) helse
  have hlabel : JumpTargets.MayLabel {} body k₁ (some 2) :=
    fun htrue => absurd (h.unlabelled.symm.trans htrue) nofun
  obtain ⟨k₂, out, new, hdraws, hgrows, hdoes, harms⟩ := hall k₁ (some 2) hready hlabel
  rw [harms.unlabelled h.unlabelled] at hgrows
  refine ⟨k₂, out, ?_, hready, hgrows, hdoes⟩
  refine (draws_newBlock _ .body []).bind (draws_get fun s hs => ?_)
  simp only [hs.entry, hs.exit]
  refine (draws_edge ?_ _ .fallThrough none none).bind ?_
  · exact show 0 < 3 by decide
  refine hdraws.bind ((draws_edgeFrom hgrows.held 1 .fallThrough).bind ?_)
  refine draws_get fun s hs => ?_
  rw [hs.gotos]
  exact draws_pure _ ()

/-- **The graph of a body has exactly the executions of the body.** -/
theorem FlowGraph.paths_entry_eq {body : Stmts} {first last : TokenId} (name : Option String)
    (h : body.Between p first last) (hlegal : body.Legal false false) :
    ∃ g, FlowGraph.ofBody p name first last = .ok g ∧ g.paths g.entry = body.executions p := by
  obtain ⟨k₂, out, hdraws, hready, hgrows, hdoes⟩ := exists_body h
  obtain ⟨s, hrun, hs⟩ := hdraws _ (Sketch.initial_drawn name)
  refine ⟨s.graph, ?_, ?_⟩
  · unfold FlowGraph.ofBody
    show Except.map _ (Body.body p (p.nextOf first) last _) = _
    rw [hrun]
    rfl
  · have hexit : s.graph.exit = 1 := hs.exit
    -- Reading adds no edge to the two blocks that were there before.
    have hkeep : ∀ b < 2, s.graph.succEdges b =
        ((Sketch.initial.add []).link { src := 0, dst := 2 }).succs b := by
      intro b hb
      have hne : some 2 ≠ some b := fun heq => Nat.ne_of_gt hb (Option.some.inj heq)
      rw [hs.succs]
      exact (hgrows.linkFrom_eq (Nat.lt_succ_of_lt hb) hne).2
    -- Nothing leaves the exit, so what has come there has ended.
    have hreturned : s.graph.paths 1 = 1 := by
      have hnone : s.graph.succEdges 1 = [] := hkeep 1 (by decide)
      rw [FlowGraph.paths_eq, hexit, if_pos rfl, hnone]
      exact add_zero _
    have hsettled : Settled s.graph ((Sketch.initial.add []).link { src := 0, dst := 2 }) (some 2)
        (k₂.linkFrom out 1) none :=
      ⟨hexit, fun b _ _ _ => hs.tokens b, fun b _ _ _ => hs.succs b, nofun, nofun⟩
    have hbody : s.graph.paths 2 =
        (body.runs p).lead (JumpTargets.exits {} s.graph (s.graph.paths 1)) :=
      hdoes.paths hready rfl hgrows (show EdgeKind.fallThrough.isPlain = true from rfl) hsettled
        fun _ _ => rfl
    -- The entry is empty and leads to the body only.
    have hentry : s.graph.paths 0 = emitted [] * s.graph.paths 2 := by
      refine FlowGraph.paths_of_edge (e := { src := 0, dst := 2 }) ?_ ?_ (hkeep 0 (by decide)) rfl
      · rw [hexit]
        decide
      · rw [hs.tokens]
        exact (hgrows.linkFrom_eq (show 0 < 3 by decide) nofun).1
    rw [hs.entry, hentry, FlowGraph.emitted_nil, one_mul, hbody]
    refine Stmts.lead_of_legal hlegal hreturned ?_
    show s.graph.paths s.graph.exit = 1
    rw [hexit, hreturned]

/-- **The graph of a function has exactly the executions of its body.** -/
theorem Program.flowGraph_executions {f : FunctionId} {first last : TokenId} {body : Stmts}
    (hf : p.functionBody? f = some (first, last)) (h : body.Between p first last)
    (hlegal : body.Legal false false) :
    ∃ g, p.flowGraph f = .ok (some g) ∧ g.paths g.entry = body.executions p := by
  obtain ⟨g, hg, hpaths⟩ := FlowGraph.paths_entry_eq (p.function f).name h hlegal
  refine ⟨g, ?_, hpaths⟩
  unfold Program.flowGraph
  rw [hf]
  show (FlowGraph.ofBody p (p.function f).name first last).map some = _
  rw [hg]
  rfl

/-- `void f() { while (x) { switch (y) { case 1: z; break; default: continue; } } }` -/
def switchInLoop : Program where
  tokens := #[
    { text := "\x7b", next := some 1, link := some 24 },
    { text := "while", next := some 2, isName := true },
    { text := "(", next := some 3, link := some 4 },
    { text := "x", next := some 4, isName := true },
    { text := ")", next := some 5, link := some 2 },
    { text := "\x7b", next := some 6, link := some 23 },
    { text := "switch", next := some 7, isName := true },
    { text := "(", next := some 8, link := some 9 },
    { text := "y", next := some 9, isName := true },
    { text := ")", next := some 10, link := some 7 },
    { text := "\x7b", next := some 11, link := some 22 },
    { text := "case", next := some 12, isName := true },
    { text := "1", next := some 13, isNumber := true },
    { text := ":", next := some 14 },
    { text := "z", next := some 15, isName := true },
    { text := ";", next := some 16 },
    { text := "break", next := some 17, isName := true },
    { text := ";", next := some 18 },
    { text := "default", next := some 19, isName := true },
    { text := ":", next := some 20 },
    { text := "continue", next := some 21, isName := true },
    { text := ";", next := some 22 },
    { text := "\x7d", next := some 23, link := some 10 },
    { text := "\x7d", next := some 24, link := some 5 },
    { text := "\x7d", link := some 0 }]
  functions := #[{ name := some "f" }]
  scopes := #[{ kind := "Function", function := some 0, bodyStart := some 0, bodyEnd := some 24 }]

/-- The arms of the `switch` in `switchInLoop`. -/
def switchInLoopArms : Stmts :=
  .label ⟨11, some [12], 13⟩ (.cons (.plain [14] 15) (.cons (.jump .breakOut 16 [] 17)
    (.label ⟨18, none, 19⟩ (.cons (.jump .continueLoop 20 [] 21) .nil))))

/-- The body of `switchInLoop`. -/
def switchInLoopBody : Stmts :=
  .cons (.whileLoop ⟨1, 2, [3], 4⟩
    (.braces 5 (.cons (.switch ⟨6, 7, [8], 9⟩ 10 switchInLoopArms 22) .nil) 23)) .nil

theorem switchInLoopArms_rendered : switchInLoopArms.Rendered switchInLoop := by
  have hz : (Stmt.plain [14] 15).Rendered switchInLoop := by
    refine ⟨.token (by decide) (by decide) .nil, by decide, 14, rfl, by decide, ?_⟩
    unfold Program.Unlabelled
    decide
  have hbreak : (Stmt.jump .breakOut 16 [] 17).Rendered switchInLoop := by
    refine ⟨by decide, ?_, .nil, by decide⟩
    unfold Program.Unlabelled
    decide
  have hcontinue : (Stmt.jump .continueLoop 20 [] 21).Rendered switchInLoop := by
    refine ⟨by decide, ?_, .nil, by decide⟩
    unfold Program.Unlabelled
    decide
  have hcase : (ArmLabel.mk 11 (some [12]) 13).Rendered switchInLoop := by
    refine ⟨by decide, by decide, ?_⟩
    simp [Program.Paired, Program.text, Program.token, switchInLoop]
  have hdefault : (ArmLabel.mk 18 none 19).Rendered switchInLoop := ⟨by decide, by decide⟩
  exact ⟨hcase, hz, hbreak, hdefault, hcontinue, trivial⟩

theorem switchInLoopBody_between : switchInLoopBody.Between switchInLoop 0 24 := by
  refine ⟨?_, by decide, by decide, by decide, ?_, by decide⟩
  · simp [switchInLoopBody, switchInLoopArms, Stmts.tokens, Stmt.tokens, Header.tokens,
      ArmLabel.tokens, Program.Spells, Program.nextOf, Program.token, switchInLoop]
  · have hwhile : (Header.mk 1 2 [3] 4).Rendered switchInLoop "while" :=
      ⟨by decide, by decide, by decide⟩
    have hswitch : (Header.mk 6 7 [8] 9).Rendered switchInLoop "switch" :=
      ⟨by decide, by decide, by decide⟩
    have hinner : (Stmt.switch ⟨6, 7, [8], 9⟩ 10 switchInLoopArms 22).Rendered switchInLoop :=
      ⟨hswitch, by decide, by decide, by decide, switchInLoopArms_rendered⟩
    have hbraces : (Stmt.braces 5 (.cons (.switch ⟨6, 7, [8], 9⟩ 10 switchInLoopArms 22) .nil)
        23).Rendered switchInLoop :=
      ⟨by decide, by decide, by decide, by decide, hinner, trivial⟩
    exact ⟨⟨hwhile, hbraces⟩, trivial⟩

theorem flowGraph_executions_switchInLoop :
    switchInLoop.functionBody? 0 = some (0, 24) ∧ switchInLoopBody.Between switchInLoop 0 24 ∧
    switchInLoopBody.Legal false false ∧ ∃ g, switchInLoop.flowGraph 0 = .ok (some g) ∧
      g.paths g.entry = switchInLoopBody.executions switchInLoop := by
  have hf : switchInLoop.functionBody? 0 = some (0, 24) := by decide
  have hlegal : switchInLoopBody.Legal false false := by
    simp [switchInLoopBody, switchInLoopArms, Stmts.Legal, Stmt.Legal]
  exact ⟨hf, switchInLoopBody_between, hlegal,
    Program.flowGraph_executions hf switchInLoopBody_between hlegal⟩

end DivisorCheck
