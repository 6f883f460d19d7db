/-
  The reader goes forward, and shelves what it passes.

  `Body.Stands` says where the reader stands in the chain and what it has done with
  the tokens behind it.  Reading a statement of any kind gets it from there to a place
  further on, or finds a fault (`Body.Advances`): the statements in a row and those in
  each other run out of tokens before the reader runs out of fuel.

  The bodies of handlers are read after the body of their `try`, but they have been
  found before.  Where they start does not depend on what is built meanwhile, so it is
  enough that a reader that stands behind one of them may go on to the next
  (`Body.Onward`).
-/
import DivisorCheck.Proofs.Flow.Shelving

namespace DivisorCheck.Body

open Build

variable {α : Type} {p : Program} {read : StatementReader} {targets : JumpTargets}
  {limit t close : TokenId} {all hand xs : List TokenId} {n m : Nat} {tok start : Option TokenId}
  {current : Option BlockId} {s s' : BodyBuilder}

/-- The reader stands at `tok`, with at most `n` tokens left before the limit out of all those that it
has come to read.  Of the tokens behind it some are in blocks, and those in hand are not. -/
def Stands (p : Program) (limit : TokenId) (all : List TokenId) (n : Nat) (hand : List TokenId)
    (tok : Option TokenId) (s : BodyBuilder) : Prop :=
  ∃ us rest shelved, us ++ rest = all ∧ rest.length ≤ n ∧ p.Site limit tok us rest ∧
    s.Shelved shelved ∧ (shelved ++ hand).Sublist us

namespace Stands

theorem mono (h : Stands p limit all n hand tok s) (hnm : n ≤ m) :
    Stands p limit all m hand tok s := by
  obtain ⟨us, rest, shelved, hall, hlength, hrest⟩ := h
  exact ⟨us, rest, shelved, hall, Nat.le_trans hlength hnm, hrest⟩

/-- Tokens in hand may be passed over. -/
theorem drop {hand' : List TokenId} (h : Stands p limit all n hand tok s)
    (hsub : hand'.Sublist hand) : Stands p limit all n hand' tok s := by
  obtain ⟨us, rest, shelved, hall, hlength, hsite, hshelved, hhand⟩ := h
  exact ⟨us, rest, shelved, hall, hlength, hsite, hshelved,
    ((List.Sublist.refl shelved).append hsub).trans hhand⟩

/-- Where the reader stands is not changed by what is built. -/
theorem later (h : Stands p limit all n hand tok s)
    (hkeep : ∀ us, s.Shelved us → s'.Shelved us) : Stands p limit all n hand tok s' := by
  obtain ⟨us, rest, shelved, hall, hlength, hsite, hshelved, hhand⟩ := h
  exact ⟨us, rest, shelved, hall, hlength, hsite, hkeep shelved hshelved, hhand⟩

theorem quiet {m : Build α} (h : Stands p limit all n hand tok s) (hm : Quiet m) :
    Yields m s (fun _ s' => Stands p limit all n hand tok s') :=
  (hm.yields s).mono fun _ _ hkeep => h.later hkeep

/-! ### Shelving what is in hand -/

/-- What is in hand is in no block. -/
theorem exists_disjoint (h : Stands p limit all n (xs ++ hand) tok s) :
    ∃ shelved, s.Shelved shelved ∧ shelved.Disjoint xs ∧
      ∀ s' : BodyBuilder, s'.Shelved (shelved ++ xs) → Stands p limit all n hand tok s' := by
  obtain ⟨us, rest, shelved, hall, hlength, hsite, hshelved, hhand⟩ := h
  have hnodup : (shelved ++ (xs ++ hand)).Nodup := hhand.nodup hsite.nodup.of_append_left
  rw [← List.append_assoc] at hnodup hhand
  refine ⟨shelved, hshelved, List.disjoint_of_nodup_append hnodup.of_append_left, ?_⟩
  exact fun s' hs' => ⟨us, rest, shelved ++ xs, hall, hlength, hsite, hs', hhand⟩

theorem newBlock (h : Stands p limit all n (xs ++ hand) tok s) (kind : BlockKind) :
    Yields (Build.newBlock kind xs) s (fun _ s' => Stands p limit all n hand tok s') := by
  obtain ⟨shelved, hshelved, hnew, hafter⟩ := h.exists_disjoint
  exact hafter _ (hshelved.newBlock hnew kind)

theorem newBlock_all (h : Stands p limit all n hand tok s) (kind : BlockKind) :
    Yields (Build.newBlock kind hand) s (fun _ s' => Stands p limit all n [] tok s') := by
  rw [← hand.append_nil] at h
  exact h.newBlock kind

theorem append_all (h : Stands p limit all n hand tok s) (b : BlockId) :
    Yields (Build.append b hand) s (fun _ s' => Stands p limit all n [] tok s') := by
  rw [← hand.append_nil] at h
  obtain ⟨shelved, hshelved, hnew, hafter⟩ := h.exists_disjoint
  exact hafter _ (hshelved.append hnew b)

/-! ### Going forward -/

/-- The words that begin a statement or go on with one are no closing brackets. -/
theorem ne_limit (h : Stands p limit all n hand tok s) (htext : p.text t ∉ [")", "]", "\x7d"]) :
    t ≠ limit := by
  obtain ⟨us, rest, shelved, -, -, hsite, -⟩ := h
  exact hsite.ne_limit htext

theorem exists_some (h : Stands p limit all n hand tok s) : ∃ t, tok = some t := by
  obtain ⟨us, rest, shelved, -, -, hsite, -⟩ := h
  exact hsite.exists_some

theorem next (h : Stands p limit all (n + 1) [] (some t) s) (hne : t ≠ limit) :
    Stands p limit all n [] (p.nextOf t) s := by
  obtain ⟨us, rest, shelved, hall, hlength, hsite, hshelved, hhand⟩ := h
  obtain ⟨rest, rfl⟩ := hsite.exists_cons hne
  obtain ⟨-, -, hnext⟩ := hsite.cons
  refine ⟨us ++ [t], rest, shelved, ?_, Nat.le_of_succ_le_succ hlength, hnext, hshelved, ?_⟩
  · rw [List.append_assoc]
    exact hall
  · exact hhand.trans (List.sublist_append_left us [t])

theorem bind_next (h : Stands p limit all n [] tok s)
    (htext : p.textOf tok ∉ [")", "]", "\x7d"]) :
    Stands p limit all n [] (tok.bind p.nextOf) s := by
  obtain ⟨t, rfl⟩ := h.exists_some
  exact (h.mono (Nat.le_succ n)).next (h.ne_limit htext)

/-- Brackets are passed with all that stands in them, which is in hand then. -/
theorem group (h : Stands p limit all (n + 1) [] (some t) s) (hclose : p.partner? t = some close) :
    Stands p limit all n (p.between (p.nextOf t) (some close)) (p.nextOf close) s := by
  obtain ⟨us, rest, shelved, hall, hlength, hsite, hshelved, hhand⟩ := h
  obtain ⟨hopen, hlink⟩ := Program.of_partner? hclose
  -- The limit closes a bracket, and this token opens one.
  have hne : t ≠ limit := by
    rintro rfl
    exact absurd (hopen.symm.trans hsite.bracket) (by decide)
  obtain ⟨rest, rfl⟩ := hsite.exists_cons hne
  obtain ⟨inner, more, rfl, hinner, -, hmore⟩ := hsite.group hopen hlink
  simp only [List.length_cons, List.length_append] at hlength
  rw [List.append_nil] at hhand
  refine ⟨us ++ t :: (inner ++ [close]), more, shelved, ?_, by omega, hmore, hshelved, ?_⟩
  · rw [← hall]
    simp
  · rw [hinner]
    have hinside : inner.Sublist (t :: (inner ++ [close])) :=
      (List.sublist_append_left inner [close]).cons t
    exact hhand.append hinside

/-- A statement is in hand when its tokens have been found. -/
theorem statementTokens (h : Stands p limit all n [] (some t) s) (fuel : Nat) :
    Stands p limit all n (p.statementTokens limit (fuel + 1) (some t)).1
        (p.statementTokens limit (fuel + 1) (some t)).2 s ∧
      (some t ≠ some limit → Stands p limit all (n - 1)
        (p.statementTokens limit (fuel + 1) (some t)).1
        (p.statementTokens limit (fuel + 1) (some t)).2 s) := by
  obtain ⟨us, rest, shelved, hall, hlength, hsite, hshelved, hhand⟩ := h
  obtain ⟨rest', hrest, hafter⟩ := hsite.statementTokens (fuel + 1)
  have htaken : ∀ m, rest'.length ≤ m →
      Stands p limit all m (p.statementTokens limit (fuel + 1) (some t)).1
        (p.statementTokens limit (fuel + 1) (some t)).2 s := by
    intro m hm
    rw [List.append_nil] at hhand
    refine ⟨_, rest', shelved, ?_, hm, hafter, hshelved, hhand.append (.refl _)⟩
    rw [List.append_assoc, ← hrest]
    exact hall
  have hcount := congrArg List.length hrest
  rw [List.length_append] at hcount
  refine ⟨htaken n (by omega), fun hne => htaken (n - 1) ?_⟩
  -- Short of the limit a statement has a token at least, and that is one less to come.
  have hsome := Program.statementTokens_ne_nil (p := p) fuel fun heq : t = limit => hne (heq ▸ rfl)
  have hpositive := List.length_pos_iff.2 hsome
  omega

theorem labelTokens (h : Stands p limit all n [] tok s) (fuel pending : Nat) :
    Stands p limit all n [] (p.labelTokens limit fuel pending tok).2 s := by
  obtain ⟨us, rest, shelved, hall, hlength, hsite, hshelved, hhand⟩ := h
  obtain ⟨skipped, rest', rfl, hafter⟩ := hsite.labelTokens fuel pending
  rw [List.length_append] at hlength
  refine ⟨us ++ skipped, rest', shelved, ?_, by omega, hafter, hshelved, ?_⟩
  · rw [List.append_assoc]
    exact hall
  · exact hhand.trans (List.sublist_append_left us skipped)

/-- The tokens of a header are in hand when it has been read. -/
theorem header (h : Stands p limit all n [] tok s) (keyword : String) :
    Yields (Build.header p keyword tok) s (fun r s' => Stands p limit all n r.1 r.2 s') := by
  obtain ⟨t, rfl⟩ := h.exists_some
  unfold Build.header
  dsimp only
  split
  · exact yields_malformed _ _ _
  · rename_i close hclose
    have hpartner : p.partner? t = some close := by
      split_ifs at hclose with htext
      exact (Program.partner?_of_text (by simp [htext])).trans hclose
    exact yields_pure ((h.mono (Nat.le_succ n)).group hpartner)

theorem conditionBlock (h : Stands p limit all n [] tok s) (kind : BlockKind) (keyword : String) :
    Yields (Build.conditionBlock p kind keyword tok current) s
      (fun r s' => Stands p limit all n [] r.2 s') := by
  unfold Build.conditionBlock
  refine (h.header keyword).bind ?_
  rintro ⟨inside, after⟩ s₁ h₁
  refine (h₁.newBlock_all kind).bind fun cond s₂ h₂ => ?_
  exact (h₂.quiet quiet_edgeFrom).bind fun _ s₃ h₃ => yields_pure h₃

end Stands

/-! ### Statements, given how those inside them are read -/

/-- From a place with at most `n` tokens left, the reader gets to another.  It has passed a token
unless it was at the limit. -/
def Advances (p : Program) (read : StatementReader) (n : Nat) : Prop :=
  ∀ (targets : JumpTargets) (limit : TokenId) (all : List TokenId) (tok : Option TokenId)
    (current : Option BlockId) (s : BodyBuilder), Stands p limit all n [] tok s →
    Yields (read targets limit tok current) s (fun a s' => Stands p limit all n [] a.1 s' ∧
      (tok ≠ some limit → Stands p limit all (n - 1) [] a.1 s'))

/-- The step ends at a place with at most `n` tokens left. -/
def Lands (p : Program) (limit : TokenId) (all : List TokenId) (n : Nat) (m : Build AfterStatement)
    (s : BodyBuilder) : Prop :=
  Yields m s (fun a s' => Stands p limit all n [] a.1 s')

theorem Advances.lands (hread : Advances p read n) (h : Stands p limit all n [] tok s) :
    Lands p limit all n (read targets limit tok current) s :=
  (hread targets limit all tok current s h).mono fun _ _ => And.left

section Kinds

variable {body back after : BlockId} {kind : EdgeKind}

theorem yields_loopBody (hread : Advances p read n) (h : Stands p limit all n [] start s) :
    Yields (loopBody read targets limit start body back after kind) s
      (fun next s' => Stands p limit all n [] next s') := by
  unfold loopBody
  refine (hread.lands h).bind ?_
  rintro ⟨next, bodyEnd⟩ s₁ h₁
  exact (h₁.quiet quiet_edgeFrom).bind fun _ s₂ h₂ => yields_pure h₂

theorem lands_whileStatement (hread : Advances p read n)
    (h : Stands p limit all n [] (p.nextOf t) s) :
    Lands p limit all n (whileStatement p read targets limit t current) s := by
  unfold whileStatement
  refine (h.conditionBlock .loopCondition "while").bind ?_
  rintro ⟨cond, start⟩ s₁ h₁
  refine (h₁.quiet quiet_newBlock).bind fun after s₂ h₂ => ?_
  refine (h₂.quiet quiet_newBlock).bind fun body s₃ h₃ => ?_
  refine (h₃.quiet quiet_edge).bind fun _ s₄ h₄ => ?_
  refine (h₄.quiet quiet_edge).bind fun _ s₅ h₅ => ?_
  exact (yields_loopBody hread h₅).bind fun next s₆ h₆ => yields_pure h₆

theorem lands_forRange {inside : List TokenId} (hread : Advances p read n)
    (h : Stands p limit all n inside start s) :
    Lands p limit all n (forRange read targets limit start inside after current) s := by
  unfold forRange
  refine (h.newBlock_all .forRange).bind fun cond s₁ h₁ => ?_
  refine (h₁.quiet quiet_edgeFrom).bind fun _ s₂ h₂ => ?_
  refine (h₂.quiet quiet_newBlock).bind fun body s₃ h₃ => ?_
  refine (h₃.quiet quiet_edge).bind fun _ s₄ h₄ => ?_
  refine (h₄.quiet quiet_edge).bind fun _ s₅ h₅ => ?_
  exact (yields_loopBody hread h₅).bind fun next s₆ h₆ => yields_pure h₆

/-- The three parts of a header are put in three blocks. -/
theorem lands_forThree {initTokens condTokens stepTokens : List TokenId}
    (hread : Advances p read n)
    (h : Stands p limit all n (initTokens ++ (condTokens ++ stepTokens)) start s) :
    Lands p limit all n
      (forThree read targets limit start initTokens condTokens stepTokens after current) s := by
  unfold forThree
  refine (h.newBlock .forInit).bind fun init s₁ h₁ => ?_
  refine (h₁.quiet quiet_edgeFrom).bind fun _ s₂ h₂ => ?_
  refine (h₂.newBlock .loopCondition).bind fun cond s₃ h₃ => ?_
  refine (h₃.quiet quiet_edge).bind fun _ s₄ h₄ => ?_
  refine (h₄.newBlock_all .forStep).bind fun step s₅ h₅ => ?_
  refine (h₅.quiet quiet_newBlock).bind fun body s₆ h₆ => ?_
  refine (h₆.quiet quiet_edge).bind fun _ s₇ h₇ => ?_
  extract_lets finish
  have hfinish : ∀ s₈, Stands p limit all n [] start s₈ →
      Lands p limit all n (finish ()) s₈ := by
    intro s₈ h₈
    refine (yields_loopBody hread h₈).bind fun next s₉ h₉ => ?_
    exact (h₉.quiet quiet_edge).bind fun _ s₁₀ h₁₀ => yields_pure h₁₀
  split_ifs
  · exact (h₇.quiet quiet_edge).bind fun _ s₈ h₈ => hfinish s₈ h₈
  · exact hfinish s₇ h₇

theorem lands_forStatement (hread : Advances p read n)
    (h : Stands p limit all n [] (p.nextOf t) s) :
    Lands p limit all n (forStatement p read targets limit t current) s := by
  unfold forStatement
  refine (h.header "for").bind ?_
  rintro ⟨inside, start⟩ s₁ h₁
  refine (h₁.quiet quiet_newBlock).bind fun after s₂ h₂ => ?_
  split
  · rename_i initTokens condTokens stepTokens hparts
    -- The semicolons between the parts are dropped; what remains is still in order.
    have hsub := p.headerParts_sublist 0 inside
    rw [hparts, List.flatten_cons, List.flatten_cons, List.flatten_nil, List.append_nil] at hsub
    exact lands_forThree hread (h₂.drop hsub)
  · exact lands_forRange hread h₂

theorem lands_doStatement (hread : Advances p read n)
    (h : Stands p limit all n [] (p.nextOf t) s) :
    Lands p limit all n (doStatement p read targets limit t current) s := by
  unfold doStatement
  refine (h.quiet quiet_newBlock).bind fun body s₁ h₁ => ?_
  refine (h₁.quiet quiet_edgeFrom).bind fun _ s₂ h₂ => ?_
  refine (h₂.quiet quiet_newBlock).bind fun cond s₃ h₃ => ?_
  refine (h₃.quiet quiet_newBlock).bind fun after s₄ h₄ => ?_
  refine (yields_loopBody hread h₄).bind fun next s₅ h₅ => ?_
  split_ifs with hword
  · exact yields_malformed _ _ _
  · have hparen := h₅.bind_next (by rw [not_not.1 hword]; decide)
    refine (hparen.header "while").bind ?_
    rintro ⟨inside, next⟩ s₆ h₆
    -- The condition is shelved only now, in a block that is older than those of the body.
    refine (h₆.append_all cond).bind fun _ s₇ h₇ => ?_
    refine (h₇.quiet quiet_edge).bind fun _ s₈ h₈ => ?_
    refine (h₈.quiet quiet_edge).bind fun _ s₉ h₉ => ?_
    apply yields_pure
    dsimp only
    split_ifs with hsemicolon
    · exact h₉.bind_next (by rw [hsemicolon]; decide)
    · exact h₉

theorem lands_ifStatement (hread : Advances p read n)
    (h : Stands p limit all n [] (p.nextOf t) s) :
    Lands p limit all n (ifStatement p read targets limit t current) s := by
  unfold ifStatement
  extract_lets next paren
  have hparen : Stands p limit all n [] paren s := by
    unfold paren
    split_ifs with hconstexpr
    · exact h.bind_next (by rw [hconstexpr]; decide)
    · exact h
  refine (hparen.conditionBlock .ifCondition "if").bind ?_
  rintro ⟨cond, start⟩ s₁ h₁
  refine (h₁.quiet quiet_newBlock).bind fun trueBlock s₂ h₂ => ?_
  refine (h₂.quiet quiet_edge).bind fun _ s₃ h₃ => ?_
  refine (hread.lands h₃).bind ?_
  rintro ⟨next, trueEnd⟩ s₄ h₄
  dsimp only at h₄ ⊢
  split_ifs with helse
  · have hother := h₄.bind_next (by rw [helse]; decide)
    refine (hother.quiet quiet_newBlock).bind fun falseBlock s₅ h₅ => ?_
    refine (h₅.quiet quiet_edge).bind fun _ s₆ h₆ => ?_
    refine (hread.lands h₆).bind ?_
    rintro ⟨next, falseEnd⟩ s₇ h₇
    exact (h₇.quiet quiet_merge).bind fun _ s₈ h₈ => yields_pure h₈
  · refine (h₄.quiet quiet_newBlock).bind fun merged s₅ h₅ => ?_
    refine (h₅.quiet quiet_edge).bind fun _ s₆ h₆ => ?_
    exact (h₆.quiet quiet_edgeFrom).bind fun _ s₇ h₇ => yields_pure h₇

theorem lands_switchStatement (hread : Advances p read n)
    (h : Stands p limit all n [] (p.nextOf t) s) :
    Lands p limit all n (switchStatement p read targets limit t current) s := by
  unfold switchStatement
  refine (h.conditionBlock .switchDispatch "switch").bind ?_
  rintro ⟨dispatch, start⟩ s₁ h₁
  refine (h₁.quiet quiet_newBlock).bind fun after s₂ h₂ => ?_
  refine (hread.lands h₂).bind ?_
  rintro ⟨next, bodyEnd⟩ s₃ h₃
  refine (h₃.quiet quiet_edgeFrom).bind fun _ s₄ h₄ => yields_get.bind ?_
  rintro _ _ ⟨rfl, rfl⟩
  dsimp only
  split_ifs
  · exact yields_pure h₄
  · exact (h₄.quiet quiet_edge).bind fun _ s₅ h₅ => yields_pure h₅

theorem lands_caseLabel {dispatch : BlockId} (h : Stands p limit all n [] (p.nextOf t) s) :
    Lands p limit all n (caseLabel p dispatch limit t current) s := by
  unfold caseLabel
  extract_lets finish
  have hfinish : ∀ (r : BlockId × Option TokenId) s₁, Stands p limit all n [] r.2 s₁ →
      Lands p limit all n (finish r) s₁ := by
    rintro ⟨block, colon⟩ s₁ h₁
    obtain ⟨c, rfl⟩ := h₁.exists_some
    show Lands p limit all n (if p.text c = ":" then _ else _) s₁
    split_ifs with hcolon
    · have hafter := h₁.bind_next (show p.text c ∉ _ by rw [hcolon]; decide)
      exact (hafter.quiet quiet_edgeFrom).bind fun _ s₂ h₂ => yields_pure h₂
    · exact yields_malformed _ _ _
  split_ifs
  · refine (h.quiet quiet_newBlock).bind fun block s₁ h₁ => ?_
    exact (h₁.quiet quiet_edge).bind fun _ s₂ h₂ => hfinish (block, _) s₂ h₂
  · refine ((h.labelTokens p.tokens.size 0).quiet quiet_newBlock).bind fun block s₁ h₁ => ?_
    exact (h₁.quiet quiet_edge).bind fun _ s₂ h₂ => hfinish (block, _) s₂ h₂

theorem lands_labelStatement {after : Option TokenId} (h : Stands p limit all n [] after s) :
    Lands p limit all n (labelStatement p t after current) s := by
  unfold labelStatement
  refine (h.quiet quiet_newBlock).bind fun block s₁ h₁ => ?_
  refine (h₁.quiet quiet_edgeFrom).bind fun _ s₂ h₂ => ?_
  refine Yields.bind (h₂.quiet (quiet_modify ?_)) fun _ s₃ h₃ => yields_pure h₃
  exact fun s us hs => hs.congr (fun _ => rfl) hs.unasked

theorem lands_plainStatement
    (h : Stands p limit all n (p.statementTokens limit (p.tokens.size + 1) (some t)).1
      (p.statementTokens limit (p.tokens.size + 1) (some t)).2 s) :
    Lands p limit all n (plainStatement p limit t current) s := by
  unfold plainStatement
  refine (h.quiet quiet_live).bind fun block s₁ h₁ => ?_
  exact (h₁.append_all block).bind fun _ s₂ h₂ => yields_pure h₂

theorem lands_jumpStatement
    (h : Stands p limit all n (p.statementTokens limit (p.tokens.size + 1) (some t)).1
      (p.statementTokens limit (p.tokens.size + 1) (some t)).2 s) :
    Lands p limit all n (jumpStatement p targets limit t current) s := by
  unfold jumpStatement
  refine (h.quiet quiet_live).bind fun block s₁ h₁ => ?_
  refine (h₁.append_all block).bind fun _ s₂ h₂ => yields_get.bind ?_
  rintro _ _ ⟨rfl, rfl⟩
  extract_lets exit finish
  have hfinish : ∀ s₃, Stands p limit all n []
      (p.statementTokens limit (p.tokens.size + 1) (some t)).2 s₃ →
      Lands p limit all n (finish ()) s₃ := fun s₃ h₃ => yields_pure h₃
  split
  · refine (h₂.quiet quiet_setKind).bind fun _ s₃ h₃ => ?_
    exact (h₃.quiet quiet_edge).bind fun _ s₄ h₄ => hfinish s₄ h₄
  · exact (h₂.quiet (quiet_forM _ fun handler => quiet_edge)).bind fun _ s₃ h₃ => hfinish s₃ h₃
  · exact (h₂.quiet quiet_edge).bind fun _ s₃ h₃ => hfinish s₃ h₃
  · exact (h₂.quiet quiet_edge).bind fun _ s₃ h₃ => hfinish s₃ h₃
  · refine Yields.bind (h₂.quiet (quiet_modify ?_)) fun _ s₃ h₃ => hfinish s₃ h₃
    exact fun s us hs => hs.congr (fun _ => rfl) hs.unasked

end Kinds

/-! ### Statements in a row -/

/-- Unless it is at the limit, the reader has a token left. -/
theorem Stands.pos (h : Stands p limit all n hand (some t) s) (hne : t ≠ limit) : 0 < n := by
  obtain ⟨us, rest, shelved, -, hlength, hsite, -⟩ := h
  obtain ⟨rest, rfl⟩ := hsite.exists_cons hne
  exact Nat.lt_of_lt_of_le (Nat.succ_pos _) hlength

/-- At the limit, all tokens are behind the reader. -/
theorem Stands.shelved (h : Stands p limit all n hand (some limit) s) : s.Shelved all := by
  obtain ⟨us, rest, shelved, rfl, -, hsite, hshelved, hhand⟩ := h
  obtain rfl := hsite.nil
  rw [List.append_nil]
  exact hshelved.mono ((List.sublist_append_left shelved hand).trans hhand)

/-- Each statement in a row takes a token, so the fuel does not run out. -/
theorem yields_statements (hread : ∀ m ≤ n, Advances p read m) {fuel : Nat}
    (h : Stands p limit all n [] start s) (hfuel : n < fuel) :
    Yields (statements read targets limit fuel start current) s (fun _ s' => s'.Shelved all) := by
  induction fuel generalizing n start current s with
  | zero => exact absurd hfuel (Nat.not_lt_zero n)
  | succ fuel ih =>
    obtain ⟨t, rfl⟩ := h.exists_some
    rw [statements]
    split_ifs with hlimit
    · subst hlimit
      exact yields_pure h.shelved
    · -- The statement has taken a token, so both bounds go down by one.
      have hpositive := h.pos hlimit
      refine (hread n (Nat.le_refl n) targets limit all (some t) current s h).bind ?_
      rintro ⟨next, current⟩ s₁ ⟨-, htaken⟩
      have h₁ := htaken fun heq => hlimit (Option.some.inj heq)
      exact ih (fun k hk => hread k (by omega)) h₁ (by omega)

/-- In braces, the closing one is the limit, and what is outside them does not matter. -/
theorem lands_braces (hread : ∀ m ≤ n, Advances p read m)
    (h : Stands p limit all (n + 1) [] (some t) s) (hbrace : p.text t = "\x7b")
    (hlink : (p.token t).link = some close) :
    Lands p limit all n (statements read targets close (p.tokens.size + 1) (p.nextOf t) current >>=
      fun block => pure (p.nextOf close, block)) s := by
  have hpartner := (Program.partner?_of_text (by simp [hbrace])).trans hlink
  have hopen := (Program.of_partner? hpartner).1
  have hne := h.ne_limit (by rw [hbrace]; decide)
  obtain ⟨us, rest, shelved, rfl, hlength, hsite, hshelved, hhand⟩ := h
  obtain ⟨rest, rfl⟩ := hsite.exists_cons hne
  obtain ⟨inner, more, rfl, -, hinside, hmore⟩ := hsite.group hopen hlink
  simp only [List.length_cons, List.length_append] at hlength
  -- The same place, seen from inside: what comes after the brace is no longer counted.
  have hin : Stands p close (us ++ [t] ++ inner) inner.length [] (p.nextOf t) s :=
    ⟨us ++ [t], inner, shelved, rfl, Nat.le_refl _, hinside, hshelved,
      hhand.trans (List.sublist_append_left us [t])⟩
  refine (yields_statements (fun m hm => hread m (by omega)) hin
    (Nat.lt_succ_of_le hinside.placed.length)).bind fun block s₁ h₁ => yields_pure ?_
  refine ⟨us ++ t :: (inner ++ [close]), more, us ++ [t] ++ inner, ?_, ?_, hmore, h₁, ?_⟩
  · simp
  · omega
  · simp

/-! ### Handlers -/

/-- A reader that stands at one token may go on to another, whatever is built. -/
def Onward (p : Program) (limit : TokenId) (all : List TokenId) (n : Nat)
    (tok next : Option TokenId) : Prop :=
  ∀ s, Stands p limit all n [] tok s → Stands p limit all n [] next s

/-- The bodies of handlers follow each other from one token to another. -/
def Found (p : Program) (limit : TokenId) (all : List TokenId) (n : Nat) :
    Option TokenId → List (TokenId × BlockId) → Option TokenId → Prop
  | start, [], next => Onward p limit all n start next
  | start, (brace, _) :: clauses, next =>
    ∃ close, p.text brace = "\x7b" ∧ (p.token brace).link = some close ∧
      Onward p limit all n start (some brace) ∧ Found p limit all n (p.nextOf close) clauses next

/-- What is in brackets may be passed over. -/
theorem onward_group (hclose : p.partner? t = some close) :
    Onward p limit all n (some t) (p.nextOf close) :=
  fun _ h => ((h.mono (Nat.le_succ n)).group hclose).drop (List.nil_sublist _)

/-- A reader that is given a statement in braces stops behind them. -/
def ClosesBraces (p : Program) (read : StatementReader) : Prop :=
  ∀ (targets : JumpTargets) (limit brace close : TokenId) (current : Option BlockId)
    (s : BodyBuilder), p.text brace = "\x7b" → (p.token brace).link = some close →
    Gives (read targets limit (some brace) current) s (fun a _ => a.1 = p.nextOf close)

theorem closesBraces_statement (p : Program) (depth : Nat) : ClosesBraces p (statement p depth) := by
  intro targets limit brace close current s hbrace hlink
  cases depth with
  | zero => exact gives_throw
  | succ depth =>
    rw [statement_brace hbrace hlink]
    intro a s' hrun
    obtain ⟨block, s₁, -, hpure⟩ := bind_ok.1 hrun
    cases hpure
    rfl

theorem yields_handlers {fuel : Nat} (h : Stands p limit all m [] start s) (hfuel : m < fuel) :
    Yields (handlers p fuel start) s (fun r s' => Found p limit all n start r.1 r.2 ∧
      ∀ us, s.Shelved us → s'.Shelved us) := by
  induction fuel generalizing m start s with
  | zero => exact absurd hfuel (Nat.not_lt_zero m)
  | succ fuel ih =>
    obtain ⟨t, rfl⟩ := h.exists_some
    rw [handlers]
    split_ifs with hcatch
    · exact yields_pure ⟨fun _ => id, fun _ => id⟩
    · have hword : p.text t = "catch" := not_not.1 hcatch
      have hne := h.ne_limit (by rw [hword]; decide)
      obtain ⟨m, rfl⟩ := Nat.exists_eq_add_one_of_ne_zero (Nat.ne_of_gt (h.pos hne))
      have hnext := h.next hne
      refine ((hnext.header "catch").and_gives (gives_header p "catch" (p.nextOf t))).bind ?_
      rintro ⟨inside, start⟩ s₁ ⟨h₁, rfl, paren, close, hparen, htext, hlink, heq⟩
      obtain rfl : start = p.nextOf close := congrArg Prod.snd heq
      dsimp only at h₁ ⊢
      split
      · exact yields_malformed _ _ _
      · rename_i brace last hbraced
        obtain ⟨hbrace, hbraceText, hbraceLink⟩ := of_braced? hbraced
        have hpartner := (Program.partner?_of_text (by simp [hbraceText])).trans hbraceLink
        have hparens := (Program.partner?_of_text (by simp [htext])).trans hlink
        -- The way from `catch` to the brace depends on the tokens only, so it can be gone again later.
        have honward : Onward p limit all n (some t) (some brace) := by
          intro s' hs'
          have hafter := hs'.bind_next (show p.text t ∉ _ by rw [hword]; decide)
          rw [Option.bind_some, hparen] at hafter
          rw [← hbrace]
          exact onward_group hparens s' hafter
        have hstart := h₁.drop (List.nil_sublist _)
        rw [hbrace] at hstart
        have hlast := onward_group hpartner _ hstart
        refine (quiet_newBlock.yields s₁).bind fun block s₂ hkeep => ?_
        refine (ih (hlast.later hkeep) (Nat.lt_of_succ_lt_succ hfuel)).bind ?_
        rintro ⟨rest, next⟩ s₃ ⟨hfound, hkeep'⟩
        exact yields_pure ⟨⟨last, hbraceText, hbraceLink, honward, hfound⟩,
          fun us hus => hkeep' us (hkeep us hus)⟩

/-- The body of one handler after the other is read. -/
theorem yields_handlerBodies (hread : Advances p read n) (hcloses : ClosesBraces p read)
    {clauses : List (TokenId × BlockId)} {next : Option TokenId}
    (h : Stands p limit all n [] start s) (hfound : Found p limit all n start clauses next) :
    Yields (handlerBodies read targets limit clauses) s
      (fun _ s' => Stands p limit all n [] next s') := by
  induction clauses generalizing start s with
  | nil => exact yields_pure (hfound s h)
  | cons c clauses ih =>
    obtain ⟨brace, block⟩ := c
    obtain ⟨close, hbrace, hlink, honward, hfound⟩ := hfound
    rw [handlerBodies]
    refine ((hread.lands (honward s h)).and_gives
      (hcloses targets limit brace close (some block) s hbrace hlink)).bind ?_
    rintro ⟨after, bodyEnd⟩ s₁ ⟨h₁, rfl⟩
    refine (ih h₁ hfound).bind fun ends s₂ h₂ => ?_
    exact yields_pure h₂

theorem lands_tryStatement (hread : Advances p read n) (hcloses : ClosesBraces p read)
    (hroom : n ≤ p.tokens.size) (h : Stands p limit all n [] (p.nextOf t) s) :
    Lands p limit all n (tryStatement p read targets limit t current) s := by
  unfold tryStatement
  split
  · exact yields_malformed _ _ _
  · rename_i brace close hbraced
    obtain ⟨hbrace, htext, hlink⟩ := of_braced? hbraced
    have hpartner := (Program.partner?_of_text (by simp [htext])).trans hlink
    rw [hbrace] at h
    refine (h.quiet quiet_newBlock).bind fun tryBlock s₁ h₁ => ?_
    refine (h₁.quiet quiet_edgeFrom).bind fun _ s₂ h₂ => ?_
    -- The handlers are found first, and then the body that stands before them is read.
    refine (yields_handlers (n := n) (onward_group hpartner s₂ h₂) (Nat.lt_succ_of_le hroom)).bind ?_
    rintro ⟨clauses, next⟩ s₃ ⟨hfound, hkeep⟩
    refine yields_get.bind ?_
    rintro _ _ ⟨rfl, rfl⟩
    refine ((hread.lands (h₂.later hkeep)).and_gives
      (hcloses _ limit brace close (some tryBlock) s₃ htext hlink)).bind ?_
    rintro ⟨after, bodyEnd⟩ s₄ ⟨h₄, rfl⟩
    refine yields_get.bind ?_
    rintro _ _ ⟨rfl, rfl⟩
    refine (h₄.quiet (quiet_forM _ fun b => quiet_forM _ fun handler => quiet_edge)).bind ?_
    intro _ s₅ h₅
    refine (yields_handlerBodies hread hcloses h₅ hfound).bind fun ends s₆ h₆ => ?_
    exact (h₆.quiet quiet_merge).bind fun merged s₇ h₇ => yields_pure h₇

/-! ### Any statement -/

/-- One statement gets the reader forward if those inside it do. -/
theorem advances_statementWith (hroom : n ≤ p.tokens.size) (hread : ∀ m < n, Advances p read m)
    (hcloses : ClosesBraces p read) : Advances p (statementWith p read) n := by
  intro targets limit all tok current s h
  obtain ⟨t, rfl⟩ := h.exists_some
  obtain ⟨hscanned, hprogress⟩ := h.statementTokens p.tokens.size
  by_cases hlimit : t = limit
  · subst hlimit
    obtain ⟨us, rest, shelved, -, -, hsite, -⟩ := h
    -- A statement that is missing: the limit itself is taken for a plain one, without a token.
    have hlabel := hsite.unlabelled t (List.mem_cons_self ..) hsite.bracket
    rw [statementWith_closing hsite.text_limit hlabel]
    exact (lands_plainStatement hscanned).mono fun a s' ha => ⟨ha, fun hne => absurd rfl hne⟩
  · have hne : some t ≠ some limit := fun heq => hlimit (Option.some.inj heq)
    obtain ⟨n, rfl⟩ := Nat.exists_eq_add_one_of_ne_zero (Nat.ne_of_gt (h.pos hlimit))
    have hinner : ∀ m ≤ n, Advances p read m := fun m hm => hread m (Nat.lt_succ_of_le hm)
    have hnow := hinner n (Nat.le_refl n)
    have hnext := h.next hlimit
    suffices hlands : Lands p limit all n (statementWith p read targets limit (some t) current) s from
      hlands.mono fun a s' ha => ⟨ha.mono (Nat.le_succ n), fun _ => ha⟩
    apply statementWith_cases (motive := fun F => Lands p limit all n (F read) s)
    case unmatched => exact fun _ => yields_malformed _ _ _
    case braces => exact fun close hbrace hlink => lands_braces hinner h hbrace hlink
    case empty => exact fun _ => yields_pure hnext
    case arm => exact fun d _ => lands_caseLabel hnext
    case label =>
      intro _ hcolon
      exact lands_labelStatement (hnext.bind_next (by rw [hcolon]; decide))
    case ifWord => exact fun _ => lands_ifStatement hnow hnext
    case whileWord => exact fun _ => lands_whileStatement hnow hnext
    case forWord => exact fun _ => lands_forStatement hnow hnext
    case doWord => exact fun _ => lands_doStatement hnow hnext
    case switchWord => exact fun _ => lands_switchStatement hnow hnext
    case tryWord => exact fun _ => lands_tryStatement hnow hcloses (Nat.le_of_succ_le hroom) hnext
    case jump => exact fun _ => lands_jumpStatement (hprogress hne)
    case plain => exact fun _ => lands_plainStatement (hprogress hne)

/-- The depth that statements in each other need is bounded by the tokens that are left. -/
theorem advances_statement {depth : Nat} (hdepth : n < depth) (hroom : n ≤ p.tokens.size) :
    Advances p (statement p depth) n := by
  induction depth generalizing n with
  | zero => exact absurd hdepth (Nat.not_lt_zero n)
  | succ depth ih =>
    have hinner : ∀ m < n, Advances p (statement p depth) m := fun m hm =>
      ih (Nat.lt_of_lt_of_le hm (Nat.le_of_lt_succ hdepth)) (Nat.le_trans (Nat.le_of_lt hm) hroom)
    exact advances_statementWith hroom hinner (closesBraces_statement p depth)

end DivisorCheck.Body
