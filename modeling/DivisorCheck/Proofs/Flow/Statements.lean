/-
  Every kind of statement keeps the shape of the graph, if the reader for the
  statements inside does.
-/
import DivisorCheck.Proofs.Flow.Keeping

namespace DivisorCheck

open Board

namespace Body

open Build BodyBuilder

variable {α : Type} {p : Program} {v : Visit} {read : StatementReader}

/-! ### Loops -/

/-- A condition and the token after its header. -/
theorem gives_conditionBlock (hv : v.Ready p) (kind : BlockKind) (hkind : kind ≠ .unreachable)
    {keyword : String} {k : TokenId} {paren : Option TokenId} (hword : p.text k = keyword)
    (hat : p.HeaderAt k paren) :
    Gives (conditionBlock p kind keyword paren v.current) v.builder (fun r s' =>
      ∃ inside, p.InHeader keyword inside ∧ Stretch p v.targets.dispatch v.builder
        (pending v.current) s' [(r.1, { tokens := inside, kind })]) := by
  unfold conditionBlock
  refine (gives_header p keyword paren).bind ?_
  rintro _ _ ⟨rfl, t, close, rfl, htext, hlink, rfl⟩
  have hinside : p.InHeader keyword (p.between (p.nextOf t) (some close)) :=
    ⟨k, t, close, hword, hat, htext, hlink, rfl⟩
  obtain ⟨C, hC, h⟩ := hv.stretch
  refine (h.newBlock kind _).bind fun cond s₁ ⟨_, h₁⟩ => ?_
  have hfits := h₁.fits (.head _) hkind
  refine (h₁.last_one.finish hC hfits (.inl rfl)).bind ?_
  exact fun _ s₂ h₂ => gives_pure ⟨_, hinside, h₂⟩

section Loops

variable {dispatch : Option BlockId} {handlers : Option (List BlockId)} {E : α → Ledger → Prop}
  {s s₁ : BodyBuilder} {A : Set BlockId} {L : Ledger}

/-- The body of a loop is read, and leads back. -/
theorem proceeds_loopBody {targets : JumpTargets} {limit : TokenId} {start : Option TokenId}
    {body back after : BlockId} {kind : EdgeKind} {bodyKind : BlockKind} {l : Look}
    {f : Option TokenId → StatementReader → Build α} (hread : Keeps p read)
    (h : Stretch p dispatch s A s₁ ((body, { tokens := [], kind := bodyKind }) :: L))
    (htargets : targets.Fit s₁.board) (hafter : s₁.board.Fits after) (hback : (back, l) ∈ L)
    (hl : l.kind ≠ .unreachable) (hd : targets.dispatch = dispatch)
    (hhandlers : targets.handlers = handlers) (hkind : kind = .fallThrough ∨ kind = .backEdge)
    (hf : ∀ next s₂ D s₃, s₁.graph.Later s₂.graph → Stretch p dispatch s₂ (D ++ L).blocks s₃ L →
      Proceeds p dispatch handlers E (f next) read s₂ (D ++ L).blocks s₃) :
    Proceeds p dispatch handlers E (fun read =>
      loopBody read targets limit start body back after kind >>= fun next => f next read)
      read s A s₁ := by
  have hfits : s₁.board.Fits back := h.fits (.tail _ hback) hl
  have hinside : JumpTargets.Fit { targets with breakTo := some after, continueTo := some back }
      s₁.board := by
    refine ⟨?_, ?_, htargets.handlers⟩
    · rintro _ ⟨⟩
      exact hafter
    · rintro _ ⟨⟩
      exact hfits
  unfold loopBody
  simp only [bind_assoc, pure_bind]
  refine proceeds_read (C := [_]) hread h (.single .of_empty) hinside hd hhandlers ?_
  intro next out s₂ D hD hlater h₂
  refine (h₂.finish hD (h₂.fits_right hback hl) hkind).bind_tells fun _ s₃ h₃ => ?_
  exact hf next s₂ D s₃ hlater h₃

theorem whileStatement_tells (hread : Keeps p read) (hv : v.Ready p) {t : TokenId}
    (hword : p.text t = "while") :
    TellsOutcome p v (fun read => whileStatement p read v.targets v.limit t v.current) read := by
  unfold whileStatement
  refine (gives_conditionBlock hv .loopCondition nofun hword (.inl rfl)).bind_tells ?_
  rintro ⟨cond, start⟩ s₁ ⟨inside, hinside, h₁⟩
  refine (h₁.newBlock .loopAfter []).bind_tells fun after s₂ ⟨_, h₂⟩ => ?_
  refine (h₂.newBlock .loopBody []).bind_tells fun body s₃ ⟨_, h₃⟩ => ?_
  have h₃ := h₃.third
  have hbody := h₃.fits (.tail _ (.head _)) nofun
  refine (h₃.edge hbody .branchTrue).bind_tells fun _ s₄ h₄ => ?_
  have hafter := h₄.fits (.tail _ (.tail _ (.head _))) nofun
  refine (h₄.edge hafter .branchFalse).bind_tells fun _ s₅ h₅ => ?_
  have h₅ := h₅.second
  have hafter := h₅.fits (.tail _ (.tail _ (.head _))) nofun
  refine proceeds_loopBody hread h₅ (h₅.fit hv.targets) hafter (.head _) nofun rfl rfl (.inr rfl) ?_
  intro next s₆ D s₇ _ h₇
  have hcond : p.IsCondition inside := .inl ⟨_, by decide, hinside⟩
  exact proceeds_pure (h₇.close (.decides hcond)) (.single .of_empty)

/-- The condition of a loop without three parts. -/
theorem forRange_tells (hread : Keeps p read) (hv : v.Ready p) {s₁ : BodyBuilder} {C : Ledger}
    {after : BlockId} {inside : List TokenId} {start : Option TokenId}
    (hC : C.Ends p v.current.toList) (hinside : p.InHeader "for" inside)
    (h : Stretch p v.targets.dispatch v.builder (pending v.current) s₁
      ((after, { tokens := [], kind := .loopAfter }) :: C)) :
    Continues p v (fun read => forRange read v.targets v.limit start inside after v.current) read
      s₁ := by
  unfold forRange
  refine (h.newBlock .forRange inside).bind_tells fun cond s₂ ⟨_, h₂⟩ => ?_
  have h₂ := h₂.last_two
  refine (h₂.finish hC (h₂.fits_right (.head _) nofun) (.inl rfl)).bind_tells fun _ s₃ h₃ => ?_
  refine (h₃.newBlock .loopBody []).bind_tells fun body s₄ ⟨_, h₄⟩ => ?_
  have h₄ := h₄.second
  have hbody := h₄.fits (.tail _ (.head _)) nofun
  refine (h₄.edge hbody .branchTrue).bind_tells fun _ s₅ h₅ => ?_
  have hafter := h₅.fits (.tail _ (.tail _ (.head _))) nofun
  refine (h₅.edge hafter .branchFalse).bind_tells fun _ s₆ h₆ => ?_
  have h₆ := h₆.second
  have hafter := h₆.fits (.tail _ (.tail _ (.head _))) nofun
  refine proceeds_loopBody hread h₆ (h₆.fit hv.targets) hafter (.head _) nofun rfl rfl (.inr rfl) ?_
  intro next s₇ D s₈ _ h₈
  have hcond : p.IsCondition inside := .inl ⟨_, by decide, hinside⟩
  exact proceeds_pure (h₈.close (.decides hcond)) (.single .of_empty)

/-- A loop with three parts in its header; an empty condition is always true. -/
theorem forThree_tells (hread : Keeps p read) (hv : v.Ready p) {s₁ : BodyBuilder} {C : Ledger}
    {after : BlockId} {initTokens condTokens stepTokens : List TokenId} {start : Option TokenId}
    (hC : C.Ends p v.current.toList) (hparts : p.InParts initTokens condTokens stepTokens)
    (h : Stretch p v.targets.dispatch v.builder (pending v.current) s₁
      ((after, { tokens := [], kind := .loopAfter }) :: C)) :
    Continues p v (fun read => forThree read v.targets v.limit start initTokens condTokens stepTokens
      after v.current) read s₁ := by
  unfold forThree
  refine (h.newBlock .forInit initTokens).bind_tells fun init s₂ ⟨_, h₂⟩ => ?_
  have h₂ := h₂.last_two
  refine (h₂.finish hC (h₂.fits_right (.head _) nofun) (.inl rfl)).bind_tells fun _ s₃ h₃ => ?_
  refine (h₃.newBlock .loopCondition condTokens).bind_tells fun cond s₄ ⟨_, h₄⟩ => ?_
  have hcond := h₄.fits (.head _) nofun
  have h₄ := h₄.second
  refine (h₄.edge hcond .fallThrough).bind_tells fun _ s₅ h₅ => ?_
  have h₅ := h₅.close (.prepares (.inl ⟨_, _, hparts⟩) (.inl rfl))
  refine (h₅.newBlock .forStep stepTokens).bind_tells fun step s₆ ⟨_, h₆⟩ => ?_
  refine (h₆.newBlock .loopBody []).bind_tells fun body s₇ ⟨_, h₇⟩ => ?_
  have hbody := h₇.fits (.head _) nofun
  refine (h₇.third.edge hbody .branchTrue).bind_tells fun _ s₈ h₈ => ?_
  -- The rest does not depend on whether the condition may be false.
  have hrest : ∀ s₉ exits, p.Finished { tokens := condTokens, kind := .loopCondition, exits } →
      Stretch p v.targets.dispatch v.builder (pending v.current) s₉
        [(cond, { tokens := condTokens, kind := .loopCondition, exits }),
          (body, { tokens := [], kind := .loopBody }),
          (step, { tokens := stepTokens, kind := .forStep }),
          (after, { tokens := [], kind := .loopAfter })] →
      Continues p v (fun read =>
        loopBody read v.targets v.limit start body step after .fallThrough >>= fun next =>
          edge step cond .backEdge >>= fun _ => pure (next, some after)) read s₉ := by
    intro s₉ exits hfinished h₉
    have hafter := h₉.fits (.tail _ (.tail _ (.tail _ (.head _)))) nofun
    refine proceeds_loopBody hread h₉.second (h₉.fit hv.targets) hafter (.tail _ (.head _)) nofun rfl
      rfl (.inl rfl) ?_
    intro next s₁₀ D s₁₁ _ h₁₁
    have hcond := h₁₁.fits (.head _) nofun
    refine (h₁₁.second.edge hcond .backEdge).bind_tells fun _ s₁₂ h₁₂ => ?_
    have h₁₂ := h₁₂.close (.prepares (.inr ⟨_, _, hparts⟩) (.inr rfl))
    exact proceeds_pure (h₁₂.close hfinished) (.single .of_empty)
  dsimp only
  by_cases hempty : condTokens = []
  · simp only [hempty, ne_eq, not_true_eq_false, if_false] at hparts hrest ⊢
    exact hrest s₈ _ (.always hparts) (hempty ▸ h₈)
  · simp only [ne_eq, hempty, not_false_eq_true, if_true]
    have hafter := h₈.fits (.tail _ (.tail _ (.tail _ (.head _)))) nofun
    refine (h₈.edge hafter .branchFalse).bind_tells fun _ s₉ h₉ => ?_
    exact hrest s₉ _ (.decides (.inr ⟨_, _, hparts⟩)) h₉

/-- `for` -/
theorem forStatement_tells (hread : Keeps p read) (hv : v.Ready p) {t : TokenId}
    (hword : p.text t = "for") :
    TellsOutcome p v (fun read => forStatement p read v.targets v.limit t v.current) read := by
  unfold forStatement
  refine (gives_header p "for" (p.nextOf t)).bind_tells ?_
  rintro _ _ ⟨rfl, paren, close, hparen, htext, hlink, rfl⟩
  have hinside : p.InHeader "for" (p.between (p.nextOf paren) (some close)) :=
    ⟨t, paren, close, hword, .inl hparen, htext, hlink, rfl⟩
  obtain ⟨C, hC, h⟩ := hv.stretch
  refine (h.newBlock .loopAfter []).bind_tells fun after s₁ ⟨_, h₁⟩ => ?_
  dsimp only
  split
  · rename_i initTokens condTokens stepTokens hparts
    exact forThree_tells hread hv hC ⟨_, hinside, hparts⟩ h₁
  · exact forRange_tells hread hv hC hinside h₁

theorem doStatement_tells (hread : Keeps p read) (hv : v.Ready p) {t : TokenId} :
    TellsOutcome p v (fun read => doStatement p read v.targets v.limit t v.current) read := by
  unfold doStatement
  obtain ⟨C, hC, h⟩ := hv.stretch
  refine (h.newBlock .loopBody []).bind_tells fun body s₁ ⟨_, h₁⟩ => ?_
  have h₁ := h₁.last_one
  refine (h₁.finish hC (h₁.fits_right (.head _) nofun) (.inl rfl)).bind_tells fun _ s₂ h₂ => ?_
  refine (h₂.newBlock .loopCondition []).bind_tells fun cond s₃ ⟨_, h₃⟩ => ?_
  refine (h₃.newBlock .loopAfter []).bind_tells fun after s₄ ⟨_, h₄⟩ => ?_
  have hafter := h₄.fits (.head _) nofun
  have hbody := h₄.fits (.tail _ (.tail _ (.head _))) nofun
  refine proceeds_loopBody hread h₄.third (h₄.fit hv.targets) hafter (.tail _ (.head _)) nofun rfl rfl
    (.inl rfl) ?_
  intro next s₅ D s₆ hlater h₆
  by_cases hword : p.textOf next = "while"
  · obtain ⟨k, rfl⟩ : ∃ k, next = some k := by
      cases next with
      | none => exact absurd hword (show "" ≠ "while" by decide)
      | some k => exact ⟨k, rfl⟩
    simp only [ne_eq, hword, not_true_eq_false, if_false]
    refine (gives_header p "while" (p.nextOf k)).bind_tells ?_
    rintro _ _ ⟨rfl, paren, close, hparen, htext, hlink, rfl⟩
    have hinside : p.InHeader "while" (p.between (p.nextOf paren) (some close)) :=
      ⟨k, paren, close, hword, .inl hparen, htext, hlink, rfl⟩
    refine (h₆.second.append _).bind_tells fun _ s₇ h₇ => ?_
    have hbody := h₄.sound.fits_later h₇.sound (hlater.trans h₇.later) hbody
    refine (h₇.edge hbody .branchTrue).bind_tells fun _ s₈ h₈ => ?_
    have hafter := h₈.fits (.tail _ (.head _)) nofun
    refine (h₈.edge hafter .branchFalse).bind_tells fun _ s₉ h₉ => ?_
    have hcond : p.IsCondition (p.between (p.nextOf paren) (some close)) :=
      .inl ⟨_, by decide, hinside⟩
    exact proceeds_pure (h₉.close (.decides hcond)) (.single .of_empty)
  · simp only [ne_eq, hword, not_false_eq_true, if_true]
    exact gives_throw.tells

end Loops

/-! ### Branches -/

theorem ifStatement_tells (hread : Keeps p read) (hv : v.Ready p) {t : TokenId}
    (hword : p.text t = "if") :
    TellsOutcome p v (fun read => ifStatement p read v.targets v.limit t v.current) read := by
  unfold ifStatement
  dsimp only
  have hat : p.HeaderAt t (if p.textOf (p.nextOf t) = "constexpr" then (p.nextOf t).bind p.nextOf
      else p.nextOf t) := by
    split_ifs with hconstexpr
    · cases hnext : p.nextOf t with
      | none => exact .inl hnext
      | some c =>
        rw [hnext] at hconstexpr
        exact .inr ⟨c, hnext, hconstexpr, rfl⟩
    · exact .inl rfl
  refine (gives_conditionBlock hv .ifCondition nofun hword hat).bind_tells ?_
  rintro ⟨cond, start⟩ s₁ ⟨inside, hinside, h₁⟩
  have hcond : p.IsCondition inside := .inl ⟨_, by decide, hinside⟩
  refine (h₁.newBlock .ifTrue []).bind_tells fun trueBlock s₂ ⟨_, h₂⟩ => ?_
  refine (h₂.second.edge (h₂.fits (.head _) nofun) .branchTrue).bind_tells fun _ s₃ h₃ => ?_
  refine proceeds_read (C := [_]) hread h₃.second (.single .of_empty) (h₃.fit hv.targets) rfl rfl ?_
  intro next trueEnd s₄ D hD hlater h₄
  dsimp only
  by_cases helse : p.textOf next = "else"
  · simp only [helse, if_true]
    refine (h₄.newBlock .ifFalse []).bind_tells fun falseBlock s₅ ⟨_, h₅⟩ => ?_
    refine (h₅.last_first.edge (h₅.fits (.head _) nofun) .branchFalse).bind_tells fun _ s₆ h₆ => ?_
    have h₆ := h₆.close (.decides hcond)
    have htargets := (h₃.fit hv.targets).later h₃.sound h₆.sound (hlater.trans h₆.later)
    refine proceeds_read (C := [_]) hread h₆ (.single .of_empty) htargets rfl rfl ?_
    intro next falseEnd s₇ D' hD' _ h₇
    have hends : Ledger.Ends p (D ++ D') ([trueEnd, falseEnd].filterMap id) := by
      have hlast : Ledger.Ends p (D' ++ []) ([falseEnd].filterMap id) := hD'.cons (.nil p)
      rw [D'.append_nil] at hlast
      exact hD.cons hlast
    refine ((h₇.perm List.perm_append_comm).merge hends .ifMerge nofun).bind_tells ?_
    exact fun merged s₈ ⟨M, hM, h₈⟩ => proceeds_pure h₈ hM
  · simp only [helse, if_false]
    refine (h₄.newBlock .ifMerge []).bind_tells fun merged s₅ ⟨_, h₅⟩ => ?_
    refine (h₅.last_first.edge (h₅.fits (.head _) nofun) .branchFalse).bind_tells fun _ s₆ h₆ => ?_
    have h₆ := (h₆.close (.decides hcond)).last_one
    refine (h₆.finish hD (h₆.fits_right (.head _) nofun) (.inl rfl)).bind_tells fun _ s₇ h₇ => ?_
    exact proceeds_pure h₇ (.single .of_empty)

/-- Whether a block has an edge to the label `default` is seen from its look. -/
theorem mem_cases_of_any {s : BodyBuilder} {b : BlockId}
    (h : (s.graph.succEdges b).any (·.kind == .switchDefault) = true) :
    .switchDefault ∈ (s.board.look b).cases := by
  obtain ⟨e, he, hkind⟩ := List.any_eq_true.1 h
  refine List.mem_filter.2 ⟨?_, rfl⟩
  rw [← eq_of_beq hkind]
  exact List.mem_map_of_mem he

/-- The end of a `switch`: without a label `default`, the dispatch passes its body by. -/
theorem gives_switchEnd {s s₁ : BodyBuilder} {A : Set BlockId} {inside : List TokenId}
    {cases : List EdgeKind} {dispatch after : BlockId} (next : Option TokenId)
    (hinside : p.InHeader "switch" inside)
    (h : Stretch p v.targets.dispatch s A s₁
      [(dispatch, { tokens := inside, kind := .switchDispatch, cases }),
        (after, { tokens := [], kind := .switchAfter })]) :
    Gives (do
        let g := (← get).graph
        if ¬ (g.succEdges dispatch).any (·.kind == .switchDefault) then
          edge dispatch after .switchDefault
        pure (next, some after)) s₁ (fun a s' => ∃ M : Ledger, M.Ends p a.2.toList ∧
      Stretch p v.targets.dispatch s A s' M) := by
  refine gives_get.bind ?_
  rintro _ _ ⟨rfl, rfl⟩
  dsimp only
  split_ifs with hdefault
  · have hmem := mem_cases_of_any hdefault
    rw [h.looks _ (.head _)] at hmem
    exact gives_pure ⟨_, .single .of_empty, h.close (.dispatches hinside hmem)⟩
  · have hafter := h.fits (.tail _ (.head _)) nofun
    refine (h.edge hafter .switchDefault).bind fun _ s₂ h₂ => ?_
    have hmem : .switchDefault ∈ cases ++ [.switchDefault] := List.mem_append_right _ (.head _)
    exact gives_pure ⟨_, .single .of_empty, h₂.close (.dispatches hinside hmem)⟩

theorem switchStatement_tells (hread : Keeps p read) (hv : v.Ready p) {t : TokenId}
    (hword : p.text t = "switch") :
    TellsOutcome p v (fun read => switchStatement p read v.targets v.limit t v.current) read := by
  unfold switchStatement
  refine (gives_conditionBlock hv .switchDispatch nofun hword (.inl rfl)).bind_tells ?_
  rintro ⟨dispatch, start⟩ s₁ ⟨inside, hinside, h₁⟩
  refine (h₁.newBlock .switchAfter []).bind_tells fun after s₂ ⟨_, h₂⟩ => ?_
  have hafter := h₂.fits (.head _) nofun
  have h₂ := h₂.second
  have htargets : JumpTargets.Fit { v.targets with breakTo := some after, dispatch := some dispatch }
      s₂.board := by
    refine ⟨?_, (h₂.fit hv.targets).continueTo, (h₂.fit hv.targets).handlers⟩
    rintro _ ⟨⟩
    exact hafter
  have hd : ∀ d, some dispatch = some d → 2 ≤ d ∧ d < s₂.board.size ∧ none ≠ some d := by
    rintro _ ⟨⟩
    exact ⟨(h₂.source (.head _)).1, (h₂.source (.head _)).2, nofun⟩
  refine proceeds_inside (C := []) (w := ⟨_, v.limit, start, none, s₂⟩)
    (P := fun L' => ∃ more,
      L' = [(dispatch, { tokens := inside, kind := .switchDispatch, cases := more }),
        (after, { tokens := [], kind := .switchAfter })]) hread h₂ (.nil p)
    (.of_stretch (C := []) h₂ (.nil p) htargets hd) ?_ ?_
  · intro s₃ D h'
    obtain ⟨more, h₃⟩ := h₂.read_switch (C := []) (w := ⟨_, v.limit, start, none, s₂⟩) (.nil p) rfl h'
    refine ⟨_, ?_, ⟨more, rfl⟩, h₃⟩
    rfl
  -- The body starts without a live block, and has added labels to the dispatch block.
  · rintro next bodyEnd s₃ D _ hD ⟨more, rfl⟩ hlater h₃
    have hafter := h₃.fits_right (.tail _ (.head _)) nofun
    refine (h₃.finish hD hafter (.inl rfl)).bind_tells fun _ s₄ h₄ => ?_
    refine ((gives_switchEnd next hinside h₄).mono ?_).tells
    exact fun a s' ⟨M, hM, h'⟩ => ⟨M, hM, h', .inl rfl⟩

/-! ### Statements without others inside -/

theorem caseLabel_gives (hv : v.Ready p) {dispatch : BlockId}
    (hd : v.targets.dispatch = some dispatch) (t : TokenId) : Concludes p v (caseLabel p dispatch v.limit t v.current) v.builder := by
  unfold caseLabel
  extract_lets finish
  obtain ⟨C, hC, h⟩ := hv.stretch
  -- What comes after the label is the same for `case` and `default`.
  have hfinish : ∀ (r : BlockId × Option TokenId) kind s₁, kind ≠ .unreachable →
      Stretch p v.targets.dispatch v.builder (pending v.current) s₁
        ((r.1, { tokens := [], kind }) :: C) →
      Concludes p v (finish r) s₁ := by
    rintro ⟨block, colon⟩ kind s₁ hkind h₁
    unfold finish
    dsimp only
    split
    · split_ifs
      · have h₁ := h₁.last_one
        refine (h₁.finish hC (h₁.fits_right (.head _) hkind) (.inl rfl)).bind fun _ s₂ h₂ => ?_
        exact gives_pure ⟨_, .single .of_empty, h₂⟩
      · exact gives_throw
    · exact gives_throw
  split_ifs
  · refine (h.newBlock .defaultLabel []).bind fun block s₁ ⟨_, h₁⟩ => ?_
    have hfits := h₁.fits (.head _) nofun
    refine (h₁.label hd hfits .switchDefault rfl none none).bind fun _ s₂ h₂ => ?_
    exact hfinish (block, _) .defaultLabel s₂ nofun h₂
  · refine (h.newBlock .caseLabel []).bind fun block s₁ ⟨_, h₁⟩ => ?_
    have hfits := h₁.fits (.head _) nofun
    refine (h₁.label hd hfits .switchCase rfl _ _).bind fun _ s₂ h₂ => ?_
    exact hfinish (block, _) .caseLabel s₂ nofun h₂

theorem labelStatement_gives (hv : v.Ready p) (t : TokenId) (after : Option TokenId) :
    Concludes p v (labelStatement p t after v.current) v.builder := by
  unfold labelStatement
  obtain ⟨C, hC, h⟩ := hv.stretch
  refine (h.newBlock .label []).bind fun block s₁ ⟨_, h₁⟩ => ?_
  have h₁ := h₁.last_one
  refine (h₁.finish hC (h₁.fits_right (.head _) nofun) (.inl rfl)).bind fun _ s₂ h₂ => ?_
  have hstage := h₂.stage.addLabel (h₂.fits (.head _) nofun) (p.text t)
  refine (gives_modify (Q := fun _ s' => Stretch p v.targets.dispatch v.builder
    (pending v.current) s' _) { h₂ with sound := hstage.sound }).bind fun _ s₃ h₃ => ?_
  exact gives_pure ⟨_, .single .of_empty, h₃⟩

theorem plainStatement_gives (hv : v.Ready p) {t : TokenId} (ht : isJump (p.text t) = false) :
    Concludes p v (plainStatement p v.limit t v.current) v.builder := by
  unfold plainStatement
  obtain ⟨C, hC, h⟩ := hv.stretch
  refine (h.live hC).bind fun block s₁ ⟨l, hl, h₁⟩ => ?_
  refine (h₁.append _).bind fun _ s₂ h₂ => gives_pure ⟨_, .single ?_, h₂⟩
  exact ⟨.snoc v.limit t hl.row ht, hl.exits, hl.cases⟩

theorem jumpStatement_gives (hv : v.Ready p) {t : TokenId} (ht : isJump (p.text t) = true) :
    Concludes p v (jumpStatement p v.targets v.limit t v.current) v.builder := by
  unfold jumpStatement
  obtain ⟨C, hC, h⟩ := hv.stretch
  refine (h.live hC).bind fun block s₁ ⟨l, hl, h₁⟩ => ?_
  refine (h₁.append _).bind fun _ s₂ h₂ => ?_
  refine gives_get.bind ?_
  rintro _ _ ⟨rfl, rfl⟩
  obtain ⟨ts, part, exits, cases⟩ := l
  obtain ⟨hrow, hexits, hcases⟩ := hl
  dsimp only at hexits hcases
  subst hexits hcases
  have hdone : ∀ kind, p.Finished
      { tokens := ts ++ p.taken v.limit t, kind, exits := Program.jumpExits (p.text t) } :=
    fun _ => .leaves v.limit t hrow ht
  extract_lets exit finish
  have hfinish : ∀ s₃ l, p.Finished l →
      Stretch p v.targets.dispatch v.builder (pending v.current) s₃ [(block, l)] →
      Concludes p v (finish ()) s₃ := fun s₃ l hl h₃ => gives_pure ⟨[], .nil p, h₃.close hl⟩
  have htargets := h₂.fit hv.targets
  have hfits : ∀ dst : Option BlockId, (∀ b, dst = some b → s₂.board.Fits b) →
      s₂.board.Fits (dst.getD exit) := by
    intro dst hdst
    cases dst with
    | none => exact h₂.fits_exit
    | some b => exact hdst b rfl
  split
  · rename_i hword
    rw [hword] at hdone
    refine h₂.returning.bind fun _ s₃ h₃ => ?_
    have hexit : s₃.board.Fits exit := by
      rw [show exit = s₃.graph.exit from h₂.sound.graph.exit.trans h₃.sound.graph.exit.symm]
      exact h₃.fits_exit
    refine (h₃.edge hexit .returnOut).bind fun _ s₄ h₄ => ?_
    exact hfinish s₄ _ (hdone _) h₄
  · rename_i hword
    rw [hword] at hdone
    obtain ⟨hinner, hheld⟩ := h₂.source (.head _)
    have hhandlers : ∀ dst ∈ v.targets.handlers.getD [exit], s₂.board.Fits dst := by
      intro dst hdst
      cases heq : v.targets.handlers with
      | none =>
        rw [heq] at hdst
        rw [List.mem_singleton.1 hdst]
        exact h₂.fits_exit
      | some hs =>
        rw [heq] at hdst
        exact htargets.handlers hs heq dst hdst
    refine (h₂.exceptions hinner hheld hhandlers).bind fun _ s₃ h₃ => ?_
    exact hfinish s₃ _ (hdone _) (h₂.trans h₃.1)
  · rename_i hword
    rw [hword] at hdone
    refine (h₂.edge (hfits _ htargets.breakTo) .breakOut).bind fun _ s₃ h₃ => ?_
    exact hfinish s₃ _ (hdone _) h₃
  · rename_i hword
    rw [hword] at hdone
    refine (h₂.edge (hfits _ htargets.continueTo) .continueLoop).bind fun _ s₃ h₃ => ?_
    exact hfinish s₃ _ (hdone _) h₃
  · rename_i hreturn hthrow hbreak hcontinue
    -- A `goto` has no edge yet; that it will have one is seen from the board.
    have hgoto : Program.jumpExits (p.text t) = [.goto] := by
      unfold Program.jumpExits
      split
      all_goals first | contradiction | rfl
    rw [hgoto] at hdone
    obtain ⟨hinner, hheld⟩ : 2 ≤ block ∧ block < s₂.board.size := h₂.source (.head _)
    have hnone : (s₂.board.look block).exits = [] := congrArg Look.exits (h₂.looks _ (.head _))
    have hstage := h₂.stage.addGoto hinner hheld hnone (p.textOf (p.nextOf t))
    have h₃ := h₂.change (f := (·.leave .goto)) hstage
    refine Gives.bind (P := fun _ s' => Stretch p v.targets.dispatch v.builder (pending v.current) s'
      [(block, _)]) (gives_modify h₃) fun _ s₃ h₃ => ?_
    exact hfinish s₃ _ (hdone _) h₃

end Body

end DivisorCheck
