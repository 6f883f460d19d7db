/-
  Rows of statements, and `try` with its handlers.

  While the body of a `try` is read its handlers are there already, so that a `throw`
  inside may lead to them.  Once it has been read, every block that it has worked on
  may pass to every handler, unless the block is dead code that nothing enters.  What
  comes after may leave such a block along another edge, but does not change the part
  that it plays.
-/
import DivisorCheck.Proofs.Flow.Statements

namespace DivisorCheck

open Board

namespace Body

open Build BodyBuilder

variable {α : Type} {p : Program} {v : Visit} {read : StatementReader}

section Rows

variable {dispatch : Option BlockId} {handlers : Option (List BlockId)} {s s₁ : BodyBuilder}
  {A : Set BlockId} {C L : Ledger} {targets : JumpTargets} {limit : TokenId}

/-! ### Rows of statements -/

/-- Statements in a row are read one after the other. -/
theorem proceeds_statements (hread : Keeps p read) {fuel : Nat} {start : Option TokenId}
    {current : Option BlockId} (h : Stretch p dispatch s A s₁ C) (hC : C.Ends p current.toList)
    (htargets : targets.Fit s₁.board) (hd : targets.dispatch = dispatch)
    (hhandlers : targets.handlers = handlers) :
    Proceeds p dispatch handlers (fun (out : Option BlockId) M => M.Ends p out.toList)
      (fun read => statements read targets limit fuel start current) read s A s₁ := by
  induction fuel generalizing s s₁ A C start current with
  | zero => exact gives_throw.tells
  | succ fuel ih =>
    cases start with
    | none => exact proceeds_pure h hC
    | some t =>
      unfold statements
      by_cases hlimit : t = limit
      · simp only [hlimit, if_true]
        exact proceeds_pure h hC
      · simp only [hlimit, if_false]
        refine proceeds_read (L := []) hread (C.append_nil.symm ▸ h) hC htargets hd hhandlers ?_
        intro next out s₂ D hD hlater h₂
        rw [D.append_nil] at h₂ ⊢
        exact ih h₂ hD (htargets.later h.sound h₂.sound hlater)

/-! ### Handlers -/

/-- The blocks of handlers whose bodies are still to be read. -/
def opened (clauses : List (TokenId × BlockId)) : Ledger :=
  clauses.map fun c => (c.2, { tokens := [], kind := .catchBody })

theorem map_opened (clauses : List (TokenId × BlockId)) :
    (opened clauses).map (·.1) = clauses.map (·.2) := List.map_map

/-- The handlers of a `try` receive a block each. -/
theorem gives_handlers {fuel : Nat} {start : Option TokenId} (h : Stretch p dispatch s A s₁ L) :
    Gives (Body.handlers p fuel start) s₁
      (fun r s' => Stretch p dispatch s A s' (opened r.1 ++ L)) := by
  induction fuel generalizing s₁ L start with
  | zero => exact gives_throw
  | succ fuel ih =>
    cases start with
    | none => exact gives_pure h
    | some t =>
      unfold Body.handlers
      split_ifs
      · exact gives_pure h
      · refine (gives_header p "catch" _).bind ?_
        rintro _ _ ⟨rfl, -⟩
        dsimp only
        split
        · exact gives_throw
        · refine (h.newBlock .catchBody []).bind fun block s₂ ⟨_, h₂⟩ => ?_
          refine (ih h₂).bind fun r s₃ h₃ => ?_
          exact gives_pure (h₃.perm List.perm_middle)

/-- The bodies of handlers are read one after the other. -/
theorem proceeds_handlerBodies (hread : Keeps p read) {clauses : List (TokenId × BlockId)}
    (h : Stretch p dispatch s A s₁ (opened clauses ++ L)) (htargets : targets.Fit s₁.board)
    (hd : targets.dispatch = dispatch) (hhandlers : targets.handlers = handlers) :
    Proceeds p dispatch handlers
      (fun ends M => ∃ D : Ledger, D.Ends p (ends.filterMap id) ∧ M = D ++ L)
      (fun read => handlerBodies read targets limit clauses) read s A s₁ := by
  induction clauses generalizing s s₁ A L with
  | nil => exact proceeds_pure h ⟨[], .nil p, rfl⟩
  | cons clause rest ih =>
    obtain ⟨brace, block⟩ := clause
    unfold handlerBodies
    refine proceeds_read (C := [_]) (L := opened rest ++ L) hread h (.single .of_empty) htargets hd
      hhandlers ?_
    intro next bodyEnd s₂ D hD hlater h₂
    have hswap : (D ++ (opened rest ++ L)).Perm (opened rest ++ (D ++ L)) := by
      rw [← List.append_assoc, ← List.append_assoc]
      exact List.perm_append_comm.append_right L
    refine (ih (h₂.perm hswap) (htargets.later h.sound h₂.sound hlater)).bind ?_ ?_
    · rintro ends _ _ ⟨M, hM, rfl⟩ ⟨M', hM', rfl⟩
      exact Set.ext fun b => hM.mem_append.trans hM'.mem_append.symm
    · rintro ends s₃ _ ⟨M, hM, rfl⟩ h₃
      -- The ends of the other handlers come first here, and the end of this one first in the answer.
      have hall : (M ++ (D ++ L)).Perm ((D ++ M) ++ L) := by
        rw [← List.append_assoc]
        exact List.perm_append_comm.append_right L
      exact proceeds_pure (h₃.again.perm hall) ⟨D ++ M, hD.cons hM, rfl⟩

end Rows

/-! ### Joining the ends -/

/-- Edges do not change what part a block plays. -/
theorem gives_edges_kind {s : BodyBuilder} {dst : BlockId} (bs : List BlockId) :
    Gives (bs.forM (fun b => edge b dst)) s
      (fun _ s' => ∀ b, (s'.graph.block b).kind = (s.graph.block b).kind) := by
  induction bs generalizing s with
  | nil => exact gives_pure fun _ => rfl
  | cons c bs ih =>
    have hedge : Gives (edge c dst) s
        (fun _ s' => ∀ b, (s'.graph.block b).kind = (s.graph.block b).kind) :=
      gives_modify fun b => by rw [FlowGraph.block_addEdge]
    refine hedge.bind fun _ s₁ h₁ => ih.mono fun _ s' h' b => ?_
    rw [h' b, h₁ b]

/-- The ends are joined in a new block, if any, and old blocks play the part that they played. -/
theorem gives_merge_kind {s : BodyBuilder} (kind : BlockKind) (ends : List (Option BlockId)) :
    Gives (merge kind ends) s (fun out s' => (∀ b ∈ out, s.graph.blocks.size ≤ b) ∧
      ∀ b < s.graph.blocks.size, (s'.graph.block b).kind = (s.graph.block b).kind) := by
  unfold merge
  split
  · exact gives_pure ⟨nofun, fun _ _ => rfl⟩
  · have hnew : Gives (newBlock kind) s (fun b s' => s.graph.blocks.size = b ∧
        ∀ c < s.graph.blocks.size, (s'.graph.block c).kind = (s.graph.block c).kind) := by
      intro _ _ hrun
      cases hrun
      refine ⟨rfl, fun c hc => ?_⟩
      show ((s.graph.newBlock kind).2.block c).kind = _
      rw [FlowGraph.block_newBlock, if_neg (Nat.ne_of_lt hc)]
    refine hnew.bind fun merged s₁ ⟨hmerged, h₁⟩ => ?_
    refine (gives_edges_kind _).bind fun _ s₂ h₂ => gives_pure ⟨?_, fun b hb => ?_⟩
    · rintro _ ⟨⟩
      exact Nat.le_of_eq hmerged
    · rw [h₂ b, h₁ b hb]

/-! ### The body of a `try` -/

/-- The blocks that an exception may leave once the body of a `try` has been read. -/
def throwing (g : FlowGraph) (tryBlock mark : Nat) : List BlockId :=
  (tryBlock :: g.nodes.drop mark).filter (mayThrow g)

theorem mem_throwing {g : FlowGraph} (hg : g.Sound) {tryBlock mark b : Nat} :
    b ∈ throwing g tryBlock mark ↔
      (b = tryBlock ∨ mark ≤ b ∧ b < g.blocks.size) ∧ mayThrow g b = true := by
  have hdrop : b ∈ g.nodes.drop mark ↔ mark ≤ b ∧ b < g.blocks.size := by
    rw [hg.nodes, List.range_eq_range', List.drop_range', List.mem_range'_1]
    omega
  rw [throwing, List.mem_filter, List.mem_cons, hdrop]

/-- An exception may pass from each of some blocks to each handler. -/
theorem gives_throws {dispatch : Option BlockId} {s s₁ : BodyBuilder} {A : Set BlockId} {L : Ledger}
    {bs hs : List BlockId} (h : Stretch p dispatch s A s₁ L)
    (hbs : ∀ b ∈ bs, 2 ≤ b ∧ b < s₁.board.size) (hhs : ∀ dst ∈ hs, s₁.board.Fits dst) :
    Gives (bs.forM (fun b => hs.forM (fun dst => edge b dst .exception))) s₁ (fun _ s' =>
      Stretch p dispatch s₁ L.blocks s' L ∧ s'.board = s₁.board ∧
        ∀ b ∈ bs, ∀ dst ∈ hs, { src := b, dst, kind := .exception } ∈ s'.graph.succEdges b) := by
  induction bs generalizing s s₁ A with
  | nil => exact gives_pure ⟨h.again, rfl, nofun⟩
  | cons b bs ih =>
    obtain ⟨hinner, hheld⟩ := hbs b (.head _)
    refine (h.exceptions hinner hheld hhs).bind fun _ s₂ ⟨h₂, hboard, hedges⟩ => ?_
    refine (ih h₂ (fun c hc => hboard ▸ hbs c (.tail _ hc)) (hboard ▸ hhs)).mono ?_
    rintro _ s' ⟨h', hboard', hedges'⟩
    refine ⟨h₂.trans h', hboard'.trans hboard, fun c hc dst hdst => ?_⟩
    rcases List.mem_cons.1 hc with rfl | hc
    · exact h₂.sound.graph.mem_succEdges_later h'.sound.graph h'.later (hedges dst hdst)
    · exact hedges' c hc dst hdst

section Try

variable {dispatch : Option BlockId} {handlers : Option (List BlockId)} {s s₁ : BodyBuilder}
  {A : Set BlockId} {D : Ledger} {targets : JumpTargets} {limit : TokenId}
  {clauses : List (TokenId × BlockId)} {bodyEnd : Option BlockId}

/-- Exceptions may pass from every block that the body of a `try` has worked on to every handler. -/
theorem gives_bodyThrows {s₂ : BodyBuilder} {A' : Set BlockId} {tryBlock : BlockId} {l : Look}
    (h₁ : Stretch p dispatch s A s₁ ((tryBlock, l) :: opened clauses))
    (h₂ : Stretch p dispatch s₂ A' s₂ (D ++ opened clauses)) (hlater : s₁.graph.Later s₂.graph) :
    Gives ((throwing s₂.graph tryBlock s₁.graph.nodes.length).forM fun b =>
        (clauses.map (·.2)).forM fun dst => edge b dst .exception) s₂
      (fun _ s' => Stretch p dispatch s₂ (D ++ opened clauses).blocks s' (D ++ opened clauses) ∧
        s'.board = s₂.board ∧ ∀ b < s₂.board.size, s₁.board.size ≤ b ∨ b = tryBlock →
          ∀ dst ∈ clauses.map (·.2), s'.graph.Throws b dst) := by
  have hmark : s₁.graph.nodes.length = s₁.board.size := by
    rw [h₁.sound.graph.nodes, List.length_range]
    rfl
  obtain ⟨hinner, hheld⟩ : 2 ≤ tryBlock ∧ tryBlock < s₁.board.size := h₁.source (.head _)
  have hsources : ∀ b ∈ throwing s₂.graph tryBlock s₁.graph.nodes.length,
      2 ≤ b ∧ b < s₂.board.size := by
    intro b hb
    rcases ((mem_throwing h₂.sound.graph).1 hb).1 with rfl | ⟨hnew, hlt⟩
    · exact ⟨hinner, Nat.lt_of_lt_of_le hheld hlater.size⟩
    · exact ⟨Nat.le_trans h₁.two_le (hmark ▸ hnew), hlt⟩
  have hfits : ∀ dst ∈ clauses.map (·.2), s₂.board.Fits dst := by
    intro dst hdst
    obtain ⟨clause, hclause, rfl⟩ := List.mem_map.1 hdst
    exact h₂.fits_right (List.mem_map.2 ⟨clause, hclause, rfl⟩) nofun
  refine (gives_throws h₂ hsources hfits).mono fun _ s' ⟨h', hboard, hedges⟩ => ?_
  refine ⟨h', hboard, fun b hb hnew dst hdst => ?_⟩
  -- A block that may not throw is dead code, and nothing gets to it.
  by_cases hmay : mayThrow s₂.graph b = true
  · refine .inl (hedges b ((mem_throwing h₂.sound.graph).2 ⟨?_, hmay⟩) dst hdst)
    exact hnew.symm.imp_right fun hsize => ⟨hmark ▸ hsize, hb⟩
  · have hdead : (s₂.board.look b).kind = .unreachable := by
      simp only [mayThrow, Bool.not_eq_true', Bool.not_eq_false, Bool.and_eq_true, beq_iff_eq] at hmay
      exact hmay.1
    rw [← hboard] at hdead
    exact .inr hdead

/-- The bodies of the handlers are read, and their ends are joined with that of the body. -/
theorem proceeds_handlersEnd (hread : Keeps p read) (next : Option TokenId)
    (h : Stretch p dispatch s A s₁ (opened clauses ++ D)) (hD : D.Ends p bodyEnd.toList)
    (htargets : targets.Fit s₁.board) (hd : targets.dispatch = dispatch)
    (hhandlers : targets.handlers = handlers) :
    Proceeds p dispatch handlers (fun (a : AfterStatement) M => M.Ends p a.2.toList)
      (fun read => handlerBodies read targets limit clauses >>= fun ends =>
        merge .tryAfter (bodyEnd :: ends) >>= fun merged => pure (next, merged)) read s A s₁ := by
  refine (proceeds_handlerBodies hread h htargets hd hhandlers).bind ?_ ?_
  · rintro ends _ _ ⟨M, hM, rfl⟩ ⟨M', hM', rfl⟩
    exact Set.ext fun b => hM.mem_append.trans hM'.mem_append.symm
  · rintro ends s₂ _ ⟨M, hM, rfl⟩ h₂
    have h₂ := h₂.again.perm List.perm_append_comm
    refine (h₂.merge (hD.cons hM) .tryAfter nofun).bind_tells ?_
    exact fun merged s₃ ⟨M', hM', h₃⟩ => proceeds_pure h₃ hM'

/-- What is worked on meanwhile are blocks of handlers and new blocks only. -/
theorem gives_handlersEnd (hread : Keeps p read) (next : Option TokenId)
    (h : Stretch p dispatch s A s₁ (opened clauses ++ D)) (hD : D.Ends p bodyEnd.toList)
    (htargets : targets.Fit s₁.board) (hd : targets.dispatch = dispatch) :
    Gives (handlerBodies read targets limit clauses >>= fun ends =>
        merge .tryAfter (bodyEnd :: ends) >>= fun merged => pure (next, merged)) s₁
      (fun a s' => s₁.graph.Later s'.graph ∧ ∀ b < s₁.board.size, b ∉ clauses.map (·.2) →
        a.2 ≠ some b ∧ (s'.board.look b).kind = (s₁.board.look b).kind) := by
  refine (proceeds_handlerBodies hread h.again htargets hd rfl).gives.bind ?_
  rintro ends s₂ ⟨_, ⟨M, hM, rfl⟩, h₂⟩ a s₃ hrun
  obtain ⟨merged, s₄, hmerge, hpure⟩ := bind_ok.1 hrun
  cases hpure
  have hswap := h₂.again.perm List.perm_append_comm
  obtain ⟨M', -, h₃⟩ := hswap.merge (hD.cons hM) .tryAfter nofun _ _ hmerge
  obtain ⟨hnew, hkinds⟩ := gives_merge_kind _ _ _ _ hmerge
  refine ⟨h₂.later.trans h₃.later, fun b hb hout => ?_⟩
  have hheld : b < s₂.board.size := Nat.lt_of_lt_of_le hb h₂.grows.size
  refine ⟨fun hmerged => Nat.not_le.2 hheld (hnew b hmerged), (hkinds b hheld).trans ?_⟩
  -- The end of the body waits meanwhile; it is still live, but the bodies of handlers do not touch it.
  by_cases hbD : b ∈ D.blocks
  · obtain ⟨x, hx, rfl⟩ := List.mem_map.1 hbD
    have hold := h.looks x (List.mem_append_right _ hx)
    have hsame := h₂.looks x (List.mem_append_right _ hx)
    exact congrArg Look.kind (hsame.trans hold.symm)
  · have hA : b ∉ (opened clauses ++ D).blocks := by
      rw [Ledger.mem_blocks, List.map_append, List.mem_append, map_opened, not_or]
      exact ⟨hout, hbD⟩
    exact (h₂.grows.kept b hb hA).kind

end Try

/-! ### `try` -/

/-- The body of a `try` may be read. -/
theorem ready_tryBody {s₁ : BodyBuilder} {tryBlock : BlockId} {clauses : List (TokenId × BlockId)}
    (hv : v.Ready p) (brace : TokenId)
    (h : Stretch p v.targets.dispatch v.builder (pending v.current) s₁
      ((tryBlock, { tokens := [], kind := .tryBody }) :: opened clauses)) :
    Visit.Ready p ⟨{ v.targets with handlers := some (clauses.map (·.2)) }, v.limit, some brace,
      some tryBlock, s₁⟩ := by
  refine .of_stretch (C := [_]) h (.single .of_empty) ?_ fun d hd => ?_
  · refine ⟨(h.fit hv.targets).breakTo, (h.fit hv.targets).continueTo, ?_⟩
    rintro _ ⟨⟩ dst hdst
    obtain ⟨clause, hclause, rfl⟩ := List.mem_map.1 hdst
    exact h.fits (.tail _ (List.mem_map.2 ⟨clause, hclause, rfl⟩)) nofun
  · obtain ⟨hinner, hheld, hout⟩ := h.outer d hd
    refine ⟨hinner, Nat.lt_of_lt_of_le hheld h.grows.size, fun hcurrent => ?_⟩
    exact h.grows.not_mem hheld hout (Option.some.inj hcurrent ▸ List.mem_cons_self ..)

theorem tryStatement_tells (hread : Keeps p read) (hv : v.Ready p) {t : TokenId} :
    TellsOutcome p v (fun read => tryStatement p read v.targets v.limit t v.current) read := by
  unfold tryStatement
  split
  · exact gives_throw.tells
  rename_i brace close _
  obtain ⟨C, hC, h⟩ := hv.stretch
  refine (h.newBlock .tryBody []).bind_tells fun tryBlock s₁ ⟨_, h₁⟩ => ?_
  have h₁ := h₁.last_one
  refine (h₁.finish hC (h₁.fits_right (.head _) nofun) (.inl rfl)).bind_tells fun _ s₂ h₂ => ?_
  refine (gives_handlers h₂).bind_tells fun ⟨clauses, next⟩ s₃ h₃ => ?_
  refine gives_get.bind_tells ?_
  rintro _ _ ⟨rfl, rfl⟩
  have hbody : Ledger.Ends p [(tryBlock, { tokens := [], kind := .tryBody })] (some tryBlock).toList :=
    .single .of_empty
  have h₃ := h₃.perm List.perm_append_comm
  dsimp only
  refine proceeds_inside (P := (· = opened clauses)) (w := ⟨_, v.limit, some brace, some tryBlock, s₃⟩)
    hread h₃ hbody (ready_tryBody hv brace h₃)
    (fun _ _ h' => ⟨_, rfl, rfl,
      h₃.read (w := ⟨_, v.limit, some brace, some tryBlock, s₃⟩) hbody rfl h'⟩) ?_
  rintro _ bodyEnd s₄ D _ hD rfl hlater h₄
  refine gives_get.bind_tells ?_
  rintro _ _ ⟨rfl, rfl⟩
  refine (gives_bodyThrows h₃ h₄ hlater).bind_tells fun _ s₅ ⟨h₅, hboard, hthrows⟩ => ?_
  have htargets := (h₃.fit hv.targets).later h₃.sound h₅.sound (hlater.trans h₅.later)
  have h₅ := h₅.perm List.perm_append_comm
  refine ((proceeds_handlersEnd hread next h₅ hD htargets rfl rfl).and_gives
    (gives_handlersEnd hread next h₅ hD htargets rfl)).mono ?_
  rintro a s' ⟨⟨M, hM, h'⟩, hlater', hkept⟩
  refine ⟨M, hM, h', .inr fun b ⟨hheld, hnew⟩ => ?_⟩
  -- The blocks of the handlers are older than the body and not live in it.
  have hout : b ∉ clauses.map (·.2) := by
    rw [← map_opened]
    intro hmem
    obtain ⟨hold, hne⟩ := h₃.apart hbody hmem
    exact hnew.elim (Nat.not_le.2 hold) hne
  obtain ⟨hne, hkind⟩ := hkept b (hboard ▸ hheld) hout
  refine ⟨fun hmem => hne (hM.mem_blocks.1 hmem), ?_⟩
  rintro _ ⟨⟩ dst hdst
  have hnew := hnew.imp_right fun heq => (Option.some.inj heq).symm
  exact (hthrows b hheld hnew dst hdst).later h₅.sound h'.sound hlater' hkind

end Body

end DivisorCheck
