/-
  What a graph looks like when the body has been read.
-/
import DivisorCheck.Proofs.Flow.Handlers
import DivisorCheck.Proofs.Flow.Kinds

namespace DivisorCheck

open Board

namespace Body

open Build BodyBuilder

variable {p : Program} {v : Visit} {read : StatementReader}

/-! ### Statements -/

/-- A row of statements in braces. -/
theorem braces_tells (hread : Keeps p read) (hv : v.Ready p) (close : TokenId) (fuel : Nat)
    (start : Option TokenId) :
    TellsOutcome p v (fun read =>
      statements read v.targets close fuel start v.current >>= fun block => pure (p.nextOf close, block)) read := by
  obtain ⟨C, hC, h⟩ := hv.stretch
  refine (proceeds_statements hread h hC hv.targets rfl rfl).bind ?_ ?_
  · exact fun out M M' hM hM' => hM.blocks_eq.trans hM'.blocks_eq.symm
  · exact fun out s₁ M hM h₁ => proceeds_pure h₁.again hM

/-- A statement of any kind. -/
theorem statementWith_tells (hread : Keeps p read) (hv : v.Ready p) :
    TellsOutcome p v (fun read => statementWith p read v.targets v.limit v.start v.current) read := by
  cases v.start with
  | none => exact gives_throw.tells
  | some t =>
    apply statementWith_cases (motive := fun F => TellsOutcome p v F read)
    case unmatched => exact fun _ => gives_throw.tells
    case braces => exact fun close _ _ => braces_tells hread hv close _ _
    case empty =>
      intro _
      obtain ⟨C, hC, h⟩ := hv.stretch
      exact proceeds_pure h hC
    case arm => exact fun d hd => (caseLabel_gives hv hd t).tells
    case label => exact fun _ _ => (labelStatement_gives hv t _).tells
    case ifWord => exact ifStatement_tells hread hv
    case whileWord => exact whileStatement_tells hread hv
    case forWord => exact forStatement_tells hread hv
    case doWord => exact fun _ => doStatement_tells hread hv
    case switchWord => exact switchStatement_tells hread hv
    case tryWord => exact fun _ => tryStatement_tells hread hv
    case jump => exact fun hjump => (jumpStatement_gives hv hjump).tells
    case plain => exact fun hplain => (plainStatement_gives hv hplain).tells

/-- **Reading a statement keeps the shape of the graph**, however deep the statements inside it. -/
theorem keeps_statement (p : Program) (depth : Nat) : Keeps p (statement p depth) := by
  induction depth with
  | zero => exact fun v hv a s' => nofun
  | succ depth ih => exact fun v hv a s' hrun => ((statementWith_tells ih hv) a s' hrun).1

/-! ### The beginning of a body -/

theorem sound_init (name : Option String) : (FlowGraph.init name).Sound := by
  have hempty : ∀ b, ((FlowGraph.init name).block b).succs = [] ∧
      ((FlowGraph.init name).block b).preds = []
    | 0 => ⟨rfl, rfl⟩
    | 1 => ⟨rfl, rfl⟩
    | _ + 2 => ⟨rfl, rfl⟩
  have hnone : (FlowGraph.init name).edges.size = 0 := rfl
  constructor
  case entry | exit | nodes | listed | nextId => rfl
  case size => exact Nat.le_refl 2
  case ids =>
    intro b hb
    match b, hb with
    | 0, _ => rfl
    | 1, _ => rfl
  case succs =>
    intro b i
    rw [(hempty b).1, hnone]
    simp
  case preds =>
    intro b i
    rw [(hempty b).2, hnone]
    simp
  case legal => exact fun i hi => absurd hi (Nat.not_lt_zero i)
  case exitFits => exact ⟨nofun, Nat.lt_succ_self 1, nofun⟩

theorem begun_sound (name : Option String) : (begun name).Sound := by
  have hinit : BodyBuilder.Sound { graph := .init name } := ⟨sound_init name, nofun, nofun⟩
  have hlegal : ((FlowGraph.init name).newBlock .body []).2.Legal { src := 0, dst := 2 } :=
    ⟨.inr ⟨rfl, rfl⟩, Nat.succ_pos 2, nofun, Nat.lt_succ_self 2, nofun⟩
  exact ((hinit.stage.newBlock .body []).addEdge hlegal).sound

theorem look_begun (name : Option String) :
    (begun name).board.size = 3 ∧
      (begun name).board.look 0 = { tokens := [], kind := .entry, exits := [.fallThrough] } ∧
      (begun name).board.look 1 = { tokens := [], kind := .exit } ∧
      (begun name).board.look 2 = { tokens := [], kind := .body } :=
  ⟨rfl, rfl, rfl, rfl⟩

/-- Before the first statement is read, there is work on one block only. -/
theorem begun_stretch (p : Program) (name : Option String) :
    Stretch p none (begun name) (pending (some 2)) (begun name)
      [(2, { tokens := [], kind := .body })] := by
  obtain ⟨hsize, -, -, hlook⟩ := look_begun name
  have hends : Ledger.Ends p [(2, { tokens := [], kind := .body })] (some 2).toList :=
    .single .of_empty
  rw [← hends.blocks_eq]
  refine .refl (begun_sound name) ?_ (List.nodup_singleton 2) ?_ nofun
  · intro x hx
    rw [List.mem_singleton.1 hx]
    exact hlook
  · intro b hb
    rw [List.mem_singleton.1 hb, hsize]
    exact ⟨Nat.le_refl 2, Nat.lt_succ_self 2⟩

/-- The row of statements of a body. -/
theorem row_tells (p : Program) (name : Option String) (first last : TokenId) :
    Proceeds p none none (fun (out : Option BlockId) M => M.Ends p out.toList)
      (fun read => statements read {} last (p.tokens.size + 1) (p.nextOf first) (some 2))
      (statement p (depthLimit p)) (begun name) (pending (some 2)) (begun name) :=
  proceeds_statements (keeps_statement p _) (begun_stretch p name) (.single .of_empty)
    ⟨nofun, nofun, nofun⟩ rfl rfl

end Body

/-! ### Jumps to labels -/

/-- What matters about a block of a graph. -/
def FlowGraph.look (g : FlowGraph) (b : BlockId) : Look where
  tokens := (g.block b).tokens
  kind := (g.block b).kind
  exits := g.exitKinds b
  cases := g.caseKinds b

/-- A block that is finished is left by a jump to a label along that edge only. -/
theorem Program.Finished.exits_goto {p : Program} {l : Look} (h : p.Finished l)
    (hgoto : .goto ∈ l.exits) : l.exits = [.goto] := by
  cases h with
  | decides _ => simp at hgoto
  | always _ => simp at hgoto
  | dispatches _ _ => simp at hgoto
  | prepares _ hexit => rcases hexit with rfl | rfl <;> simp at hgoto
  | passes _ hexit => rcases hexit with rfl | rfl <;> simp at hgoto
  | leaves limit t _ _ =>
    dsimp only [Program.jumpExits] at hgoto ⊢
    split at hgoto
    all_goals simp at hgoto
    rfl

namespace Body

open Build BodyBuilder

variable {p : Program} {s : BodyBuilder}

theorem look_addEdge {g : FlowGraph} {e : Edge} (hg : g.Sound) (he : g.Legal e) (b : BlockId) :
    (g.addEdge e).2.look b = if b = e.src then (g.look b).leave e.kind else g.look b := by
  have hs : BodyBuilder.Sound { graph := g } := ⟨hg, nofun, nofun⟩
  exact (hs.stage.addEdge he).look_eq b

/-- Jumps to labels become edges. -/
theorem gives_gotos {js : List (BlockId × String)} {dst : BlockId × String → BlockId}
    (hs : s.graph.Sound) (hsrc : ∀ j ∈ js, 2 ≤ j.1 ∧ j.1 < s.graph.blocks.size)
    (hdst : ∀ j ∈ js, s.graph.Fits (dst j)) :
    Gives (js.forM fun j => edge j.1 (dst j) .goto) s (fun _ s' => s'.graph.Sound ∧
      s.graph.Later s'.graph ∧ s'.graph.blocks.size = s.graph.blocks.size ∧ ∀ b, s'.graph.look b =
        { s.graph.look b with
          exits := (s.graph.look b).exits ++ (js.filter (·.1 = b)).map fun _ => .goto }) := by
  induction js generalizing s with
  | nil => exact gives_pure ⟨hs, .refl _, rfl, fun b => by simp [FlowGraph.look]⟩
  | cons j js ih =>
    obtain ⟨hinner, hheld⟩ := hsrc j (.head _)
    have hlegal : s.graph.Legal { src := j.1, dst := dst j, kind := .goto } :=
      ⟨.inl hinner, hheld, hdst j (.head _)⟩
    have hlater := FlowGraph.later_addEdge s.graph { src := j.1, dst := dst j, kind := .goto }
    have hsize := (s.graph.size_addEdge { src := j.1, dst := dst j, kind := .goto }).1
    have hlook := look_addEdge hs hlegal
    have hedge : Gives (edge j.1 (dst j) .goto) s (fun _ s₁ => { s with
        graph := (s.graph.addEdge { src := j.1, dst := dst j, kind := .goto }).2 } = s₁) :=
      gives_modify rfl
    refine hedge.bind ?_
    rintro _ _ rfl
    refine (ih (hs.addEdge hlegal) (fun k hk => ?_) fun k hk => ?_).mono ?_
    · rw [hsize]
      exact hsrc k (.tail _ hk)
    · exact (hdst k (.tail _ hk)).later hlater
    · rintro _ s' ⟨hs', hlater', hsize', hlooks⟩
      refine ⟨hs', hlater.trans hlater', hsize'.trans hsize, fun b => ?_⟩
      rw [hlooks b, hlook b, List.filter_cons]
      by_cases hb : b = j.1
      · simp [hb, Look.leave, EdgeKind.isCase]
      · simp [hb, Ne.symm hb]

theorem board_look (s : BodyBuilder) (b : BlockId) : s.board.look b =
    { s.graph.look b with
      exits := (s.gotos.filter (·.1 = b)).map (fun _ => .goto) ++ (s.graph.look b).exits } := rfl

/-- Once the jumps to labels are resolved, what was finished is so in the graph. -/
theorem finished_of_gotos {g : FlowGraph} {b : BlockId} (h : p.Finished (s.board.look b))
    (hlook : g.look b = { s.graph.look b with
      exits := (s.graph.look b).exits ++ (s.gotos.filter (·.1 = b)).map fun _ => .goto }) :
    p.Finished (g.look b) := by
  -- On the board the jumps to labels come before the edges, in the graph after them.  A finished block
  -- has either no such jump or this one exit.
  cases hjumps : s.gotos.filter (·.1 = b) with
  | nil =>
    rw [board_look, hjumps] at h
    rw [hlook, hjumps]
    simpa using h
  | cons j js =>
    have honly : (s.board.look b).exits = [.goto] := by
      refine h.exits_goto ?_
      rw [board_look, hjumps]
      exact .head _
    obtain ⟨rfl, hexits⟩ : js = [] ∧ (s.graph.look b).exits = [] := by
      rw [board_look, hjumps] at honly
      simpa using honly
    rw [board_look, hjumps, hexits] at h
    rw [hlook, hjumps, hexits]
    exact h

/-! ### Bodies -/

/-- The graph of a body, after its row of statements has been read. -/
structure Built (p : Program) (s : BodyBuilder) (g : FlowGraph) : Prop where
  sound : g.Sound
  later : s.graph.Later g
  kind : ∀ b, (g.block b).kind = (s.graph.block b).kind
  entry : g.look 0 = { tokens := [], kind := .entry, exits := [.fallThrough] }
  finished : ∀ b < g.blocks.size, 2 ≤ b → p.Finished (g.look b)

/-- The row of statements of a body has been read. -/
def RowRead (p : Program) (name : Option String) (first last : TokenId) (out : Option BlockId)
    (s : BodyBuilder) : Prop :=
  statements (statement p (depthLimit p)) {} last (p.tokens.size + 1) (p.nextOf first) (some 2)
    (begun name) = .ok (out, s)

theorem gives_edgeFrom_kind {src : Option BlockId} {dst : BlockId} :
    Gives (edgeFrom src dst) s (fun _ s' => s.graph.Later s'.graph ∧
      ∀ b, (s'.graph.block b).kind = (s.graph.block b).kind) := by
  cases src with
  | none => exact gives_pure ⟨.refl _, fun _ => rfl⟩
  | some c =>
    refine gives_modify ⟨FlowGraph.later_addEdge _ _, fun b => ?_⟩
    rw [FlowGraph.block_addEdge]

/-- What becomes of a body after its row of statements. -/
theorem gives_bodyEnd {name : Option String} {out : Option BlockId} {M : Ledger}
    (h : Stretch p none (begun name) (pending (some 2)) s M) (hM : M.Ends p out.toList) :
    Gives (edgeFrom out 1 >>= fun _ => get >>= fun s => s.gotos.forM fun j =>
        edge j.1 (((s.labels.find? (·.1 == j.2)).map (·.2)).getD 1) .goto) s
      (fun _ s' => Built p s s'.graph) := by
  have h : Stretch p none (begun name) (pending (some 2)) s (M ++ []) := M.append_nil.symm ▸ h
  intro _ s' hrun
  obtain ⟨_, s₁, hedge, hrun⟩ := bind_ok.1 hrun
  obtain ⟨_, _, hget, hgotos⟩ := bind_ok.1 hrun
  cases hget
  have h₁ : Stretch p none (begun name) (pending (some 2)) s₁ [] :=
    h.finish hM h.sound.stage.fits_exit (.inl rfl) _ _ hedge
  obtain ⟨hlater, hkind⟩ := gives_edgeFrom_kind _ _ hedge
  have hlabel : ∀ j ∈ s₁.gotos,
      s₁.graph.Fits (((s₁.labels.find? (·.1 == j.2)).map (·.2)).getD 1) := by
    intro j _
    cases hfind : s₁.labels.find? (·.1 == j.2) with
    | none => exact h₁.sound.graph.exitFits
    | some l => exact h₁.sound.labels l (List.mem_of_find?_eq_some hfind)
  obtain ⟨hsound, hlater', hsize, hlooks⟩ :=
    gives_gotos h₁.sound.graph h₁.sound.gotos hlabel _ _ hgotos
  have hentry : s₁.board.look 0 = { tokens := [], kind := .entry, exits := [.fallThrough] } :=
    h₁.grows.look_eq (Nat.succ_pos 2) nofun nofun
  -- No jump starts in the entry.
  have hnone : s₁.gotos.filter (·.1 = 0) = [] := by
    refine List.filter_eq_nil_iff.2 fun j hj heq => ?_
    have hinner := (h₁.sound.gotos j hj).1
    rw [of_decide_eq_true heq] at hinner
    exact absurd hinner (by decide)
  refine ⟨hsound, hlater.trans hlater', fun b => ?_, ?_, fun b hb hinner => ?_⟩
  · exact (congrArg Look.kind (hlooks b)).trans (hkind b)
  · rw [board_look, hnone] at hentry
    rw [hlooks 0, hnone, ← hentry]
    simp
  · rw [hsize] at hb
    refine finished_of_gotos (h₁.grows.finished b hb ?_ nofun) (hlooks b)
    rcases Nat.lt_or_eq_of_le hinner with hb | rfl
    · exact .inl hb
    · exact .inr rfl

theorem built_of_ofBody {name : Option String} {first last : TokenId} {g : FlowGraph}
    (h : FlowGraph.ofBody p name first last = .ok g) :
    ∃ out s M, RowRead p name first last out s ∧ M.Ends p out.toList ∧
      Stretch p none (begun name) (pending (some 2)) s M ∧ Built p s g := by
  change (body p (p.nextOf first) last { graph := .init name }).map (·.2.graph) = .ok g at h
  cases hrun : body p (p.nextOf first) last { graph := .init name } with
  | error e =>
    rw [hrun] at h
    cases h
  | ok r =>
    rw [hrun] at h
    cases h
    obtain ⟨_, s'⟩ := r
    unfold body at hrun
    obtain ⟨_, _, hnew, hrun⟩ := bind_ok.1 hrun
    cases hnew
    obtain ⟨_, _, hget, hrun⟩ := bind_ok.1 hrun
    cases hget
    obtain ⟨_, _, hedge, hrun⟩ := bind_ok.1 hrun
    cases hedge
    obtain ⟨out, s, hrow, hrun⟩ := bind_ok.1 hrun
    have hrow : RowRead p name first last out s := hrow
    obtain ⟨M, hM, hstretch⟩ := (row_tells p name first last).gives _ _ hrow
    exact ⟨out, s, M, hrow, hM, hstretch, gives_bodyEnd hstretch hM _ _ hrun⟩

end Body

/-- The graph of a function is that of its body. -/
theorem Program.exists_ofBody {p : Program} {f : FunctionId} {g : FlowGraph}
    (h : p.flowGraph f = .ok (some g)) : ∃ first last, p.functionBody? f = some (first, last) ∧
      FlowGraph.ofBody p (p.function f).name first last = .ok g := by
  unfold flowGraph at h
  split at h
  · cases h
  · rename_i first last hbody
    cases hof : FlowGraph.ofBody p (p.function f).name first last with
    | error e =>
      rw [hof] at h
      cases h
    | ok g' =>
      rw [hof] at h
      cases h
      exact ⟨first, last, hbody, hof⟩

/-- The function has a graph that passes a test. -/
def Program.buildsTo (p : Program) (f : FunctionId) (test : FlowGraph → Bool) : Bool :=
  match p.flowGraph f with
  | .ok (some g) => test g
  | _ => false

theorem Program.exists_of_buildsTo {p : Program} {f : FunctionId} {test : FlowGraph → Bool}
    (h : p.buildsTo f test = true) : ∃ g, p.flowGraph f = .ok (some g) ∧ test g = true := by
  unfold buildsTo at h
  split at h
  · rename_i g hg
    exact ⟨g, hg, h⟩
  · cases h

end DivisorCheck
