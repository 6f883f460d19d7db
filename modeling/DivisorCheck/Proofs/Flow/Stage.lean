/-
  `BodyBuilder.Stage` — a builder on its way: it is sound, it has come from another
  one, and it shows a given board.  Each step of building takes a stage to the next
  one, if the block that an edge leaves may be left and the one that it enters may
  be entered.
-/
import DivisorCheck.Proofs.Flow.Board
import DivisorCheck.Proofs.Flow.Visit

namespace DivisorCheck

/-! ### Graphs -/

namespace FlowGraph

/-- The kinds of the edges that leave a block, other than exceptions and edges to labels. -/
def exitKinds (g : FlowGraph) (b : BlockId) : List EdgeKind :=
  ((g.succEdges b).map (·.kind)).filter (fun kind => kind ≠ .exception ∧ ¬ kind.isCase)

/-- The kinds of the edges from a block to labels. -/
def caseKinds (g : FlowGraph) (b : BlockId) : List EdgeKind :=
  ((g.succEdges b).map (·.kind)).filter EdgeKind.isCase

variable {g : FlowGraph} {e : Edge} {b : BlockId} {kind : BlockKind} {ts : List TokenId}

theorem block_newBlock (g : FlowGraph) (kind : BlockKind) (ts : List TokenId) (b : BlockId) :
    (g.newBlock kind ts).2.block b =
      if b = g.blocks.size then { id := g.nextId, kind, tokens := ts } else g.block b :=
  g.block_hold _ b

theorem later_newBlock (g : FlowGraph) (kind : BlockKind) (ts : List TokenId) :
    g.Later (g.newBlock kind ts).2 where
  size := by
    show g.blocks.size ≤ (g.blocks.push _).size
    rw [Array.size_push]
    exact Nat.le_succ _
  edges := Nat.le_refl _
  edge _ _ := rfl
  kind b hb := by
    rw [block_newBlock, if_neg (Nat.ne_of_lt hb)]
    exact .inl rfl

theorem later_addEdge (g : FlowGraph) (e : Edge) : g.Later (g.addEdge e).2 where
  size := Nat.le_of_eq (g.size_addEdge e).1.symm
  edges := by
    rw [(g.size_addEdge e).2]
    exact Nat.le_succ _
  edge i hi := by
    rw [edge_addEdge, if_neg (Nat.ne_of_lt hi)]
  kind b _ := by
    rw [block_addEdge]
    exact .inl rfl

theorem later_modifyBlock (g : FlowGraph) (b : BlockId) {f : Block → Block}
    (hf : ∀ n, (f n).kind = n.kind ∨ (f n).kind = .returning) :
    g.Later (g.modifyBlock b f) where
  size := Nat.le_of_eq Array.size_modify.symm
  edges := Nat.le_refl _
  edge _ _ := rfl
  kind c _ := by
    rw [block_modifyBlock]
    split_ifs
    · exact hf _
    · exact .inl rfl

namespace Sound

theorem newBlock (h : g.Sound) (kind : BlockKind) (ts : List TokenId) :
    (g.newBlock kind ts).2.Sound where
  entry := h.entry
  exit := h.exit
  size := Nat.le_trans h.size (later_newBlock g kind ts).size
  nodes := by
    show g.nodes ++ [g.blocks.size] = List.range (g.blocks.push _).size
    rw [h.nodes, Array.size_push, List.range_succ]
  listed := h.listed
  ids b hb := by
    change b < (g.blocks.push _).size at hb
    rw [Array.size_push] at hb
    rw [block_newBlock]
    split_ifs with hnew
    · rw [hnew, h.nextId]
    · exact h.ids b (Nat.lt_of_le_of_ne (Nat.le_of_lt_succ hb) hnew)
  nextId := by
    show g.nextId + 1 = (g.blocks.push _).size
    rw [h.nextId, Array.size_push]
  succs b i := by
    rw [block_newBlock]
    split_ifs with hnew
    · refine ⟨fun hi => absurd hi List.not_mem_nil, fun ⟨hi, hsrc⟩ => ?_⟩
      exact absurd (hnew ▸ hsrc) (Nat.ne_of_lt (h.legal i hi).held)
    · exact h.succs b i
  preds b i := by
    rw [block_newBlock]
    split_ifs with hnew
    · refine ⟨fun hi => absurd hi List.not_mem_nil, fun ⟨hi, hdst⟩ => ?_⟩
      exact absurd (hnew ▸ hdst) (Nat.ne_of_lt (h.legal i hi).target.held)
    · exact h.preds b i
  legal i hi := (h.legal i hi).later (later_newBlock g kind ts)
  exitFits := h.exitFits.later (later_newBlock g kind ts)

theorem addEdge (h : g.Sound) (he : g.Legal e) : (g.addEdge e).2.Sound where
  entry := h.entry
  exit := h.exit
  size := Nat.le_trans h.size (later_addEdge g e).size
  nodes := by
    rw [(g.size_addEdge e).1]
    exact h.nodes
  listed := by
    rw [(g.size_addEdge e).2, List.range_succ, ← h.listed]
    rfl
  ids b hb := by
    rw [(g.size_addEdge e).1] at hb
    rw [block_addEdge]
    exact h.ids b hb
  nextId := by
    rw [(g.size_addEdge e).1]
    exact h.nextId
  succs b i := by
    rw [succs_addEdge, edge_addEdge, (g.size_addEdge e).2]
    have hold := h.succs b i
    by_cases hi : i = g.edges.size
    · subst hi
      simp only [Nat.lt_irrefl, false_and, iff_false] at hold
      have hheld := he.held
      by_cases hb : b = e.src
      · subst hb
        simp [hheld]
      · simp [hb, hold, Ne.symm hb]
    · have hlt : i < g.edges.size + 1 ↔ i < g.edges.size :=
        ⟨fun h => Nat.lt_of_le_of_ne (Nat.le_of_lt_succ h) hi, Nat.lt_succ_of_lt⟩
      rw [if_neg hi, hlt, ← hold]
      split_ifs
      · simp [hi]
      · rfl
  preds b i := by
    rw [preds_addEdge, edge_addEdge, (g.size_addEdge e).2]
    have hold := h.preds b i
    by_cases hi : i = g.edges.size
    · subst hi
      simp only [Nat.lt_irrefl, false_and, iff_false] at hold
      have hheld := he.target.held
      by_cases hb : b = e.dst
      · subst hb
        simp [hheld]
      · simp [hb, hold, Ne.symm hb]
    · have hlt : i < g.edges.size + 1 ↔ i < g.edges.size :=
        ⟨fun h => Nat.lt_of_le_of_ne (Nat.le_of_lt_succ h) hi, Nat.lt_succ_of_lt⟩
      rw [if_neg hi, hlt, ← hold]
      split_ifs
      · simp [hi]
      · rfl
  legal i hi := by
    rw [edge_addEdge]
    split_ifs with hnew
    · exact he.later (later_addEdge g e)
    · rw [(g.size_addEdge e).2] at hi
      exact (h.legal i (Nat.lt_of_le_of_ne (Nat.le_of_lt_succ hi) hnew)).later (later_addEdge g e)
  exitFits := h.exitFits.later (later_addEdge g e)

theorem modifyBlock (h : g.Sound) (b : BlockId) {f : Block → Block}
    (hf : ∀ n, (f n).id = n.id ∧ (f n).succs = n.succs ∧ (f n).preds = n.preds)
    (hkind : ∀ n, (f n).kind = n.kind ∨ (f n).kind = .returning) :
    (g.modifyBlock b f).Sound := by
  have hlater := later_modifyBlock g b hkind
  have hsize : (g.modifyBlock b f).blocks.size = g.blocks.size := Array.size_modify
  have hblock : ∀ c, ((g.modifyBlock b f).block c).id = (g.block c).id ∧
      ((g.modifyBlock b f).block c).succs = (g.block c).succs ∧
      ((g.modifyBlock b f).block c).preds = (g.block c).preds := by
    intro c
    rw [block_modifyBlock]
    split_ifs
    · exact hf _
    · exact ⟨rfl, rfl, rfl⟩
  constructor
  case entry => exact h.entry
  case exit => exact h.exit
  case size => exact Nat.le_trans h.size hlater.size
  case nodes =>
    rw [hsize]
    exact h.nodes
  case listed => exact h.listed
  case ids =>
    intro c hc
    rw [(hblock c).1]
    exact h.ids c (hsize ▸ hc)
  case nextId =>
    rw [hsize]
    exact h.nextId
  case succs =>
    intro c i
    rw [(hblock c).2.1]
    exact h.succs c i
  case preds =>
    intro c i
    rw [(hblock c).2.2]
    exact h.preds c i
  case legal => exact fun i hi => (h.legal i hi).later hlater
  case exitFits => exact h.exitFits.later hlater

/-- The edges that leave a block, after one more edge. -/
theorem succEdges_addEdge (h : g.Sound) (he : e.src < g.blocks.size) (b : BlockId) :
    (g.addEdge e).2.succEdges b = if b = e.src then g.succEdges b ++ [e] else g.succEdges b := by
  have hold : (g.block b).succs.map (g.addEdge e).2.edge = g.succEdges b := by
    refine List.map_congr_left fun i hi => ?_
    rw [edge_addEdge, if_neg (Nat.ne_of_lt ((h.succs b i).1 hi).1)]
  unfold succEdges at hold ⊢
  rw [succs_addEdge]
  by_cases hb : b = e.src
  · rw [if_pos hb, if_pos ⟨hb, hb ▸ he⟩, List.map_append, hold]
    simp [edge_addEdge]
  · rw [if_neg hb, if_neg fun hn => hb hn.1, hold]

end Sound

end FlowGraph

/-! ### Builders -/

namespace BodyBuilder

/-- What matters about a block; a jump that is still to be resolved counts as an edge. -/
def look (s : BodyBuilder) (b : BlockId) : Look where
  tokens := (s.graph.block b).tokens
  kind := (s.graph.block b).kind
  exits := (s.gotos.filter (·.1 = b)).map (fun _ => EdgeKind.goto) ++ s.graph.exitKinds b
  cases := s.graph.caseKinds b

/-- The blocks under construction. -/
def board (s : BodyBuilder) : Board := ⟨s.graph.blocks.size, s.look⟩

/-- Labels stand at blocks that may be entered, and jumps to them leave blocks that may be left. -/
structure Sound (s : BodyBuilder) : Prop where
  graph : s.graph.Sound
  labels : ∀ l ∈ s.labels, s.graph.Fits l.2
  gotos : ∀ j ∈ s.gotos, 2 ≤ j.1 ∧ j.1 < s.graph.blocks.size

/-- The builder is sound, comes from another one and shows a board. -/
structure Stage (s₀ : BodyBuilder) (K : Board) (s : BodyBuilder) : Prop where
  sound : s.Sound
  later : s₀.graph.Later s.graph
  board : s.board = K

variable {s s₀ s₁ s₂ : BodyBuilder} {K : Board} {b : BlockId} {e : Edge}

theorem Sound.stage (h : s.Sound) : Stage s s.board s := ⟨h, .refl _, rfl⟩

namespace Stage

theorem size (h : Stage s₀ K s) : s.graph.blocks.size = K.size := congrArg Board.size h.board

theorem look_eq (h : Stage s₀ K s) (b : BlockId) : s.look b = K.look b :=
  congrFun (congrArg Board.look h.board) b

theorem fits_iff (h : Stage s₀ K s) : K.Fits b ↔ s.graph.Fits b := by
  have hkind : (K.look b).kind = (s.graph.block b).kind := by
    rw [← h.look_eq]
    rfl
  constructor
  · exact fun hb => ⟨hb.ne_entry, h.size ▸ hb.held, hkind ▸ hb.alive⟩
  · exact fun hb => ⟨hb.ne_entry, h.size ▸ hb.held, hkind.symm ▸ hb.alive⟩

theorem two_le (h : Stage s₀ K s) : 2 ≤ K.size := h.size ▸ h.sound.graph.size

theorem fits_exit (h : Stage s₀ K s) : K.Fits 1 := h.fits_iff.2 h.sound.graph.exitFits

/-- A stage with another graph, in which labels and jumps are as they were. -/
theorem on_graph (h : Stage s₀ K s) {g : FlowGraph} (hg : g.Sound) (hlater : s.graph.Later g)
    {K' : Board} (hboard : BodyBuilder.board { s with graph := g } = K') :
    Stage s₀ K' { s with graph := g } where
  sound := by
    refine ⟨hg, fun l hl => (h.sound.labels l hl).later hlater, fun j hj => ?_⟩
    obtain ⟨hinner, hheld⟩ := h.sound.gotos j hj
    exact ⟨hinner, Nat.lt_of_lt_of_le hheld hlater.size⟩
  later := h.later.trans hlater
  board := hboard

theorem newBlock (h : Stage s₀ K s) (kind : BlockKind) (ts : List TokenId) :
    Stage s₀ (K.add kind ts) { s with graph := (s.graph.newBlock kind ts).2 } := by
  refine h.on_graph (h.sound.graph.newBlock kind ts) (FlowGraph.later_newBlock _ kind ts) ?_
  rw [← h.board]
  refine Board.ext (Array.size_push _) (funext fun b => ?_)
  show BodyBuilder.look { s with graph := (s.graph.newBlock kind ts).2 } b =
    if b = s.graph.blocks.size then { tokens := ts, kind } else s.look b
  have hblock := s.graph.block_newBlock kind ts b
  split_ifs with hb
  · have hgotos : s.gotos.filter (·.1 = b) = [] := by
      refine List.filter_eq_nil_iff.2 fun j hj heq => ?_
      have hheld := (h.sound.gotos j hj).2
      rw [of_decide_eq_true heq, hb] at hheld
      exact Nat.lt_irrefl _ hheld
    rw [if_pos hb] at hblock
    simp [BodyBuilder.look, FlowGraph.exitKinds, FlowGraph.caseKinds, FlowGraph.succEdges, hblock,
      hgotos]
  · rw [if_neg hb] at hblock
    simp only [BodyBuilder.look, FlowGraph.exitKinds, FlowGraph.caseKinds, FlowGraph.succEdges, hblock]
    rfl

theorem addEdge (h : Stage s₀ K s) (he : s.graph.Legal e) :
    Stage s₀ (K.leave e.src e.kind) { s with graph := (s.graph.addEdge e).2 } := by
  refine h.on_graph (h.sound.graph.addEdge he) (FlowGraph.later_addEdge _ e) ?_
  rw [← h.board]
  refine Board.ext (s.graph.size_addEdge e).1 (funext fun b => ?_)
  show BodyBuilder.look { s with graph := (s.graph.addEdge e).2 } b =
    if b = e.src then (s.look b).leave e.kind else s.look b
  have hblock := s.graph.block_addEdge e b
  have hsuccs := h.sound.graph.succEdges_addEdge he.held b
  split_ifs with hb
  · rw [if_pos hb] at hsuccs
    simp only [BodyBuilder.look, FlowGraph.exitKinds, FlowGraph.caseKinds, hblock, hsuccs,
      Look.leave, List.map_append, List.filter_append, List.map_cons, List.map_nil]
    cases e.kind
    all_goals simp [EdgeKind.isCase]
  · rw [if_neg hb] at hsuccs
    simp only [BodyBuilder.look, FlowGraph.exitKinds, FlowGraph.caseKinds, hblock, hsuccs]

theorem modifyBlock (h : Stage s₀ K s) (b : BlockId) (hb : b < K.size) {f : Block → Block}
    {f' : Look → Look}
    (hf : ∀ n, (f n).id = n.id ∧ (f n).succs = n.succs ∧ (f n).preds = n.preds)
    (hkind : ∀ n, (f n).kind = n.kind ∨ (f n).kind = .returning)
    (hlook : ∀ n exits cases, f' { tokens := n.tokens, kind := n.kind, exits, cases } =
      { tokens := (f n).tokens, kind := (f n).kind, exits, cases }) :
    Stage s₀ (K.change b f') { s with graph := s.graph.modifyBlock b f } := by
  refine h.on_graph (h.sound.graph.modifyBlock b hf hkind) (FlowGraph.later_modifyBlock _ b hkind) ?_
  have hheld : b < s.graph.blocks.size := h.size ▸ hb
  rw [← h.board]
  refine Board.ext Array.size_modify (funext fun c => ?_)
  show BodyBuilder.look { s with graph := s.graph.modifyBlock b f } c =
    if c = b then f' (s.look c) else s.look c
  have hblock := s.graph.block_modifyBlock b c f
  split_ifs with hc
  · subst hc
    rw [if_pos ⟨rfl, hheld⟩] at hblock
    simp only [BodyBuilder.look, FlowGraph.exitKinds, FlowGraph.caseKinds, FlowGraph.succEdges,
      hblock, hlook, (hf _).2.1]
    rfl
  · rw [if_neg fun hn => hc hn.1] at hblock
    simp only [BodyBuilder.look, FlowGraph.exitKinds, FlowGraph.caseKinds, FlowGraph.succEdges,
      hblock]
    rfl

/-- A block is left by a jump whose label is to be found later. -/
theorem addGoto (h : Stage s₀ K s) (hinner : 2 ≤ b) (hb : b < K.size)
    (hexits : (K.look b).exits = []) (label : String) :
    Stage s₀ (K.leave b .goto) { s with gotos := s.gotos ++ [(b, label)] } := by
  have hheld : b < s.graph.blocks.size := h.size ▸ hb
  refine ⟨⟨h.sound.graph, h.sound.labels, fun j hj => ?_⟩, h.later, ?_⟩
  · rcases List.mem_append.1 hj with hj | hj
    · exact h.sound.gotos j hj
    · rw [List.mem_singleton.1 hj]
      exact ⟨hinner, hheld⟩
  · rw [← h.board]
    refine Board.ext rfl (funext fun c => ?_)
    show BodyBuilder.look { s with gotos := s.gotos ++ [(b, label)] } c =
      if c = b then (s.look c).leave .goto else s.look c
    split_ifs with hc
    · subst hc
      rw [← h.look_eq] at hexits
      obtain ⟨hgotos, hkinds⟩ := List.append_eq_nil_iff.1 hexits
      simp only [BodyBuilder.look, Look.leave, EdgeKind.isCase, List.filter_append, List.map_append,
        hgotos, hkinds]
      simp
    · simp [BodyBuilder.look, List.filter_append, Ne.symm hc]

/-- A block is found by a label. -/
theorem addLabel (h : Stage s₀ K s) (hb : K.Fits b) (label : String) :
    Stage s₀ K { s with labels := (label, b) :: s.labels } := by
  refine ⟨⟨h.sound.graph, fun l hl => ?_, h.sound.gotos⟩, h.later, h.board⟩
  rcases List.mem_cons.1 hl with rfl | hl
  · exact h.fits_iff.1 hb
  · exact h.sound.labels l hl

end Stage

/-- A block that may be entered stays so. -/
theorem Sound.fits_later {s' : BodyBuilder} (hs : s.Sound) (hs' : s'.Sound)
    (hlater : s.graph.Later s'.graph) (hb : s.board.Fits b) : s'.board.Fits b :=
  hs'.stage.fits_iff.2 ((hs.stage.fits_iff.1 hb).later hlater)

end BodyBuilder

/-! ### Steps -/

namespace Build

open BodyBuilder

variable {s s₀ : BodyBuilder} {K : Board} {src dst b : BlockId} {kind : EdgeKind}

theorem gives_newBlock (h : Stage s₀ K s) (kind : BlockKind) (ts : List TokenId) :
    Gives (newBlock kind ts) s (fun b s' => b = K.size ∧ Stage s₀ (K.add kind ts) s') := by
  intro b s' hrun
  cases hrun
  exact ⟨h.size, h.newBlock kind ts⟩

theorem gives_edge (h : Stage s₀ K s) (hinner : 2 ≤ src) (hsrc : src < K.size) (hdst : K.Fits dst)
    (kind : EdgeKind) (label : Option String) (value : Option TokenId) :
    Gives (edge src dst kind label value) s (fun _ s' => Stage s₀ (K.leave src kind) s' ∧
      { src, dst, kind, label, value } ∈ s'.graph.succEdges src) := by
  intro _ s' hrun
  cases hrun
  have hheld : src < s.graph.blocks.size := h.size ▸ hsrc
  have hlegal : s.graph.Legal { src, dst, kind, label, value } :=
    ⟨.inl hinner, hheld, h.fits_iff.1 hdst⟩
  refine ⟨h.addEdge hlegal, ?_⟩
  rw [h.sound.graph.succEdges_addEdge hheld, if_pos rfl]
  exact List.mem_append_right _ (List.mem_singleton_self _)

theorem gives_append (h : Stage s₀ K s) (hb : b < K.size) (ts : List TokenId) :
    Gives (append b ts) s (fun _ s' => Stage s₀ (K.append b ts) s') := by
  intro _ s' hrun
  cases hrun
  exact h.modifyBlock b hb (fun _ => ⟨rfl, rfl, rfl⟩) (fun _ => .inl rfl) fun _ _ _ => rfl

theorem gives_returning (h : Stage s₀ K s) (hb : b < K.size) :
    Gives (modify fun s => { s with graph := s.graph.setKind b .returning }) s
      (fun _ s' => Stage s₀ (K.recast b .returning) s') := by
  refine gives_modify ?_
  exact h.modifyBlock b hb (fun _ => ⟨rfl, rfl, rfl⟩) (fun _ => .inr rfl) fun _ _ _ => rfl

/-- What stands in the parentheses after a keyword. -/
theorem gives_header (p : Program) (keyword : String) (paren : Option TokenId) :
    Gives (header p keyword paren) s (fun r s' => s' = s ∧ ∃ t close, paren = some t ∧
      p.text t = "(" ∧ (p.token t).link = some close ∧
      r = (p.between (p.nextOf t) (some close), p.nextOf close)) := by
  unfold header
  split
  · exact gives_throw
  · rename_i t
    split
    · exact gives_throw
    · rename_i close hclose
      split_ifs at hclose with htext
      exact gives_pure ⟨rfl, t, close, rfl, htext, hclose, rfl⟩

end Build

end DivisorCheck
