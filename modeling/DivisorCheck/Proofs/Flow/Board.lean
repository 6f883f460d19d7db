/-
  `Board` — a body under construction, as far as it matters what becomes of each
  block: its tokens, the part it plays, and the kinds of the edges that leave it.

  Exceptions are left aside, as they may be added to a block at any time, and a jump
  whose label is still to be found counts as an edge already.  The edges to the
  labels of a `switch` are kept apart from the others, since the labels inside a
  statement add them to the dispatch block of a `switch` around it.

  `FlowGraph.Sound` is what every step of building keeps of the graph itself: blocks
  and edges are registered where they are and wired on both sides, the entry is left
  but not entered, the exit is not left, and nothing enters a block of dead code.
  A graph that is sound passes its check.
-/
import DivisorCheck.Proofs.Flow.Sketch
import DivisorCheck.Proofs.Flow.Order

namespace DivisorCheck

/-! ### Blocks and boards -/

/-- The edges from a dispatch block to the labels of its `switch`. -/
def EdgeKind.isCase : EdgeKind → Bool
  | switchCase | switchDefault => true
  | _ => false

/-- What matters about a block. -/
structure Look where
  tokens : List TokenId
  kind : BlockKind
  /-- the kinds of the edges that leave it, other than exceptions and edges to labels -/
  exits : List EdgeKind := []
  /-- the kinds of the edges to labels of a `switch` -/
  cases : List EdgeKind := []

/-- With one more edge of a kind. -/
def Look.leave (l : Look) (kind : EdgeKind) : Look :=
  if kind = .exception then l
  else if kind.isCase then { l with cases := l.cases ++ [kind] }
  else { l with exits := l.exits ++ [kind] }

/-- The blocks under construction. -/
@[ext]
structure Board where
  size : Nat
  look : BlockId → Look

namespace Board

/-- With a new block. -/
def add (K : Board) (kind : BlockKind) (ts : List TokenId := []) : Board where
  size := K.size + 1
  look b := if b = K.size then { tokens := ts, kind } else K.look b

/-- With one block changed. -/
def change (K : Board) (b : BlockId) (f : Look → Look) : Board :=
  { K with look := fun c => if c = b then f (K.look c) else K.look c }

/-- With a new edge. -/
def leave (K : Board) (b : BlockId) (kind : EdgeKind) : Board := K.change b (·.leave kind)

/-- With more tokens in a block. -/
def append (K : Board) (b : BlockId) (ts : List TokenId) : Board :=
  K.change b (fun l => { l with tokens := l.tokens ++ ts })

/-- With another part for a block to play. -/
def recast (K : Board) (b : BlockId) (kind : BlockKind) : Board :=
  K.change b (fun l => { l with kind })

/-- An edge may enter the block: it is not the entry, and it is no dead code. -/
structure Fits (K : Board) (b : BlockId) : Prop where
  ne_entry : b ≠ 0
  held : b < K.size
  alive : (K.look b).kind ≠ .unreachable

variable (K : Board) (b c : BlockId)

@[simp] theorem add_look (kind : BlockKind) (ts : List TokenId) :
    (K.add kind ts).look b = if b = K.size then { tokens := ts, kind } else K.look b := rfl

@[simp] theorem change_look (f : Look → Look) :
    (K.change b f).look c = if c = b then f (K.look c) else K.look c := rfl

@[simp] theorem leave_look (kind : EdgeKind) :
    (K.leave b kind).look c = if c = b then (K.look c).leave kind else K.look c := rfl

end Board

/-! ### Sound graphs -/

namespace FlowGraph

/-- An edge may enter the block: it is not the entry, and it is no dead code. -/
structure Fits (g : FlowGraph) (b : BlockId) : Prop where
  ne_entry : b ≠ 0
  held : b < g.blocks.size
  alive : (g.block b).kind ≠ .unreachable

/-- The edge leaves a block that may be left, and enters one that may be entered.  The exit is never
left, and the entry along one edge only, which falls through. -/
structure Legal (g : FlowGraph) (e : Edge) : Prop where
  source : 2 ≤ e.src ∨ e.src = 0 ∧ e.kind = .fallThrough
  held : e.src < g.blocks.size
  target : g.Fits e.dst

/-- Blocks and edges are registered where they are and wired on both sides. -/
structure Sound (g : FlowGraph) : Prop where
  entry : g.entry = 0
  exit : g.exit = 1
  size : 2 ≤ g.blocks.size
  nodes : g.nodes = List.range g.blocks.size
  listed : g.listed = List.range g.edges.size
  ids : ∀ b < g.blocks.size, (g.block b).id = b
  nextId : g.nextId = g.blocks.size
  succs : ∀ b i, i ∈ (g.block b).succs ↔ i < g.edges.size ∧ (g.edge i).src = b
  preds : ∀ b i, i ∈ (g.block b).preds ↔ i < g.edges.size ∧ (g.edge i).dst = b
  legal : ∀ i < g.edges.size, g.Legal (g.edge i)
  exitFits : g.Fits 1

/-- Building goes on: blocks and edges stay, and a block keeps the part that it plays unless it turns
out to return. -/
structure Later (g g' : FlowGraph) : Prop where
  size : g.blocks.size ≤ g'.blocks.size
  edges : g.edges.size ≤ g'.edges.size
  edge : ∀ i < g.edges.size, g'.edge i = g.edge i
  kind : ∀ b < g.blocks.size,
    (g'.block b).kind = (g.block b).kind ∨ (g'.block b).kind = .returning

variable {g g' g'' : FlowGraph} {b : BlockId} {e : Edge}

theorem Later.refl (g : FlowGraph) : g.Later g :=
  ⟨Nat.le_refl _, Nat.le_refl _, fun _ _ => rfl, fun _ _ => .inl rfl⟩

theorem Later.trans (h : g.Later g') (h' : g'.Later g'') : g.Later g'' where
  size := Nat.le_trans h.size h'.size
  edges := Nat.le_trans h.edges h'.edges
  edge i hi := (h'.edge i (Nat.lt_of_lt_of_le hi h.edges)).trans (h.edge i hi)
  kind b hb := by
    rcases h'.kind b (Nat.lt_of_lt_of_le hb h.size) with hkind | hkind
    · rw [hkind]
      exact h.kind b hb
    · exact .inr hkind

theorem Fits.later (hb : g.Fits b) (h : g.Later g') : g'.Fits b where
  ne_entry := hb.ne_entry
  held := Nat.lt_of_lt_of_le hb.held h.size
  alive := by
    rcases h.kind b hb.held with hkind | hkind
    · rw [hkind]
      exact hb.alive
    · rw [hkind]
      exact nofun

theorem Legal.later (he : g.Legal e) (h : g.Later g') : g'.Legal e :=
  ⟨he.source, Nat.lt_of_lt_of_le he.held h.size, he.target.later h⟩

namespace Sound

theorem mem_succEdges (h : g.Sound) :
    e ∈ g.succEdges b ↔ ∃ i < g.edges.size, g.edge i = e ∧ e.src = b := by
  simp only [succEdges, List.mem_map, h.succs]
  constructor
  · rintro ⟨i, ⟨hi, hsrc⟩, rfl⟩
    exact ⟨i, hi, rfl, hsrc⟩
  · rintro ⟨i, hi, rfl, hsrc⟩
    exact ⟨i, ⟨hi, hsrc⟩, rfl⟩

theorem mem_predEdges (h : g.Sound) :
    e ∈ g.predEdges b ↔ ∃ i < g.edges.size, g.edge i = e ∧ e.dst = b := by
  simp only [predEdges, List.mem_map, h.preds]
  constructor
  · rintro ⟨i, ⟨hi, hdst⟩, rfl⟩
    exact ⟨i, hi, rfl, hdst⟩
  · rintro ⟨i, hi, rfl, hdst⟩
    exact ⟨i, ⟨hi, hdst⟩, rfl⟩

theorem legal_of_mem (h : g.Sound) (he : e ∈ g.succEdges b) : g.Legal e ∧ e.src = b := by
  obtain ⟨i, hi, rfl, hsrc⟩ := h.mem_succEdges.1 he
  exact ⟨h.legal i hi, hsrc⟩

/-- An edge stays where it is. -/
theorem mem_succEdges_later (h : g.Sound) (h' : g'.Sound) (hlater : g.Later g')
    (he : e ∈ g.succEdges b) : e ∈ g'.succEdges b := by
  obtain ⟨i, hi, rfl, hsrc⟩ := h.mem_succEdges.1 he
  exact h'.mem_succEdges.2 ⟨i, Nat.lt_of_lt_of_le hi hlater.edges, hlater.edge i hi, hsrc⟩

/-- Nothing enters the entry. -/
theorem predEdges_entry (h : g.Sound) : g.predEdges 0 = [] := by
  refine List.eq_nil_iff_forall_not_mem.2 fun e he => ?_
  obtain ⟨i, hi, rfl, hdst⟩ := h.mem_predEdges.1 he
  exact (h.legal i hi).target.ne_entry hdst

/-- Nothing enters dead code. -/
theorem predEdges_of_unreachable (h : g.Sound) (hb : (g.block b).kind = .unreachable) :
    g.predEdges b = [] := by
  refine List.eq_nil_iff_forall_not_mem.2 fun e he => ?_
  obtain ⟨i, hi, rfl, rfl⟩ := h.mem_predEdges.1 he
  exact (h.legal i hi).target.alive hb

/-- Nothing leaves the exit. -/
theorem succEdges_exit (h : g.Sound) : g.succEdges 1 = [] := by
  refine List.eq_nil_iff_forall_not_mem.2 fun e he => ?_
  obtain ⟨hlegal, hsrc⟩ := h.legal_of_mem he
  rcases hlegal.source with hsource | ⟨hsource, -⟩
  · rw [hsrc] at hsource
    exact absurd hsource (by decide)
  · rw [hsrc] at hsource
    exact absurd hsource (by decide)

theorem edgeFault? (h : g.Sound) {i : EdgeId} (hi : i < g.edges.size) : g.edgeFault? i = none := by
  have hlegal := h.legal i hi
  have hmem : (g.edge i).src ∈ g.nodes ∧ (g.edge i).dst ∈ g.nodes := by
    rw [h.nodes, List.mem_range, List.mem_range]
    exact ⟨hlegal.held, hlegal.target.held⟩
  have hwired : i ∈ (g.block (g.edge i).src).succs ∧ i ∈ (g.block (g.edge i).dst).preds :=
    ⟨(h.succs _ i).2 ⟨hi, rfl⟩, (h.preds _ i).2 ⟨hi, rfl⟩⟩
  unfold FlowGraph.edgeFault?
  simp [hmem, hwired]

theorem blockFault? (h : g.Sound) (b : BlockId) : g.blockFault? b = none := by
  have hsuccs : ∀ i ∈ (g.block b).succs, i < g.edges.size ∧ (g.edge i).src = b :=
    fun i hi => (h.succs b i).1 hi
  have hpreds : ∀ i ∈ (g.block b).preds, i < g.edges.size ∧ (g.edge i).dst = b :=
    fun i hi => (h.preds b i).1 hi
  unfold FlowGraph.blockFault?
  rw [if_neg, if_neg]
  · simpa [h.listed] using hpreds
  · simpa [h.listed] using hsuccs

/-- **A sound graph passes its check.** -/
theorem check (h : g.Sound) : g.check = .ok () := by
  have hids : g.nodes.map (fun b => (g.block b).id) = g.nodes.map Int.ofNat := by
    refine List.map_congr_left fun b hb => h.ids b ?_
    rwa [h.nodes, List.mem_range] at hb
  have hfault : g.fault? = none := by
    have hentry : g.entry ∈ g.nodes := by
      rw [h.entry, h.nodes, List.mem_range]
      exact Nat.lt_of_lt_of_le Nat.zero_lt_two h.size
    have hexit : g.exit ∈ g.nodes := by
      rw [h.exit, h.nodes, List.mem_range]
      exact h.size
    have hnodup : g.nodes.Nodup := h.nodes ▸ List.nodup_range
    have hnumbers : (g.nodes.map (fun b => (g.block b).id)).Nodup := by
      rw [hids]
      exact hnodup.map fun _ _ => Int.ofNat.inj
    unfold fault?
    rw [if_neg (not_not.2 hentry), if_neg (not_not.2 hexit), if_neg (not_not.2 hnodup),
      if_neg (not_not.2 hnumbers), Option.or_eq_none_iff, List.findSome?_eq_none_iff,
      List.findSome?_eq_none_iff]
    refine ⟨fun i hi => h.edgeFault? ?_, fun b _ => h.blockFault? b⟩
    rwa [h.listed, List.mem_range] at hi
  unfold FlowGraph.check
  rw [hfault]

end Sound

end FlowGraph

end DivisorCheck
