/-
  `Sketch` — what matters about a graph that is being built: how many blocks there
  are, and the tokens and leaving edges of each.

  The steps of building act on sketches as plain changes of functions, and
  `Build.Draws` says that a step, started on any graph with a given sketch, ends
  well with a given answer and another sketch.  So what a reader does can be told
  from the sketch alone, one step after another.
-/
import DivisorCheck.Flow.Body
import Mathlib.Tactic.SplitIfs

namespace DivisorCheck

/-- The blocks of a graph with their tokens and the edges that leave them. -/
structure Sketch where
  size : Nat
  tokens : BlockId → List TokenId
  succs : BlockId → List Edge

namespace Sketch

/-- With a new block. -/
def add (k : Sketch) (ts : List TokenId) : Sketch where
  size := k.size + 1
  tokens b := if b = k.size then ts else k.tokens b
  succs b := if b = k.size then [] else k.succs b

/-- With a new edge. -/
def link (k : Sketch) (e : Edge) : Sketch :=
  { k with succs := fun b => if b = e.src then k.succs b ++ [e] else k.succs b }

/-- With a new edge from a block that may be missing. -/
def linkFrom (k : Sketch) (src : Option BlockId) (dst : BlockId)
    (kind : EdgeKind := .fallThrough) : Sketch :=
  { k with succs := fun b =>
      if src = some b then k.succs b ++ [{ src := b, dst, kind }] else k.succs b }

/-- With a new edge, under a condition. -/
def linkIf (k : Sketch) (c : Prop) [Decidable c] (e : Edge) : Sketch :=
  { k with succs := fun b => if c ∧ b = e.src then k.succs b ++ [e] else k.succs b }

/-- With more tokens in a block. -/
def append (k : Sketch) (b : BlockId) (ts : List TokenId) : Sketch :=
  { k with tokens := fun c => if c = b then k.tokens c ++ ts else k.tokens c }

section Views

variable (k : Sketch) (b c : BlockId) (ts : List TokenId) (e : Edge)

@[simp] theorem add_size : (k.add ts).size = k.size + 1 := rfl

@[simp] theorem add_tokens :
    (k.add ts).tokens b = if b = k.size then ts else k.tokens b := rfl

@[simp] theorem add_succs : (k.add ts).succs b = if b = k.size then [] else k.succs b := rfl

@[simp] theorem link_size : (k.link e).size = k.size := rfl

@[simp] theorem link_tokens : (k.link e).tokens b = k.tokens b := rfl

@[simp] theorem link_succs :
    (k.link e).succs b = if b = e.src then k.succs b ++ [e] else k.succs b := rfl

@[simp] theorem linkIf_size (q : Prop) [Decidable q] : (k.linkIf q e).size = k.size := rfl

@[simp] theorem linkIf_tokens (q : Prop) [Decidable q] :
    (k.linkIf q e).tokens b = k.tokens b := rfl

@[simp] theorem linkIf_succs (q : Prop) [Decidable q] :
    (k.linkIf q e).succs b = if q ∧ b = e.src then k.succs b ++ [e] else k.succs b := rfl

theorem linkIf_pos {q : Prop} [Decidable q] (h : q) : k.linkIf q e = k.link e := by
  unfold linkIf link
  simp only [h, true_and]

theorem linkIf_neg {q : Prop} [Decidable q] (h : ¬ q) : k.linkIf q e = k := by
  unfold linkIf
  simp only [h, false_and, if_false]

@[simp] theorem append_size : (k.append c ts).size = k.size := rfl

@[simp] theorem append_tokens :
    (k.append c ts).tokens b = if b = c then k.tokens b ++ ts else k.tokens b := rfl

@[simp] theorem append_succs : (k.append c ts).succs b = k.succs b := rfl

variable (src : Option BlockId) (dst : BlockId) (kind : EdgeKind)

@[simp] theorem linkFrom_size : (k.linkFrom src dst kind).size = k.size := rfl

@[simp] theorem linkFrom_tokens : (k.linkFrom src dst kind).tokens b = k.tokens b := rfl

@[simp] theorem linkFrom_succs :
    (k.linkFrom src dst kind).succs b =
      if src = some b then k.succs b ++ [{ src := b, dst, kind }] else k.succs b := rfl

theorem linkFrom_none : k.linkFrom none dst kind = k := rfl

theorem linkFrom_some (a : BlockId) :
    k.linkFrom (some a) dst kind = k.link { src := a, dst, kind } := by
  unfold linkFrom link
  congr 1
  funext b
  by_cases hab : b = a
  · subst hab
    simp
  · have hba : ¬ some a = some b := fun h => hab (Option.some.inj h).symm
    rw [if_neg hba, if_neg hab]

end Views

end Sketch

/-! ### Builders with a sketch -/

/-- The builder has a graph with the given sketch, the usual entry and exit, and no jumps that are
still to be resolved. -/
structure Sketch.Drawn (k : Sketch) (s : BodyBuilder) : Prop where
  size : s.graph.blocks.size = k.size
  tokens : ∀ b, (s.graph.block b).tokens = k.tokens b
  succs : ∀ b, s.graph.succEdges b = k.succs b
  /-- every edge that a block lists is there -/
  whole : ∀ b, ∀ i ∈ (s.graph.block b).succs, i < s.graph.edges.size
  entry : s.graph.entry = 0
  exit : s.graph.exit = 1
  gotos : s.gotos = []

namespace FlowGraph

variable (g : FlowGraph)

theorem block_hold (n : Block) (b : BlockId) :
    (g.hold n).2.block b = if b = g.blocks.size then n else g.block b := by
  simp only [hold, block, Array.getD_eq_getD_getElem?, Array.getElem?_push]
  split_ifs
  · rfl
  · rfl

theorem block_modifyBlock (c b : BlockId) (f : Block → Block) :
    (g.modifyBlock c f).block b =
      if b = c ∧ b < g.blocks.size then f (g.block b) else g.block b := by
  simp only [modifyBlock, block, Array.getD_eq_getD_getElem?, Array.getElem?_modify]
  by_cases hbc : c = b
  · subst hbc
    by_cases hheld : c < g.blocks.size
    · simp [hheld]
    · simp [hheld]
  · simp [hbc, Ne.symm hbc]

theorem edge_holdEdge (e : Edge) (i : EdgeId) :
    (g.holdEdge e).2.edge i = if i = g.edges.size then e else g.edge i := by
  simp only [holdEdge, edge, Array.getD_eq_getD_getElem?, Array.getElem?_push]
  split_ifs
  · rfl
  · rfl

theorem block_addEdge (e : Edge) (b : BlockId) :
    (g.addEdge e).2.block b = { g.block b with
      succs := if b = e.src ∧ b < g.blocks.size then (g.block b).succs ++ [g.edges.size]
        else (g.block b).succs
      preds := if b = e.dst ∧ b < g.blocks.size then (g.block b).preds ++ [g.edges.size]
        else (g.block b).preds } := by
  have hleft : ∀ b, (((g.holdEdge e).2.list g.edges.size).wireSucc e.src g.edges.size).block b =
      if b = e.src ∧ b < g.blocks.size then
        { g.block b with succs := (g.block b).succs ++ [g.edges.size] } else g.block b :=
    fun b => block_modifyBlock _ _ _ _
  have hsize : (((g.holdEdge e).2.list g.edges.size).wireSucc e.src g.edges.size).blocks.size =
      g.blocks.size := Array.size_modify
  have hedge : ∀ b, (g.addEdge e).2.block b =
      ((((g.holdEdge e).2.list g.edges.size).wireSucc e.src g.edges.size).wirePred e.dst
        g.edges.size).block b := fun _ => rfl
  rw [hedge, wirePred, block_modifyBlock, hsize, hleft]
  split_ifs
  all_goals rfl

theorem succs_addEdge (e : Edge) (b : BlockId) :
    ((g.addEdge e).2.block b).succs =
      if b = e.src ∧ b < g.blocks.size then (g.block b).succs ++ [g.edges.size]
      else (g.block b).succs := by
  rw [block_addEdge]

theorem preds_addEdge (e : Edge) (b : BlockId) :
    ((g.addEdge e).2.block b).preds =
      if b = e.dst ∧ b < g.blocks.size then (g.block b).preds ++ [g.edges.size]
      else (g.block b).preds := by
  rw [block_addEdge]

theorem edge_addEdge (e : Edge) (i : EdgeId) :
    (g.addEdge e).2.edge i = if i = g.edges.size then e else g.edge i :=
  g.edge_holdEdge e i

theorem size_addEdge (e : Edge) :
    (g.addEdge e).2.blocks.size = g.blocks.size ∧
    (g.addEdge e).2.edges.size = g.edges.size + 1 := by
  constructor
  · simp [addEdge, wirePred, wireSucc, modifyBlock, list, holdEdge]
  · simp [addEdge, wirePred, wireSucc, modifyBlock, list, holdEdge]

end FlowGraph

namespace Sketch.Drawn

variable {k : Sketch} {s : BodyBuilder}

theorem newBlock (h : k.Drawn s) (kind : BlockKind) (ts : List TokenId) :
    (k.add ts).Drawn { s with graph := (s.graph.newBlock kind ts).2 } := by
  have hblock : ∀ b, (s.graph.newBlock kind ts).2.block b =
      if b = s.graph.blocks.size then { id := s.graph.nextId, kind, tokens := ts }
      else s.graph.block b := fun b => s.graph.block_hold _ b
  refine ⟨?_, fun b => ?_, fun b => ?_, fun b => ?_, h.entry, h.exit, h.gotos⟩
  · rw [add_size, ← h.size]
    exact Array.size_push _
  · show ((s.graph.newBlock kind ts).2.block b).tokens = _
    rw [hblock, add_tokens, h.size, ← h.tokens]
    split_ifs
    · rfl
    · rfl
  · show ((s.graph.newBlock kind ts).2.block b).succs.map s.graph.edge = _
    rw [hblock, add_succs, h.size, ← h.succs]
    split_ifs
    · rfl
    · rfl
  · show ∀ i ∈ ((s.graph.newBlock kind ts).2.block b).succs, i < s.graph.edges.size
    rw [hblock]
    split_ifs
    · exact fun _ hi => absurd hi List.not_mem_nil
    · exact h.whole b

theorem addEdge (h : k.Drawn s) {e : Edge} (he : e.src < k.size) :
    (k.link e).Drawn { s with graph := (s.graph.addEdge e).2 } := by
  obtain ⟨hsize, hedges⟩ := s.graph.size_addEdge e
  refine ⟨?_, fun b => ?_, fun b => ?_, fun b => ?_, h.entry, h.exit, h.gotos⟩
  · rw [link_size, ← h.size]
    exact hsize
  · rw [link_tokens, ← h.tokens]
    rw [FlowGraph.block_addEdge]
  · show ((s.graph.addEdge e).2.block b).succs.map (s.graph.addEdge e).2.edge = _
    have hold : (s.graph.block b).succs.map (s.graph.addEdge e).2.edge = k.succs b := by
      rw [← h.succs]
      refine List.map_congr_left fun i hi => ?_
      rw [FlowGraph.edge_addEdge, if_neg (Nat.ne_of_lt (h.whole b i hi))]
    rw [FlowGraph.succs_addEdge, link_succs]
    by_cases hb : b = e.src
    · rw [if_pos hb, if_pos ⟨hb, by rw [hb, h.size]; exact he⟩, List.map_append, hold]
      simp [FlowGraph.edge_addEdge]
    · rw [if_neg hb, if_neg (fun hn => hb hn.1), hold]
  · show ∀ i ∈ ((s.graph.addEdge e).2.block b).succs, i < (s.graph.addEdge e).2.edges.size
    rw [FlowGraph.succs_addEdge, hedges]
    have hwhole := h.whole b
    intro i hi
    split_ifs at hi
    · rcases List.mem_append.1 hi with hi | hi
      · exact Nat.lt_succ_of_lt (hwhole i hi)
      · rw [List.mem_singleton.1 hi]
        exact Nat.lt_succ_self _
    · exact Nat.lt_succ_of_lt (hwhole i hi)

theorem modifyBlock (h : k.Drawn s) (b : BlockId) {f : Block → Block} {ts : List TokenId}
    (hf : ∀ n, (f n).tokens = n.tokens ++ ts ∧ (f n).succs = n.succs) (hb : b < k.size) :
    (k.append b ts).Drawn { s with graph := s.graph.modifyBlock b f } := by
  have hblock : ∀ c, ((s.graph.modifyBlock b f).block c).succs = (s.graph.block c).succs := by
    intro c
    rw [FlowGraph.block_modifyBlock]
    split_ifs
    · exact (hf _).2
    · rfl
  refine ⟨?_, fun c => ?_, fun c => ?_, fun c => ?_, h.entry, h.exit, h.gotos⟩
  · rw [append_size, ← h.size]
    exact Array.size_modify
  · show ((s.graph.modifyBlock b f).block c).tokens = _
    rw [FlowGraph.block_modifyBlock, append_tokens, ← h.tokens, h.size]
    by_cases hc : c = b
    · rw [if_pos hc, if_pos ⟨hc, hc ▸ hb⟩, (hf _).1]
    · rw [if_neg hc, if_neg (fun hn => hc hn.1)]
  · show ((s.graph.modifyBlock b f).block c).succs.map s.graph.edge = _
    rw [hblock, append_succs, ← h.succs]
    rfl
  · show ∀ i ∈ ((s.graph.modifyBlock b f).block c).succs, i < s.graph.edges.size
    rw [hblock]
    exact h.whole c

end Sketch.Drawn

/-! ### Steps of building -/

namespace Build

variable {α β : Type} {k k' k'' : Sketch} {a : α} {b : β} {m : Build α} {f : α → Build β}

/-- On any builder with the sketch `k`, the step gives `a` and leaves one with the sketch `k'`. -/
def Draws (m : Build α) (k : Sketch) (a : α) (k' : Sketch) : Prop :=
  ∀ s, k.Drawn s → ∃ s', m s = .ok (a, s') ∧ k'.Drawn s'

theorem Draws.bind (hm : Draws m k a k') (hf : Draws (f a) k' b k'') :
    Draws (m >>= f) k b k'' := by
  intro s hs
  obtain ⟨s₁, hrun, hs₁⟩ := hm s hs
  obtain ⟨s₂, hrest, hs₂⟩ := hf s₁ hs₁
  refine ⟨s₂, ?_, hs₂⟩
  show (m s >>= fun p => f p.1 p.2) = _
  rw [hrun]
  exact hrest

theorem draws_pure (k : Sketch) (a : α) : Draws (pure a) k a k :=
  fun s hs => ⟨s, rfl, hs⟩

/-- A step that looks at the graph may rely on its sketch. -/
theorem draws_get {f : BodyBuilder → Build β} (h : ∀ s, k.Drawn s → Draws (f s) k b k') :
    Draws (get >>= f) k b k' := by
  intro s hs
  exact h s hs s hs

theorem draws_newBlock (k : Sketch) (kind : BlockKind) (ts : List TokenId) :
    Draws (newBlock kind ts) k k.size (k.add ts) := by
  intro s hs
  refine ⟨{ s with graph := (s.graph.newBlock kind ts).2 }, ?_, hs.newBlock kind ts⟩
  rw [← hs.size]
  rfl

theorem draws_edge {src : BlockId} (hsrc : src < k.size) (dst : BlockId) (kind : EdgeKind)
    (label : Option String) (value : Option TokenId) :
    Draws (edge src dst kind label value) k () (k.link { src, dst, kind, label, value }) := by
  intro s hs
  exact ⟨_, rfl, hs.addEdge hsrc⟩

theorem draws_edgeIf {src dst : BlockId} {kind : EdgeKind} (hsrc : src < k.size) (q : Prop)
    [Decidable q] {rest : Unit → Build β}
    (hrest : Draws (rest ()) (k.linkIf q { src, dst, kind }) b k') :
    Draws (if q then edge src dst kind >>= rest else rest ()) k b k' := by
  by_cases hq : q
  · rw [Sketch.linkIf_pos _ _ hq] at hrest
    rw [if_pos hq]
    exact (draws_edge hsrc dst kind none none).bind hrest
  · rw [Sketch.linkIf_neg _ _ hq] at hrest
    rw [if_neg hq]
    exact hrest

theorem draws_edgeFrom {src : Option BlockId} (hsrc : ∀ b ∈ src, b < k.size) (dst : BlockId)
    (kind : EdgeKind) : Draws (edgeFrom src dst kind) k () (k.linkFrom src dst kind) := by
  cases src with
  | none => exact draws_pure k ()
  | some b =>
    rw [Sketch.linkFrom_some]
    exact draws_edge (hsrc b rfl) dst kind none none

theorem draws_append {b : BlockId} (hb : b < k.size) (ts : List TokenId) :
    Draws (append b ts) k () (k.append b ts) := by
  intro s hs
  exact ⟨_, rfl, hs.modifyBlock b (fun _ => ⟨rfl, rfl⟩) hb⟩

theorem draws_setKind {b : BlockId} (hb : b < k.size) (kind : BlockKind) :
    Draws (modify fun s => { s with graph := s.graph.setKind b kind }) k () k := by
  intro s hs
  refine ⟨_, rfl, ?_⟩
  have happend : (k.append b []).Drawn { s with graph := s.graph.setKind b kind } :=
    hs.modifyBlock b (fun n => ⟨(List.append_nil n.tokens).symm, rfl⟩) hb
  refine ⟨happend.size, fun c => ?_, happend.succs, happend.whole, hs.entry, hs.exit, hs.gotos⟩
  rw [happend.tokens, Sketch.append_tokens, List.append_nil, ite_self]

end Build

end DivisorCheck
