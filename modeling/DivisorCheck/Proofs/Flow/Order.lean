/-
  The visiting order of a graph without faults.

  `FlowGraph.check` promises that the edge lists of the blocks and of the graph
  agree: `Wired` says so in a form that proofs can use, and `wired_of_check` gets
  it from the check.

  The depth-first search lists every block that it visits (`Search.Grows`), since
  the depth that `visit` is given never runs out: each call along a path marks
  one more block that the graph holds, and a block that the graph does not hold
  leads nowhere.  So `reversePostorder` has every registered block, and each of
  them once.
-/
import DivisorCheck.Proofs.Flow.Reachable
import Mathlib.Data.List.Nodup

namespace DivisorCheck.FlowGraph

variable {g : FlowGraph}

/-! ### What the check promises -/

/-- The edges that blocks and graph list are the same ones, and run between registered blocks. -/
structure Wired (g : FlowGraph) : Prop where
  entry_mem : g.entry ∈ g.nodes
  nodup : g.nodes.Nodup
  /-- an edge that enters a block comes from a registered one, which lists it as leaving -/
  of_pred : ∀ b ∈ g.nodes, ∀ e ∈ g.predEdges b,
    e.dst = b ∧ e.src ∈ g.nodes ∧ e ∈ g.succEdges e.src
  /-- an edge that leaves a block goes to a registered one, which lists it as entering -/
  of_succ : ∀ b ∈ g.nodes, ∀ e ∈ g.succEdges b,
    e.src = b ∧ e.dst ∈ g.nodes ∧ e ∈ g.predEdges e.dst

/-- What a registered block leads to is registered. -/
theorem Wired.mem_nodes_of_succ (hg : g.Wired) {b c : BlockId} (hb : b ∈ g.nodes)
    (hc : c ∈ g.succBlocks b) : c ∈ g.nodes := by
  obtain ⟨e, he, rfl⟩ := List.mem_map.1 hc
  exact (hg.of_succ b hb e he).2.1

/-- The source of an edge into a registered block leads there. -/
theorem Wired.mem_succBlocks_src (hg : g.Wired) {b : BlockId} {e : Edge} (hb : b ∈ g.nodes)
    (he : e ∈ g.predEdges b) : b ∈ g.succBlocks e.src := by
  obtain ⟨rfl, -, hsucc⟩ := hg.of_pred b hb e he
  exact List.mem_map_of_mem hsucc

/-- What the check has found out about one registered edge. -/
theorem edge_of_edgeFault?_eq_none {i : EdgeId} (h : g.edgeFault? i = none) :
    (g.edge i).src ∈ g.nodes ∧ (g.edge i).dst ∈ g.nodes ∧
    i ∈ (g.block (g.edge i).src).succs ∧ i ∈ (g.block (g.edge i).dst).preds := by
  simp only [edgeFault?] at h
  split_ifs at h with hmem hwire
  rw [not_or, not_not, not_not] at hmem hwire
  exact ⟨hmem.1, hmem.2, hwire.1, hwire.2⟩

/-- What the check has found out about the edge lists of one registered block. -/
theorem lists_of_blockFault?_eq_none {b : BlockId} (h : g.blockFault? b = none) :
    (∀ i ∈ (g.block b).succs, i ∈ g.listed ∧ (g.edge i).src = b) ∧
    (∀ i ∈ (g.block b).preds, i ∈ g.listed ∧ (g.edge i).dst = b) := by
  simp only [blockFault?] at h
  split_ifs at h with hsuccs hpreds
  constructor
  · intro i hi
    simp only [List.any_eq_true, not_exists, not_and] at hsuccs
    simpa using hsuccs i hi
  · intro i hi
    simp only [List.any_eq_true, not_exists, not_and] at hpreds
    simpa using hpreds i hi

theorem fault?_of_check (h : g.check = .ok ()) : g.fault? = none := by
  unfold check at h
  split at h
  · cases h
  · assumption

/-- What the check has found out about the whole graph. -/
theorem faults_of_check (h : g.check = .ok ()) :
    g.entry ∈ g.nodes ∧ g.nodes.Nodup ∧ (∀ i ∈ g.listed, g.edgeFault? i = none) ∧
    ∀ b ∈ g.nodes, g.blockFault? b = none := by
  have hf := fault?_of_check h
  unfold fault? at hf
  split_ifs at hf with hentry hexit hnodup hids
  rw [Option.or_eq_none_iff, List.findSome?_eq_none_iff, List.findSome?_eq_none_iff] at hf
  exact ⟨hentry, hnodup, hf.1, hf.2⟩

/-- No two registered blocks have the same number. -/
theorem ids_nodup_of_check (h : g.check = .ok ()) :
    (g.nodes.map fun b => (g.block b).id).Nodup := by
  have hf := fault?_of_check h
  unfold fault? at hf
  split_ifs at hf with hentry hexit hnodup hids
  exact hids

/-- At most one registered block is not held by the graph, since those all have the number 0. -/
theorem length_nodes_le (h : g.check = .ok ()) : g.nodes.length ≤ g.blocks.size + 1 := by
  obtain ⟨-, hnodup, -, -⟩ := faults_of_check h
  have hids := ids_nodup_of_check h
  -- Each block is sent to its position, those that are not held to the first free one.
  have hinj : (g.nodes.map fun b => min b g.blocks.size).Nodup := by
    refine hnodup.map_on fun b hb c hc hbc => ?_
    by_cases hheld : b < g.blocks.size ∨ c < g.blocks.size
    · omega
    · rw [not_or] at hheld
      apply List.inj_on_of_nodup_map hids hb hc
      show (g.block b).id = (g.block c).id
      rw [block_of_not_held hheld.1, block_of_not_held hheld.2]
  have hsub : (g.nodes.map fun b => min b g.blocks.size) ⊆ List.range (g.blocks.size + 1) := by
    intro n hn
    obtain ⟨b, -, rfl⟩ := List.mem_map.1 hn
    exact List.mem_range.2 (by omega)
  have hlen := (List.subperm_of_subset hinj hsub).length_le
  rwa [List.length_map, List.length_range] at hlen

theorem wired_of_check (h : g.check = .ok ()) : g.Wired := by
  obtain ⟨hentry, hnodup, hedges, hblocks⟩ := faults_of_check h
  refine ⟨hentry, hnodup, ?_, ?_⟩
  · intro b hb e he
    obtain ⟨i, hi, rfl⟩ := List.mem_map.1 he
    obtain ⟨hlisted, hdst⟩ := (lists_of_blockFault?_eq_none (hblocks b hb)).2 i hi
    obtain ⟨hsrc, -, hsucc, -⟩ := edge_of_edgeFault?_eq_none (hedges i hlisted)
    exact ⟨hdst, hsrc, List.mem_map_of_mem hsucc⟩
  · intro b hb e he
    obtain ⟨i, hi, rfl⟩ := List.mem_map.1 he
    obtain ⟨hlisted, hsrc⟩ := (lists_of_blockFault?_eq_none (hblocks b hb)).1 i hi
    obtain ⟨-, hdst, -, hpred⟩ := edge_of_edgeFault?_eq_none (hedges i hlisted)
    exact ⟨hsrc, hdst, List.mem_map_of_mem hpred⟩

/-! ### The search -/

/-- Visits those of the blocks that are new, one after the other. -/
def scan (g : FlowGraph) (depth : Nat) (cs : List BlockId) (s : Search) : Search :=
  cs.foldl
    (fun s c => if c ∈ s.visited then s else g.visit depth c { s with visited := c :: s.visited }) s

theorem scan_cons (depth : Nat) (c : BlockId) (cs : List BlockId) (s : Search) :
    g.scan depth (c :: cs) s =
      g.scan depth cs (if c ∈ s.visited then s
        else g.visit depth c { s with visited := c :: s.visited }) :=
  rfl

/-- What visiting a new block keeps, visiting several keeps. -/
theorem scan_induction {P : Search → Prop} {depth : Nat} {cs : List BlockId} {s : Search}
    (hstart : P s)
    (hvisit : ∀ c ∈ cs, ∀ t, P t → c ∉ t.visited →
      P (g.visit depth c { t with visited := c :: t.visited })) :
    P (g.scan depth cs s) := by
  induction cs generalizing s with
  | nil => exact hstart
  | cons c cs ih =>
    rw [scan_cons]
    refine ih ?_ fun d hd => hvisit d (List.mem_cons_of_mem _ hd)
    split_ifs with hc
    · exact hstart
    · exact hvisit c (List.mem_cons_self ..) s hstart hc

/-- Listed blocks have been visited, and are listed once. -/
structure Search.Valid (s : Search) : Prop where
  subset : ∀ b ∈ s.finished, b ∈ s.visited
  nodup : s.finished.Nodup

/-- What a stretch of the search does that begins and ends between two calls of `visit`: it lists
exactly the blocks that it is the first to visit. -/
structure Search.Grows (s s' : Search) : Prop where
  visited : ∀ b ∈ s.visited, b ∈ s'.visited
  finished : ∀ b ∈ s.finished, b ∈ s'.finished
  lists : ∀ b ∈ s'.visited, b ∈ s.visited ∨ b ∈ s'.finished
  fresh : ∀ b ∈ s'.finished, b ∈ s.finished ∨ b ∉ s.visited
  valid : s.Valid → s'.Valid

namespace Search.Grows

theorem refl (s : Search) : s.Grows s :=
  ⟨fun _ h => h, fun _ h => h, fun _ h => .inl h, fun _ h => .inl h, fun h => h⟩

theorem trans {s t u : Search} (hst : s.Grows t) (htu : t.Grows u) : s.Grows u where
  visited b hb := htu.visited b (hst.visited b hb)
  finished b hb := htu.finished b (hst.finished b hb)
  lists b hb := by
    rcases htu.lists b hb with ht | hu
    · exact (hst.lists b ht).imp_right (htu.finished b)
    · exact .inr hu
  fresh b hb := by
    rcases htu.fresh b hb with ht | hu
    · exact hst.fresh b ht
    · exact .inr fun hs => hu (hst.visited b hs)
  valid hs := htu.valid (hst.valid hs)

/-- Marking a new block, searching on and listing it. -/
theorem close {s t : Search} {b : BlockId} (hb : b ∉ s.visited)
    (h : Search.Grows { s with visited := b :: s.visited } t) :
    s.Grows { t with finished := b :: t.finished } where
  visited c hc := h.visited c (List.mem_cons_of_mem _ hc)
  finished c hc := List.mem_cons_of_mem _ (h.finished c hc)
  lists c hc := by
    rcases h.lists c hc with hmark | ht
    · rcases List.mem_cons.1 hmark with rfl | hs
      · exact .inr (List.mem_cons_self ..)
      · exact .inl hs
    · exact .inr (List.mem_cons_of_mem _ ht)
  fresh c hc := by
    rcases List.mem_cons.1 hc with rfl | hc
    · exact .inr hb
    · exact (h.fresh c hc).imp_right fun hn hs => hn (List.mem_cons_of_mem _ hs)
  valid hs := by
    have ht := h.valid ⟨fun c hc => List.mem_cons_of_mem _ (hs.subset c hc), hs.nodup⟩
    refine ⟨?_, List.nodup_cons.2 ⟨fun hbt => ?_, ht.nodup⟩⟩
    · intro c hc
      rcases List.mem_cons.1 hc with rfl | hc
      · exact h.visited _ (List.mem_cons_self ..)
      · exact ht.subset c hc
    · -- The block cannot have been listed while it was still being worked on.
      rcases h.fresh b hbt with hfin | hnew
      · exact hb (hs.subset b hfin)
      · exact hnew (List.mem_cons_self ..)

end Search.Grows

/-- How many blocks that the graph holds have not been visited. -/
def unvisited (g : FlowGraph) (s : Search) : Nat :=
  ((List.range g.blocks.size).filter (· ∉ s.visited)).length

theorem unvisited_anti {s t : Search} (h : ∀ b ∈ s.visited, b ∈ t.visited) :
    g.unvisited t ≤ g.unvisited s := by
  refine (List.monotone_filter_right _ fun b hb => ?_).length_le
  rw [decide_eq_true_eq] at hb ⊢
  exact fun hs => hb (h b hs)

theorem unvisited_mark_lt {s : Search} {b : BlockId} (hheld : b < g.blocks.size)
    (hb : b ∉ s.visited) :
    g.unvisited { s with visited := b :: s.visited } < g.unvisited s := by
  have hmem : b ∈ (List.range g.blocks.size).filter (· ∉ s.visited) := by
    simp [List.mem_range.2 hheld, hb]
  have herase : ((List.range g.blocks.size).filter (· ∉ s.visited)).filter (· ≠ b)
      = (List.range g.blocks.size).filter (· ∉ b :: s.visited) := by
    rw [List.filter_filter]
    apply List.filter_congr
    intro c _
    by_cases hc : c = b <;> simp [hc]
  unfold unvisited
  rw [← herase]
  exact List.length_filter_lt_length_iff_exists.2 ⟨b, hmem, by simp⟩

/-- The depth that `visit` needs for a block: one more than there are blocks left to mark below it,
which are none if the block leads nowhere. -/
def Suffices (g : FlowGraph) (depth : Nat) (b : BlockId) (s : Search) : Prop :=
  g.unvisited s + 2 ≤ depth ∨ (1 ≤ depth ∧ g.succBlocks b = [])

/-- What is left of the depth that suffices for a block suffices for those that it leads to. -/
theorem suffices_of_succ {depth : Nat} {b c : BlockId} {s t : Search}
    (h : g.Suffices (depth + 1) b s) (hc : c ∈ g.succBlocks b) (ht : ∀ a ∈ s.visited, a ∈ t.visited)
    (hnew : c ∉ t.visited) : g.Suffices depth c { t with visited := c :: t.visited } := by
  have hless := g.unvisited_anti ht
  have hleft : g.unvisited t + 1 ≤ depth := by
    rcases h with h | ⟨-, h⟩
    · omega
    · rw [h] at hc
      cases hc
  by_cases hheld : c < g.blocks.size
  · have hmark := unvisited_mark_lt hheld hnew
    exact .inl (by omega)
  · exact .inr ⟨by omega, succBlocks_of_not_held hheld⟩

theorem scan_grows {depth : Nat} {b : BlockId} {s : Search} (hdepth : g.Suffices (depth + 1) b s) :
    s.Grows (g.scan depth (g.succBlocks b) s) := by
  induction depth generalizing b s with
  | zero =>
    apply scan_induction (.refl s)
    intro c hc t ht hnew
    rcases suffices_of_succ hdepth hc ht.visited hnew with h | h <;> omega
  | succ depth ih =>
    apply scan_induction (.refl s)
    intro c hc t ht hnew
    exact ht.trans (.close hnew (ih (suffices_of_succ hdepth hc ht.visited hnew)))

/-- **A call of `visit` lists what it visits.** -/
theorem visit_grows {depth : Nat} {b : BlockId} {s : Search} (hb : b ∉ s.visited)
    (hdepth : g.Suffices depth b { s with visited := b :: s.visited }) :
    s.Grows (g.visit depth b { s with visited := b :: s.visited }) := by
  cases depth with
  | zero => rcases hdepth with h | h <;> omega
  | succ depth => exact .close hb (scan_grows hdepth)

theorem suffices_start (g : FlowGraph) :
    g.Suffices (g.blocks.size + 1) g.entry ⟨[g.entry], []⟩ := by
  by_cases hheld : g.entry < g.blocks.size
  · have hlt : g.unvisited ⟨[g.entry], []⟩ < g.unvisited ⟨[], []⟩ :=
      unvisited_mark_lt (s := ⟨[], []⟩) hheld List.not_mem_nil
    have hall : g.unvisited ⟨[], []⟩ = g.blocks.size := by simp [unvisited]
    exact .inl (by omega)
  · exact .inr ⟨by omega, succBlocks_of_not_held hheld⟩

theorem search_grows : Search.Grows ⟨[], []⟩ g.search :=
  visit_grows List.not_mem_nil g.suffices_start

/-- A call of `visit` lists only blocks that control may reach from its own. -/
theorem visit_closed {P : BlockId → Prop} (hP : ∀ b, P b → ∀ c ∈ g.succBlocks b, P c)
    {depth : Nat} {b : BlockId} {s : Search} (hb : P b) (hs : ∀ c ∈ s.finished, P c) :
    ∀ c ∈ (g.visit depth b s).finished, P c := by
  induction depth generalizing b s with
  | zero => exact hs
  | succ depth ih =>
    apply List.forall_mem_cons.2 ⟨hb, ?_⟩
    apply scan_induction (P := fun t => ∀ c ∈ t.finished, P c) hs
    intro c hc t ht _
    exact ih (hP b hb c hc) ht

/-! ### The order -/

/-- Only registered blocks have a turn. -/
theorem mem_nodes_of_mem_reversePostorder (hg : g.Wired) {b : BlockId}
    (hb : b ∈ g.reversePostorder) : b ∈ g.nodes := by
  rcases List.mem_append.1 hb with hfin | hrest
  · exact visit_closed (fun b hb c hc => hg.mem_nodes_of_succ hb hc) hg.entry_mem
      (fun _ h => absurd h List.not_mem_nil) b hfin
  · exact (List.mem_filter.1 hrest).1

/-- **Every registered block has its turn.** -/
theorem mem_reversePostorder {b : BlockId} (hb : b ∈ g.nodes) : b ∈ g.reversePostorder := by
  unfold reversePostorder
  by_cases hv : b ∈ g.search.visited
  · have hfin := (search_grows.lists b hv).resolve_left (List.not_mem_nil)
    exact List.mem_append_left _ hfin
  · exact List.mem_append_right _ (List.mem_filter.2 ⟨hb, by simpa using hv⟩)

/-- **No block has two turns.** -/
theorem reversePostorder_nodup (h : g.nodes.Nodup) : g.reversePostorder.Nodup := by
  have hvalid : g.search.Valid := search_grows.valid ⟨by simp, by simp⟩
  refine List.nodup_append.2 ⟨hvalid.nodup, h.filter _, ?_⟩
  rintro a ha _ hb rfl
  exact (by simpa using (List.mem_filter.1 hb).2 : a ∉ g.search.visited) (hvalid.subset a ha)

/-- Reverse postorder has each registered block once. -/
theorem reversePostorder_perm (hg : g.Wired) : g.reversePostorder.Perm g.nodes :=
  (List.perm_ext_iff_of_nodup (reversePostorder_nodup hg.nodup) hg.nodup).2 fun _ =>
    ⟨mem_nodes_of_mem_reversePostorder hg, mem_reversePostorder⟩

end DivisorCheck.FlowGraph
