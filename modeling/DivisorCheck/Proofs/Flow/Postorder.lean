/-
  Which block has its turn first.

  Once a block is listed, everything that it leads to has been visited.  Most of
  that has been listed as well, earlier, so that it comes later in reverse
  postorder; the rest is still open, which means that the search went from there
  to the block.  The search keeps this up because a block is visited only from one
  that leads to it, so whatever is open connects to the block that is being visited
  (`visit_descends`).  An edge that goes against the order therefore closes a circle
  (`reversePostorder_visits`).
-/
import DivisorCheck.Proofs.Flow.Order

namespace DivisorCheck.FlowGraph

variable {g : FlowGraph} {b c : BlockId} {depth : Nat} {s : Search}

/-! ### Orders -/

/-- The first block has its turn before the second. -/
def Precedes (order : List BlockId) (b c : BlockId) : Prop :=
  ∃ done rest, order = done ++ b :: rest ∧ c ∈ rest

theorem Precedes.cons {order : List BlockId} (h : Precedes order b c) (a : BlockId) :
    Precedes (a :: order) b c := by
  obtain ⟨done, rest, rfl, hc⟩ := h
  exact ⟨a :: done, rest, rfl, hc⟩

theorem Precedes.append {order : List BlockId} (h : Precedes order b c) (more : List BlockId) :
    Precedes (order ++ more) b c := by
  obtain ⟨done, rest, rfl, hc⟩ := h
  exact ⟨done, rest ++ more, by simp, List.mem_append_left _ hc⟩

/-- Where no block has two turns, what comes after the one turn of a block is determined. -/
theorem Precedes.mem_rest {done rest : List BlockId} (h : Precedes (done ++ b :: rest) b c)
    (hnodup : (done ++ b :: rest).Nodup) : c ∈ rest := by
  obtain ⟨done', rest', heq, hc⟩ := h
  have honce : b ∉ done ++ rest := (List.nodup_cons.1 (List.nodup_middle.1 hnodup)).1
  rw [List.mem_append, not_or] at honce
  obtain ⟨-, -, rfl⟩ := (List.append_cons_inj_of_notMem honce.1 honce.2).1 heq
  exact hc

/-- Each block of the list leads only to blocks behind it, and to blocks that lead back to it. -/
def Descends (g : FlowGraph) : List BlockId → Prop
  | [] => True
  | b :: rest => (∀ c ∈ g.succBlocks b, c ∈ rest ∨ g.Connects c b) ∧ Descends g rest

theorem Descends.precedes_or_connects {order : List BlockId} (h : g.Descends order)
    (hb : b ∈ order) (hc : c ∈ g.succBlocks b) : Precedes order b c ∨ g.Connects c b := by
  induction order with
  | nil => cases hb
  | cons a rest ih =>
    rcases List.mem_cons.1 hb with rfl | hb
    · exact (h.1 c hc).imp_left fun hrest => ⟨[], rest, rfl, hrest⟩
    · exact (ih h.2 hb).imp_left fun hrest => hrest.cons a

/-! ### The search -/

/-- A block that has been visited and is still being worked on. -/
def Search.Open (s : Search) (b : BlockId) : Prop := b ∈ s.visited ∧ b ∉ s.finished

/-- Between two calls of `visit` the search opens no block that it does not list. -/
theorem Search.Grows.open_of_open {t : Search} (h : s.Grows t) (hb : t.Open b) : s.Open b := by
  obtain ⟨hvisited, hlisted⟩ := hb
  refine ⟨(h.lists b hvisited).resolve_right hlisted, fun hs => hlisted (h.finished b hs)⟩

theorem mem_visited_visit (hc : c ∈ s.visited) : c ∈ (g.visit depth b s).visited := by
  induction depth generalizing b s with
  | zero => exact hc
  | succ depth ih =>
    apply scan_induction (P := fun t => c ∈ t.visited) hc
    intro d _ t ht _
    exact ih (List.mem_cons_of_mem _ ht)

theorem mem_visited_scan {cs : List BlockId} (hc : c ∈ cs) : c ∈ (g.scan depth cs s).visited := by
  have hkept : ∀ (cs : List BlockId) (t : Search), c ∈ t.visited →
      c ∈ (g.scan depth cs t).visited := by
    intro cs t ht
    apply scan_induction (P := fun t => c ∈ t.visited) ht
    intro d _ t ht _
    exact mem_visited_visit (List.mem_cons_of_mem _ ht)
  induction cs generalizing s with
  | nil => cases hc
  | cons d cs ih =>
    rw [scan_cons]
    rcases List.mem_cons.1 hc with rfl | hc
    · apply hkept cs
      split_ifs with hvisited
      · exact hvisited
      · exact mem_visited_visit (List.mem_cons_self ..)
    · exact ih hc

/-- **What a call of `visit` lists descends**, if everything open connects to its block. -/
theorem visit_descends (hdepth : g.Suffices depth b s)
    (hopen : ∀ c, s.Open c → g.Connects c b) (hs : g.Descends s.finished) :
    g.Descends (g.visit depth b s).finished := by
  induction depth generalizing b s with
  | zero => exact hs
  | succ depth ih =>
    have hgrows := scan_grows hdepth
    refine ⟨fun c hc => ?_, ?_⟩
    · -- What the block leads to has been visited by now.
      by_cases hlisted : c ∈ (g.scan depth (g.succBlocks b) s).finished
      · exact .inl hlisted
      · exact .inr (hopen c (hgrows.open_of_open ⟨mem_visited_scan hc, hlisted⟩))
    · suffices h : s.Grows (g.scan depth (g.succBlocks b) s) ∧
          g.Descends (g.scan depth (g.succBlocks b) s).finished from h.2
      apply scan_induction (P := fun t => s.Grows t ∧ g.Descends t.finished) ⟨.refl s, hs⟩
      rintro c hc t ⟨ht, hdescends⟩ hnew
      have hleft := suffices_of_succ hdepth hc ht.visited hnew
      refine ⟨ht.trans (visit_grows hnew hleft), ih hleft (fun a ha => ?_) hdescends⟩
      -- What is open now is the new block, or was open before and connects to it through `b`.
      obtain ⟨hvisited, hlisted⟩ := ha
      rcases List.mem_cons.1 hvisited with rfl | hvisited
      · exact .refl
      · exact (hopen a (ht.open_of_open ⟨hvisited, hlisted⟩)).tail hc

theorem search_descends (g : FlowGraph) : g.Descends g.search.finished := by
  refine visit_descends g.suffices_start (fun c hc => ?_) trivial
  obtain rfl := List.mem_singleton.1 hc.1
  exact .refl

/-- Whatever a listed block leads to has been visited. -/
theorem visit_explores (hs : ∀ a ∈ s.finished, ∀ c ∈ g.succBlocks a, c ∈ s.visited) :
    ∀ a ∈ (g.visit depth b s).finished, ∀ c ∈ g.succBlocks a, c ∈ (g.visit depth b s).visited := by
  induction depth generalizing b s with
  | zero => exact hs
  | succ depth ih =>
    have hscan : ∀ a ∈ (g.scan depth (g.succBlocks b) s).finished,
        ∀ c ∈ g.succBlocks a, c ∈ (g.scan depth (g.succBlocks b) s).visited := by
      apply scan_induction
        (P := fun t => ∀ a ∈ t.finished, ∀ c ∈ g.succBlocks a, c ∈ t.visited) hs
      intro c _ t ht _
      exact ih fun a ha d hd => List.mem_cons_of_mem _ (ht a ha d hd)
    intro a ha
    rcases List.mem_cons.1 ha with rfl | ha
    · exact fun c hc => mem_visited_scan hc
    · exact hscan a ha

/-- The search lists what control may reach from the entry. -/
theorem mem_finished_search_iff : b ∈ g.search.finished ↔ g.Connects g.entry b := by
  constructor
  · refine visit_closed (P := g.Connects g.entry) (fun a ha c hc => ha.tail hc) .refl ?_ b
    exact fun c hc => absurd hc List.not_mem_nil
  · intro hway
    induction hway with
    | refl => exact List.mem_cons_self ..
    | @tail b c _ hc ih =>
      have hvisited : c ∈ g.search.visited :=
        visit_explores (fun a ha => absurd ha List.not_mem_nil) b ih c hc
      exact (search_grows.lists c hvisited).resolve_left List.not_mem_nil

/-! ### The order -/

/-- What control may reach from the entry comes first. -/
theorem reversePostorder_eq (g : FlowGraph) :
    g.reversePostorder = g.search.finished ++ g.nodes.filter (· ∉ g.reachable g.entry) := by
  have hvisited : ∀ b, b ∈ g.search.visited ↔ b ∈ g.reachable g.entry := by
    intro b
    rw [mem_reachable_iff, ← mem_finished_search_iff]
    constructor
    · exact fun hb => (search_grows.lists b hb).resolve_left List.not_mem_nil
    · exact (search_grows.valid ⟨by simp, by simp⟩).subset b
  simp only [reversePostorder, hvisited]

/-- Along an edge that control may get to, the source has its turn before the target, unless the
edge closes a circle. -/
theorem precedes_or_connects (hb : g.Connects g.entry b) (hc : c ∈ g.succBlocks b) :
    Precedes g.reversePostorder b c ∨ g.Connects c b :=
  (g.search_descends.precedes_or_connects (mem_finished_search_iff.2 hb) hc).imp_left
    fun h => h.append _

/-- Control never comes back to a block that it may get to. -/
def LoopFree (g : FlowGraph) : Prop :=
  ∀ b, g.Connects g.entry b → ¬ Relation.TransGen (fun b c => c ∈ g.succBlocks b) b b

/-- Without loops, reverse postorder is a topological order. -/
theorem LoopFree.precedes (h : g.LoopFree) (hb : g.Connects g.entry b) (hc : c ∈ g.succBlocks b) :
    Precedes g.reversePostorder b c :=
  (precedes_or_connects hb hc).resolve_right fun hback => h b hb (.head' hc hback)

/-- Where a rank rises along every edge that control may get to, there are no loops. -/
theorem loopFree_of_rank (rank : BlockId → Nat)
    (h : ∀ b, g.Connects g.entry b → ∀ c ∈ g.succBlocks b, rank b < rank c) : g.LoopFree := by
  intro b hb hloop
  have hrises : ∀ c, Relation.TransGen (fun b c => c ∈ g.succBlocks b) b c → rank b < rank c := by
    intro c hway
    induction hway with
    | single hc => exact h b hb _ hc
    | @tail c d hway hd ih => exact ih.trans (h c (hb.trans hway.to_reflTransGen) d hd)
  exact (hrises b hloop).false

/-- A registered edge of a graph without faults leads from its source to its target. -/
theorem dst_mem_succBlocks (h : g.check = .ok ()) {e : Edge} (he : e ∈ g.listedEdges) :
    e.dst ∈ g.succBlocks e.src := by
  obtain ⟨-, -, hedges, -⟩ := faults_of_check h
  obtain ⟨i, hi, rfl⟩ := List.mem_map.1 he
  obtain ⟨-, -, hsucc, -⟩ := edge_of_edgeFault?_eq_none (hedges i hi)
  exact List.mem_map_of_mem (List.mem_map_of_mem hsucc)

/-- **Reverse postorder is an order to visit blocks in.**  Every registered block has one turn, and
the entry has the first.  The blocks that control may reach from the entry, which are those that
`reachable` finds, come before the others, which follow in the order of their registration.  Along
an edge that control may get to, the source has its turn before the target, unless the edge closes a
circle. -/
theorem reversePostorder_visits (h : g.check = .ok ()) :
    g.reversePostorder.Perm g.nodes ∧ g.nodes.Nodup ∧
    g.reversePostorder.head? = some g.entry ∧
    (∀ b c, c ∈ g.reachable b ↔ g.Connects b c) ∧
    (∃ first, g.reversePostorder = first ++ g.nodes.filter (· ∉ g.reachable g.entry) ∧
      ∀ b, b ∈ first ↔ b ∈ g.reachable g.entry) ∧
    ∀ e ∈ g.listedEdges, g.Connects g.entry e.src →
      Precedes g.reversePostorder e.src e.dst ∨ g.Connects e.dst e.src := by
  have hg : g.Wired := wired_of_check h
  refine ⟨reversePostorder_perm hg, hg.nodup, rfl, fun b c => mem_reachable_iff, ?_, ?_⟩
  · refine ⟨g.search.finished, g.reversePostorder_eq, fun b => ?_⟩
    rw [mem_reachable_iff, mem_finished_search_iff]
  · intro e he hway
    exact precedes_or_connects hway (dst_mem_succBlocks h he)

end DivisorCheck.FlowGraph

namespace DivisorCheck

/-! ### A loop whose body ends early -/

/-- The graph of `{ do { continue; x; } while (c); }`: entry, exit, the block before the loop, the
body up to `continue`, the condition, the block behind the loop and the dead rest of the body. -/
def cutLoopGraph : FlowGraph where
  blocks := #[
    { id := 0, kind := .entry, succs := [0] },
    { id := 1, kind := .exit, preds := [6] },
    { id := 2, succs := [1], preds := [0] },
    { id := 3, kind := .loopBody, tokens := [3, 4], succs := [2], preds := [1, 4] },
    { id := 4, kind := .loopCondition, tokens := [10], succs := [4, 5], preds := [2, 3] },
    { id := 5, kind := .loopAfter, succs := [6], preds := [5] },
    { id := 6, kind := .unreachable, tokens := [5, 6], succs := [3] }]
  edges := #[
    { src := 0, dst := 2 },
    { src := 2, dst := 3 },
    { src := 3, dst := 4, kind := .continueLoop },
    { src := 6, dst := 4 },
    { src := 4, dst := 3, kind := .branchTrue },
    { src := 4, dst := 5, kind := .branchFalse },
    { src := 5, dst := 1 }]
  nodes := [0, 1, 2, 3, 4, 5, 6]
  listed := [0, 1, 2, 3, 4, 5, 6]

/-- The edge from the condition back to the body closes a circle; the dead block comes last. -/
theorem reversePostorder_visits_cutLoop :
    cutLoopGraph.check = .ok () ∧
    cutLoopGraph.reversePostorder = [0, 2, 3, 4, 5, 1, 6] ∧
    cutLoopGraph.Connects 3 4 ∧
    ∃ first, cutLoopGraph.reversePostorder = first ++ [6] ∧
      ∀ b, b ∈ first ↔ b ∈ cutLoopGraph.reachable 0 := by
  have hcheck : cutLoopGraph.check = .ok () := by decide +kernel
  have horder : cutLoopGraph.reversePostorder = [0, 2, 3, 4, 5, 1, 6] := by decide +kernel
  obtain ⟨-, -, -, hreach, ⟨first, hfirst, hmem⟩, hedges⟩ :=
    FlowGraph.reversePostorder_visits hcheck
  have hway : cutLoopGraph.Connects 0 4 := (hreach 0 4).1 (by decide +kernel)
  refine ⟨hcheck, horder, ?_, first, hfirst, hmem⟩
  apply (hedges { src := 4, dst := 3, kind := .branchTrue } (by decide) hway).resolve_left
  -- The body has had its turn before the condition.
  intro hlater
  rw [horder] at hlater
  have hrest : FlowGraph.Precedes ([0, 2, 3] ++ 4 :: [5, 1, 6]) 4 3 := hlater
  exact absurd (hrest.mem_rest (by decide)) (by decide)

end DivisorCheck
