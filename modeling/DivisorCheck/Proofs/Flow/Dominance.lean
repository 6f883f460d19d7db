/-
  What the dominators are.

  The table of candidates only shrinks.  At every moment it holds all blocks that
  lie on every way to a block, and no entry holds less than what the entries of the
  predecessors have in common, together with the block itself (`Candidates`).  An
  entry that is recomputed gets exactly that.  So a pass that changes something
  takes a candidate away (`dominatorPass_spec`), the passes come to an end before
  they are cut off, and then every entry is what its predecessors have in common.
  From there a candidate is found on a way by walking back along it, to where the
  way begins.

  Where ways begin is the point.  A block that no edge enters has itself as its only
  dominator, so the table speaks of the ways from all such blocks, and not only of
  those from the entry (`dominators_on_every_way`).  Where dead code falls into
  live blocks the two differ (`dominators_lost`).
-/
import DivisorCheck.Flow.Dominator
import DivisorCheck.Proofs.Flow.Postorder
import Mathlib.Algebra.Order.BigOperators.Group.Finset

namespace DivisorCheck.FlowGraph

variable {g : FlowGraph} {a b c x : BlockId} {table table' : DominatorTable}

/-! ### Ways -/

/-- The blocks that control passes on a way, the last one first. -/
inductive Way (g : FlowGraph) (a : BlockId) : List BlockId → BlockId → Prop where
  | start : Way g a [a] a
  | step {w : List BlockId} {b c : BlockId} :
    Way g a w b → c ∈ g.succBlocks b → Way g a (c :: w) c

/-- The block lies on every way between two others. -/
def OnEveryWay (g : FlowGraph) (a b x : BlockId) : Prop := ∀ w, g.Way a w b → x ∈ w

/-- Ways begin at the entry and at the registered blocks that no edge enters. -/
def Begins (g : FlowGraph) (a : BlockId) : Prop := a = g.entry ∨ a ∈ g.nodes ∧ g.predBlocks a = []

theorem connects_iff_way : g.Connects a b ↔ ∃ w, g.Way a w b := by
  constructor
  · intro hway
    induction hway with
    | refl => exact ⟨[a], .start⟩
    | tail _ hc ih =>
      obtain ⟨w, hw⟩ := ih
      exact ⟨_, hw.step hc⟩
  · rintro ⟨w, hw⟩
    induction hw with
    | start => exact .refl
    | step _ hc ih => exact ih.tail hc

theorem Way.mem_nodes {w : List BlockId} (hg : g.Wired) (ha : a ∈ g.nodes) (hw : g.Way a w b) :
    b ∈ g.nodes ∧ ∀ x ∈ w, x ∈ g.nodes := by
  induction hw with
  | start => exact ⟨ha, by simpa using ha⟩
  | @step w b c _ hc ih =>
    have hnode := hg.mem_nodes_of_succ ih.1 hc
    exact ⟨hnode, List.forall_mem_cons.2 ⟨hnode, ih.2⟩⟩

theorem Begins.mem_nodes (hg : g.Wired) (ha : g.Begins a) : a ∈ g.nodes := by
  rcases ha with rfl | ⟨ha, -⟩
  · exact hg.entry_mem
  · exact ha

/-- The two sides of an edge between registered blocks list each other. -/
theorem mem_predBlocks_of_mem_succBlocks (hg : g.Wired) (hb : b ∈ g.nodes)
    (hc : c ∈ g.succBlocks b) : b ∈ g.predBlocks c := by
  obtain ⟨e, he, rfl⟩ := List.mem_map.1 hc
  obtain ⟨rfl, -, hpred⟩ := hg.of_succ b hb e he
  exact List.mem_map_of_mem hpred

theorem mem_succBlocks_of_mem_predBlocks (hg : g.Wired) (hc : c ∈ g.nodes)
    (hb : b ∈ g.predBlocks c) : b ∈ g.nodes ∧ c ∈ g.succBlocks b := by
  obtain ⟨e, he, rfl⟩ := List.mem_map.1 hb
  exact ⟨(hg.of_pred c hc e he).2.1, hg.mem_succBlocks_src hc he⟩

/-! ### Tables -/

/-- The candidates for the dominators of a block. -/
def dominatorsAt (table : DominatorTable) (b : BlockId) : List BlockId :=
  (dominatorsIn? b table).getD []

theorem dominatorsIn?_cons (a : BlockId) (d : List BlockId) (table : DominatorTable) :
    dominatorsIn? b ((a, d) :: table) = if a = b then some d else dominatorsIn? b table := by
  by_cases hab : a = b <;> simp [dominatorsIn?, hab]

/-- Replacing the entry of a block leaves all others as they are. -/
theorem dominatorsIn?_replace (table : DominatorTable) (b c : BlockId) (new : List BlockId) :
    dominatorsIn? c (table.map fun e => if e.1 = b then (b, new) else e) =
      if b = c then (dominatorsIn? c table).map fun _ => new else dominatorsIn? c table := by
  induction table with
  | nil => split_ifs <;> rfl
  | cons e table ih =>
    obtain ⟨a, d⟩ := e
    rw [List.map_cons]
    by_cases hab : a = b
    · subst hab
      rw [if_pos rfl, dominatorsIn?_cons, dominatorsIn?_cons, ih]
      by_cases hac : a = c <;> simp [hac]
    · rw [if_neg hab, dominatorsIn?_cons, dominatorsIn?_cons, ih]
      by_cases hac : a = c
      · simp [hac, Ne.symm (hac ▸ hab)]
      · simp [hac]

theorem sameBlocks_iff {d d' : List BlockId} :
    sameBlocks d d' = true ↔ ∀ x, x ∈ d ↔ x ∈ d' := by
  simp only [sameBlocks, Bool.and_eq_true, List.all_eq_true, decide_eq_true_eq]
  exact ⟨fun h x => ⟨h.1 x, h.2 x⟩, fun h => ⟨fun x => (h x).1, fun x => (h x).2⟩⟩

theorem mem_commonWith {ds : List (List BlockId)} :
    x ∈ commonWith b ds ↔ x = b ∨ ds ≠ [] ∧ ∀ d ∈ ds, x ∈ d := by
  cases ds with
  | nil => simp [commonWith]
  | cons d rest =>
    simp only [commonWith]
    split_ifs with hb
    · constructor
      · intro hx
        simp only [List.mem_filter, List.all_eq_true, decide_eq_true_eq] at hx
        exact .inr ⟨List.cons_ne_nil _ _, List.forall_mem_cons.2 hx⟩
      · rintro (rfl | ⟨-, hx⟩)
        · exact hb
        · simpa using hx
    · simp

/-- What the entries of its predecessors leave for the dominators of a block. -/
def Shared (g : FlowGraph) (table : DominatorTable) (b x : BlockId) : Prop :=
  x = b ∨ g.predBlocks b ≠ [] ∧ ∀ a ∈ g.predBlocks b, x ∈ dominatorsAt table a

/-- What holds of the table between any two steps. -/
structure Candidates (g : FlowGraph) (table : DominatorTable) : Prop where
  held : ∀ b ∈ g.nodes, dominatorsIn? b table = some (dominatorsAt table b)
  entry : ∀ x, x ∈ dominatorsAt table g.entry ↔ x = g.entry
  registered : ∀ b ∈ g.nodes, ∀ x ∈ dominatorsAt table b, x ∈ g.nodes
  /-- an entry may still shrink, but never grows again -/
  shared : ∀ b ∈ g.nodes, b ≠ g.entry → ∀ x, g.Shared table b x → x ∈ dominatorsAt table b
  /-- what lies on every way is never taken away -/
  covers : ∀ b ∈ g.nodes, ∀ x ∈ g.nodes, (∀ a, g.Begins a → g.OnEveryWay a b x) →
    x ∈ dominatorsAt table b

/-- The entry of a block is what those of its predecessors leave. -/
def SettledAt (g : FlowGraph) (table : DominatorTable) (b : BlockId) : Prop :=
  b ≠ g.entry → ∀ x ∈ dominatorsAt table b, g.Shared table b x

/-! ### The table to start from -/

theorem dominatorsIn?_map (bs d : List BlockId) (b : BlockId) :
    dominatorsIn? b (bs.map fun b => (b, d)) = if b ∈ bs then some d else none := by
  induction bs with
  | nil => rfl
  | cons a bs ih =>
    rw [List.map_cons, dominatorsIn?_cons, ih]
    by_cases hab : a = b
    · simp [hab]
    · simp [hab, Ne.symm hab]

theorem dominatorsIn?_start (hb : b ∈ g.nodes) :
    dominatorsIn? b g.startDominators =
      some (if b = g.entry then [g.entry] else g.nodes.eraseDups) := by
  rw [startDominators, dominatorsIn?_cons, dominatorsIn?_map]
  by_cases hentry : b = g.entry
  · rw [if_pos hentry.symm, if_pos hentry]
  · rw [if_neg (Ne.symm hentry), if_neg hentry, if_pos]
    simp [hb, hentry]

theorem mem_dominatorsAt_start (hb : b ∈ g.nodes) :
    x ∈ dominatorsAt g.startDominators b ↔ if b = g.entry then x = g.entry else x ∈ g.nodes := by
  rw [dominatorsAt, dominatorsIn?_start hb, Option.getD_some]
  split_ifs
  · exact List.mem_singleton
  · exact List.mem_eraseDups

theorem mem_nodes_of_start (hg : g.Wired) (hb : b ∈ g.nodes)
    (hx : x ∈ dominatorsAt g.startDominators b) : x ∈ g.nodes := by
  rw [mem_dominatorsAt_start hb] at hx
  split_ifs at hx
  · exact hx ▸ hg.entry_mem
  · exact hx

theorem candidates_start (hg : g.Wired) : g.Candidates g.startDominators where
  held b hb := by
    rw [dominatorsAt, dominatorsIn?_start hb]
    rfl
  entry x := by rw [mem_dominatorsAt_start hg.entry_mem, if_pos rfl]
  registered b hb x hx := mem_nodes_of_start hg hb hx
  shared b hb hentry x hx := by
    rw [mem_dominatorsAt_start hb, if_neg hentry]
    rcases hx with rfl | ⟨hpreds, hx⟩
    · exact hb
    · -- One predecessor is enough to see that the candidate is registered.
      obtain ⟨a, ha⟩ := List.exists_mem_of_ne_nil _ hpreds
      exact mem_nodes_of_start hg (mem_succBlocks_of_mem_predBlocks hg hb ha).1 (hx a ha)
  covers b hb x hx hways := by
    rw [mem_dominatorsAt_start hb]
    split_ifs with hentry
    · subst hentry
      exact List.mem_singleton.1 (hways g.entry (.inl rfl) _ .start)
    · exact hx

/-! ### One step -/

theorem dominatorsOf_eq {bs : List BlockId}
    (h : ∀ b ∈ bs, dominatorsIn? b table = some (dominatorsAt table b)) :
    dominatorsOf table bs = .ok (bs.map (dominatorsAt table)) := by
  induction bs with
  | nil => rfl
  | cons b bs ih =>
    obtain ⟨hb, hbs⟩ := List.forall_mem_cons.1 h
    rw [dominatorsOf, hb]
    simp only [ih hbs]
    rfl

/-- The entry of a block has been recomputed and has lost a candidate. -/
structure Shrunk (g : FlowGraph) (b : BlockId) (table table' : DominatorTable) : Prop where
  not_entry : b ≠ g.entry
  held : ∀ c ∈ g.nodes, dominatorsIn? c table' = some (dominatorsAt table' c)
  other : ∀ c, c ≠ b → dominatorsAt table' c = dominatorsAt table c
  mem_iff : ∀ x, x ∈ dominatorsAt table' b ↔ g.Shared table b x
  lost : ∃ x ∈ dominatorsAt table b, x ∉ dominatorsAt table' b

/-- An entry that is replaced by what its predecessors leave loses a candidate, unless it stays the
same. -/
theorem Candidates.shrunk (h : g.Candidates table) (hb : b ∈ g.nodes) (hentry : b ≠ g.entry)
    {new : List BlockId} (hnew : ∀ x, x ∈ new ↔ g.Shared table b x)
    (hdiffers : ¬ sameBlocks new (dominatorsAt table b) = true) :
    g.Shrunk b table (table.map fun e => if e.1 = b then (b, new) else e) := by
  have hin : ∀ c, dominatorsIn? c (table.map fun e => if e.1 = b then (b, new) else e) =
      if b = c then some new else dominatorsIn? c table := by
    intro c
    rw [dominatorsIn?_replace]
    split_ifs with hbc
    · rw [← hbc, h.held b hb]
      rfl
    · rfl
  have hat : ∀ c, dominatorsAt (table.map fun e => if e.1 = b then (b, new) else e) c =
      if b = c then new else dominatorsAt table c := by
    intro c
    rw [dominatorsAt, hin]
    split_ifs
    · rfl
    · rfl
  have hmem : ∀ x, x ∈ dominatorsAt (table.map fun e => if e.1 = b then (b, new) else e) b ↔
      g.Shared table b x := by
    intro x
    rw [hat, if_pos rfl, hnew]
  refine ⟨hentry, fun c hc => ?_, fun c hc => ?_, hmem, ?_⟩
  · rw [hin, hat]
    split_ifs
    · rfl
    · exact h.held c hc
  · rw [hat, if_neg hc.symm]
  · -- What the predecessors leave is in the entry already, so only the other inclusion can fail.
    rw [sameBlocks_iff] at hdiffers
    push Not at hdiffers
    obtain ⟨x, ⟨hx, hlost⟩ | ⟨hlost, hx⟩⟩ := hdiffers
    · exact absurd (h.shared b hb hentry x ((hnew x).1 hx)) hlost
    · exact ⟨x, hx, fun hmem' => hlost ((hnew x).2 ((hmem x).1 hmem'))⟩

/-- **What one step does**: nothing where an entry is settled, and elsewhere it takes candidates
away. -/
theorem dominatorStep_cases (hg : g.Wired) (h : g.Candidates table) (hb : b ∈ g.nodes)
    (changed : Bool) :
    g.dominatorStep (table, changed) b = .ok (table, changed) ∧ g.SettledAt table b ∨
    ∃ table', g.dominatorStep (table, changed) b = .ok (table', true) ∧
      g.Shrunk b table table' := by
  by_cases hentry : b = g.entry
  · refine .inl ⟨?_, fun hne => absurd hentry hne⟩
    rw [dominatorStep, if_pos hentry]
  · have hpreds : dominatorsOf table (g.predBlocks b) =
        .ok ((g.predBlocks b).map (dominatorsAt table)) :=
      dominatorsOf_eq fun a ha => h.held a (mem_succBlocks_of_mem_predBlocks hg hb ha).1
    have hnew : ∀ x, x ∈ commonWith b ((g.predBlocks b).map (dominatorsAt table)) ↔
        g.Shared table b x := by
      intro x
      rw [mem_commonWith, List.forall_mem_map]
      simp only [ne_eq, List.map_eq_nil_iff]
      rfl
    rw [dominatorStep, if_neg hentry]
    simp only [hpreds, h.held b hb]
    by_cases hsame : sameBlocks (commonWith b ((g.predBlocks b).map (dominatorsAt table)))
        (dominatorsAt table b) = true
    · rw [if_pos hsame]
      refine .inl ⟨rfl, fun _ x hx => ?_⟩
      rw [← hnew]
      exact (sameBlocks_iff.1 hsame x).2 hx
    · rw [if_neg hsame]
      exact .inr ⟨_, rfl, h.shrunk hb hentry hnew hsame⟩

theorem Shrunk.subset (hs : g.Shrunk b table table') (h : g.Candidates table) (hb : b ∈ g.nodes)
    (hx : x ∈ dominatorsAt table' c) : x ∈ dominatorsAt table c := by
  by_cases hcb : c = b
  · subst hcb
    exact h.shared c hb hs.not_entry x ((hs.mem_iff x).1 hx)
  · rwa [hs.other c hcb] at hx

theorem Shrunk.shared (hs : g.Shrunk b table table') (h : g.Candidates table) (hb : b ∈ g.nodes)
    (hx : g.Shared table' c x) : g.Shared table c x :=
  hx.imp_right fun ⟨hpreds, hall⟩ => ⟨hpreds, fun a ha => hs.subset h hb (hall a ha)⟩

/-- **A step keeps what holds of the table.** -/
theorem Candidates.step (h : g.Candidates table) (hg : g.Wired) (hb : b ∈ g.nodes)
    (hs : g.Shrunk b table table') : g.Candidates table' where
  held := hs.held
  entry x := by rw [hs.other g.entry hs.not_entry.symm, h.entry]
  registered c hc x hx := h.registered c hc x (hs.subset h hb hx)
  shared c hc hentry x hx := by
    have hbefore := hs.shared h hb hx
    by_cases hcb : c = b
    · subst hcb
      exact (hs.mem_iff x).2 hbefore
    · rw [hs.other c hcb]
      exact h.shared c hc hentry x hbefore
  covers c hc x hx hways := by
    by_cases hcb : c = b
    · subst hcb
      rw [hs.mem_iff]
      by_cases hxc : x = c
      · exact .inl hxc
      · -- A way to a predecessor goes on to the block, and does not pass `x` there.
        refine .inr ⟨fun hnone => hxc ?_, fun a ha => ?_⟩
        · exact List.mem_singleton.1 (hways c (.inr ⟨hc, hnone⟩) _ .start)
        · obtain ⟨hnode, hsucc⟩ := mem_succBlocks_of_mem_predBlocks hg hc ha
          refine h.covers a hnode x hx fun r hr w hw => ?_
          exact (List.mem_cons.1 (hways r hr _ (hw.step hsucc))).resolve_left hxc
    · rw [hs.other c hcb]
      exact h.covers c hc x hx hways

/-! ### Passes -/

/-- How many candidates there are in all. -/
def weight (g : FlowGraph) (table : DominatorTable) : Nat :=
  ∑ b ∈ g.nodes.toFinset, (dominatorsAt table b).toFinset.card

theorem Shrunk.weight_lt (hs : g.Shrunk b table table') (h : g.Candidates table)
    (hb : b ∈ g.nodes) : g.weight table' < g.weight table := by
  have hsub : ∀ c, (dominatorsAt table' c).toFinset ⊆ (dominatorsAt table c).toFinset := by
    intro c x hx
    rw [List.mem_toFinset] at hx ⊢
    exact hs.subset h hb hx
  refine Finset.sum_lt_sum (fun c _ => Finset.card_le_card (hsub c))
    ⟨b, List.mem_toFinset.2 hb, Finset.card_lt_card ⟨hsub b, fun hall => ?_⟩⟩
  obtain ⟨x, hx, hlost⟩ := hs.lost
  exact hlost (List.mem_toFinset.1 (hall (List.mem_toFinset.2 hx)))

/-- **What one pass does**: it takes candidates away, or finds every entry settled. -/
theorem dominatorPass_spec (hg : g.Wired) {order : List BlockId} (horder : ∀ b ∈ order, b ∈ g.nodes)
    (h : g.Candidates table) (changed : Bool) :
    ∃ table' changed', order.foldlM g.dominatorStep (table, changed) = .ok (table', changed') ∧
      g.Candidates table' ∧ g.weight table' ≤ g.weight table ∧
      (changed' = true → changed = true ∨ g.weight table' < g.weight table) ∧
      (changed' = false → changed = false ∧ table' = table ∧ ∀ b ∈ order, g.SettledAt table b) := by
  induction order generalizing table changed with
  | nil =>
    exact ⟨table, changed, rfl, h, le_refl _, .inl, fun hsame => ⟨hsame, rfl, by simp⟩⟩
  | cons b order ih =>
    obtain ⟨hb, horder⟩ := List.forall_mem_cons.1 horder
    rw [List.foldlM_cons]
    rcases dominatorStep_cases hg h hb changed with ⟨hstep, hsettled⟩ | ⟨next, hstep, hs⟩
    · rw [hstep]
      obtain ⟨table', changed', hpass, hcand, hle, hmore, hsame⟩ := ih horder h changed
      refine ⟨table', changed', hpass, hcand, hle, hmore, fun hnone => ?_⟩
      obtain ⟨hbefore, htable, hall⟩ := hsame hnone
      exact ⟨hbefore, htable, List.forall_mem_cons.2 ⟨hsettled, hall⟩⟩
    · rw [hstep]
      have hlt := hs.weight_lt h hb
      obtain ⟨table', changed', hpass, hcand, hle, -, hsame⟩ := ih horder (h.step hg hb hs) true
      refine ⟨table', changed', hpass, hcand, by omega, fun _ => .inr (by omega), fun hnone => ?_⟩
      exact absurd (hsame hnone).1 (by decide)

/-- **The passes come to an end.** -/
theorem dominatorPasses_settle (hg : g.Wired) {order : List BlockId}
    (horder : ∀ b ∈ order, b ∈ g.nodes) {fuel : Nat} (h : g.Candidates table)
    (hfuel : g.weight table < fuel) :
    ∃ table', g.dominatorPasses order fuel table = .ok table' ∧ g.Candidates table' ∧
      ∀ b ∈ order, g.SettledAt table' b := by
  induction fuel generalizing table with
  | zero => omega
  | succ fuel ih =>
    obtain ⟨next, changed, hpass, hcand, -, hmore, hsame⟩ := dominatorPass_spec hg horder h false
    rw [dominatorPasses, hpass]
    cases changed with
    | true =>
      have hlt := (hmore rfl).resolve_left (by decide)
      exact ih hcand (by omega)
    | false =>
      obtain ⟨-, rfl, hall⟩ := hsame rfl
      exact ⟨next, rfl, hcand, hall⟩

theorem weight_le (hcheck : g.check = .ok ()) (h : g.Candidates table) :
    g.weight table ≤ (g.blocks.size + 1) * (g.blocks.size + 1) := by
  have hlen := length_nodes_le hcheck
  have hcard := (List.toFinset_card_le g.nodes).trans hlen
  calc g.weight table
      ≤ g.nodes.toFinset.card * (g.blocks.size + 1) := by
        apply Finset.sum_le_card_nsmul
        intro b hb
        refine (Finset.card_le_card fun x hx => ?_).trans hcard
        rw [List.mem_toFinset] at hb hx ⊢
        exact h.registered b hb x hx
    _ ≤ (g.blocks.size + 1) * (g.blocks.size + 1) := Nat.mul_le_mul_right _ hcard

/-! ### The dominators -/

/-- Where every entry is settled, a candidate is found on every way, walking back along it. -/
theorem mem_way_of_settled {w : List BlockId} (hg : g.Wired) (h : g.Candidates table)
    (hsettled : ∀ b ∈ g.nodes, g.SettledAt table b) (ha : g.Begins a) (hw : g.Way a w b)
    (hx : x ∈ dominatorsAt table b) : x ∈ w := by
  have hnode : ∀ {w b}, g.Way a w b → b ∈ g.nodes := fun hw => (hw.mem_nodes hg (ha.mem_nodes hg)).1
  induction hw with
  | start =>
    by_cases hentry : a = g.entry
    · rw [hentry, h.entry] at hx
      rw [hx, hentry]
      exact List.mem_singleton_self _
    · have hnone := (ha.resolve_left hentry).2
      rcases hsettled a (ha.mem_nodes hg) hentry x hx with rfl | ⟨hpreds, -⟩
      · exact List.mem_singleton_self _
      · exact absurd hnone hpreds
  | @step w b c hw hc ih =>
    by_cases hentry : c = g.entry
    · rw [hentry, h.entry] at hx
      rw [hx, hentry]
      exact List.mem_cons_self ..
    · rcases hsettled c (hnode (hw.step hc)) hentry x hx with rfl | ⟨-, hall⟩
      · exact List.mem_cons_self ..
      · exact List.mem_cons_of_mem _
          (ih (hall b (mem_predBlocks_of_mem_succBlocks hg (hnode hw) hc)))

/-- **The table that the iteration ends with** has for every registered block those that lie on every
way to it, from wherever ways begin. -/
theorem exists_dominators (hcheck : g.check = .ok ()) :
    ∃ table, g.dominators = .ok table ∧ ∀ b ∈ g.nodes,
      dominatorsIn? b table = some (dominatorsAt table b) ∧
      ∀ x, x ∈ dominatorsAt table b ↔ x ∈ g.nodes ∧ ∀ a, g.Begins a → g.OnEveryWay a b x := by
  have hg : g.Wired := wired_of_check hcheck
  have hstart := candidates_start hg
  obtain ⟨table, hpasses, hcand, hsettled⟩ := dominatorPasses_settle hg
    (fun b hb => mem_nodes_of_mem_reversePostorder hg hb) hstart
    (Nat.lt_succ_of_le (weight_le hcheck hstart))
  have hall : ∀ b ∈ g.nodes, g.SettledAt table b := fun b hb => hsettled b (mem_reversePostorder hb)
  refine ⟨table, hpasses, fun b hb => ⟨hcand.held b hb, fun x => ⟨fun hx => ?_, fun hx => ?_⟩⟩⟩
  · exact ⟨hcand.registered b hb x hx, fun a ha w hw => mem_way_of_settled hg hcand hall ha hw hx⟩
  · exact hcand.covers b hb x hx.1 hx.2

/-- Control gets to the block, and of all blocks where ways begin only the entry leads there. -/
def EnteredOnce (g : FlowGraph) (b : BlockId) : Prop :=
  g.Connects g.entry b ∧ ∀ a, g.Begins a → g.Connects a b → a = g.entry

/-- To such a block, what lies on every way from the entry lies on every way. -/
theorem EnteredOnce.onEveryWay_iff (hg : g.Wired) (h : g.EnteredOnce b) :
    (x ∈ g.nodes ∧ ∀ a, g.Begins a → g.OnEveryWay a b x) ↔ g.OnEveryWay g.entry b x := by
  constructor
  · exact fun hx => hx.2 g.entry (.inl rfl)
  · intro hx
    obtain ⟨w, hw⟩ := connects_iff_way.1 h.1
    refine ⟨(hw.mem_nodes hg hg.entry_mem).2 x (hx w hw), fun a ha w' hw' => ?_⟩
    obtain rfl := h.2 a ha (connects_iff_way.2 ⟨w', hw'⟩)
    exact hx w' hw'

/-- **The dominators of a block are what lies on every way to it**, from the entry and from every
block that no edge enters; back edges are the registered edges that lead from a block to one of its
dominators.  So where only the entry leads to a block, its dominators are exactly the blocks on every
way from the entry, and every edge that leads from there to one of them is a back edge. -/
theorem dominators_on_every_way (hcheck : g.check = .ok ()) :
    ∃ table back, g.dominators = .ok table ∧ g.backEdges = .ok back ∧
      (∀ b ∈ g.nodes, ∃ d, dominatorsIn? b table = some d ∧
        (∀ x, x ∈ d ↔ x ∈ g.nodes ∧ ∀ a, g.Begins a → g.OnEveryWay a b x) ∧
        (g.EnteredOnce b → ∀ x, x ∈ d ↔ g.OnEveryWay g.entry b x)) ∧
      (∀ i ∈ back, i ∈ g.listed) ∧
      ∀ i ∈ g.listed,
        (i ∈ back ↔ ∀ a, g.Begins a → g.OnEveryWay a (g.edge i).src (g.edge i).dst) ∧
        (g.EnteredOnce (g.edge i).src →
          (i ∈ back ↔ g.OnEveryWay g.entry (g.edge i).src (g.edge i).dst)) := by
  have hg : g.Wired := wired_of_check hcheck
  obtain ⟨table, htable, hmem⟩ := exists_dominators hcheck
  have hback : g.backEdges =
      .ok (g.listed.filter fun i => (g.edge i).dst ∈ dominatorsAt table (g.edge i).src) := by
    rw [backEdges, htable]
    rfl
  refine ⟨table, _, htable, hback, fun b hb => ?_, fun i hi => (List.mem_filter.1 hi).1,
    fun i hi => ?_⟩
  · obtain ⟨hheld, hways⟩ := hmem b hb
    refine ⟨_, hheld, hways, fun honce x => ?_⟩
    rw [hways, honce.onEveryWay_iff hg]
  · obtain ⟨hsrc, hdst, -, -⟩ := edge_of_edgeFault?_eq_none ((faults_of_check hcheck).2.2.1 i hi)
    have hiff : i ∈ g.listed.filter (fun i => (g.edge i).dst ∈ dominatorsAt table (g.edge i).src) ↔
        (g.edge i).dst ∈ g.nodes ∧
          ∀ a, g.Begins a → g.OnEveryWay a (g.edge i).src (g.edge i).dst := by
      rw [List.mem_filter, decide_eq_true_eq, (hmem _ hsrc).2]
      exact and_iff_right hi
    refine ⟨hiff.trans (and_iff_right hdst), fun honce => ?_⟩
    rw [hiff, honce.onEveryWay_iff hg]

/-- What a set of blocks is entered through lies on every way into it. -/
theorem onEveryWay_of_cut {P : BlockId → Prop} (ha : ¬ P a)
    (hcut : ∀ b, ∀ c ∈ g.succBlocks b, P c → c = x ∨ P b) (hb : P b) : g.OnEveryWay a b x := by
  intro w hw
  induction hw with
  | start => exact absurd hb ha
  | @step w b c _ hc ih =>
    rcases hcut b c hc hb with rfl | hb
    · exact List.mem_cons_self ..
    · exact List.mem_cons_of_mem _ (ih hb)

end DivisorCheck.FlowGraph

namespace DivisorCheck

/-! ### A loop, and a loop whose body ends early -/

/-- The graph of `{ while (c) { x; } }`: entry, exit, the block before the loop, the condition, the
block behind the loop and the body. -/
def wholeLoopGraph : FlowGraph where
  blocks := #[
    { id := 0, kind := .entry, succs := [0] },
    { id := 1, kind := .exit, preds := [5] },
    { id := 2, succs := [1], preds := [0] },
    { id := 3, kind := .loopCondition, tokens := [3], succs := [2, 3], preds := [1, 4] },
    { id := 4, kind := .loopAfter, succs := [5], preds := [3] },
    { id := 5, kind := .loopBody, tokens := [6, 7], succs := [4], preds := [2] }]
  edges := #[
    { src := 0, dst := 2 },
    { src := 2, dst := 3 },
    { src := 3, dst := 5, kind := .branchTrue },
    { src := 3, dst := 4, kind := .branchFalse },
    { src := 5, dst := 3, kind := .backEdge },
    { src := 4, dst := 1 }]
  nodes := [0, 1, 2, 3, 4, 5]
  listed := [0, 1, 2, 3, 4, 5]

/-- The condition lies on every way to the body, and the edge from the body to it is a back edge. -/
theorem dominators_on_every_way_wholeLoop :
    wholeLoopGraph.check = .ok () ∧ wholeLoopGraph.EnteredOnce 5 ∧
    wholeLoopGraph.OnEveryWay 0 5 3 ∧ wholeLoopGraph.backEdges = .ok [4] := by
  have hcheck : wholeLoopGraph.check = .ok () := by decide +kernel
  have hback : wholeLoopGraph.backEdges = .ok [4] := by decide +kernel
  have honce : wholeLoopGraph.EnteredOnce 5 := by
    refine ⟨FlowGraph.mem_reachable_iff.1 (by decide +kernel), fun a ha _ => ?_⟩
    rcases ha with rfl | ⟨ha, hnone⟩
    · rfl
    · have hentered : ∀ a ∈ wholeLoopGraph.nodes, wholeLoopGraph.predBlocks a = [] → a = 0 := by
        decide
      exact hentered a ha hnone
  obtain ⟨table, back, -, hok, -, -, hedges⟩ := FlowGraph.dominators_on_every_way hcheck
  obtain rfl : [4] = back := by simpa [hback] using hok
  exact ⟨hcheck, honce, ((hedges 4 (by decide)).2 honce).1 (List.mem_singleton_self 4), hback⟩

/-- **Dead code takes dominators away.**  The body of the loop lies on every way from the entry to its
condition.  Yet the condition has itself as its only dominator, because the dead rest of the body
falls into it, and the edge that closes the loop is no back edge. -/
theorem dominators_lost :
    (¬ ∀ g : FlowGraph, g.check = .ok () → ∃ table, g.dominators = .ok table ∧
      ∀ b, g.Connects g.entry b → ∃ d, FlowGraph.dominatorsIn? b table = some d ∧
        ∀ x, x ∈ d ↔ g.OnEveryWay g.entry b x) ∧
    ¬ ∀ g : FlowGraph, g.check = .ok () → ∃ back, g.backEdges = .ok back ∧
      ∀ i ∈ g.listed, g.Connects g.entry (g.edge i).src →
        g.OnEveryWay g.entry (g.edge i).src (g.edge i).dst → i ∈ back := by
  have hcheck : cutLoopGraph.check = .ok () := by decide +kernel
  have hway : cutLoopGraph.Connects 0 4 := FlowGraph.mem_reachable_iff.1 (by decide +kernel)
  have hbody : cutLoopGraph.OnEveryWay 0 4 3 := by
    apply FlowGraph.onEveryWay_of_cut (P := (· ∈ [1, 3, 4, 5, 6])) (by decide) ?_ (by decide)
    exact FlowGraph.forall_succBlocks (by decide)
  constructor
  · intro hclaim
    obtain ⟨table, htable, hall⟩ := hclaim cutLoopGraph hcheck
    obtain ⟨d, hd, hmem⟩ := hall 4 hway
    have hentry : cutLoopGraph.dominators.toOption.bind (FlowGraph.dominatorsIn? 4) = some [4] := by
      decide +kernel
    rw [htable] at hentry
    obtain rfl : [4] = d := by
      simpa [Except.toOption, hd, eq_comm] using hentry
    exact absurd ((hmem 3).2 hbody) (by decide)
  · intro hclaim
    obtain ⟨back, hback, hall⟩ := hclaim cutLoopGraph hcheck
    have hnone : cutLoopGraph.backEdges = .ok [] := by decide +kernel
    obtain rfl : [] = back := by simpa [hnone] using hback
    exact absurd (hall 4 (by decide) hway hbody) List.not_mem_nil

end DivisorCheck
