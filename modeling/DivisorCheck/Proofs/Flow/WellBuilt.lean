/-
  The shape of the graph of a function.

  Control enters a body along one edge and leaves it at the exit.  Every other block
  is told by the edges that leave it.  Where a condition is decided, the block holds
  that condition and nothing else; where a `switch` is dispatched, the header of the
  `switch` and nothing else; and anywhere else it holds a part of a loop header or
  statements, of which only the last one may be a jump, and it is left as this jump
  says.

  A statement is here what the reader takes for one.  After a label it starts anew,
  although the statement that is labelled has just been begun.  So it takes the
  labelled statement for one that follows the arm of an `if`, and the `else` of that
  `if` for the beginning of a plain statement, even if a jump comes next.
-/
import DivisorCheck.Proofs.Flow.Built

namespace DivisorCheck

/-! ### What the edges tell -/

namespace Program

variable {p : Program} {l : Look}

/-- The tokens are what a loop header does before the loop or after each round. -/
def IsPreparation (p : Program) (ts : List TokenId) : Prop :=
  ∃ init cond step, p.InParts init cond step ∧ (ts = init ∨ ts = step)

/-- Statements and how they are left: to what comes next, or along the edge of the jump that is the
last of them. -/
inductive LeftAs (p : Program) : List TokenId → List EdgeKind → Prop
  | passing {ts : List TokenId} {exit : EdgeKind} (h : p.Row ts)
      (hexit : exit = .fallThrough ∨ exit = .backEdge) : LeftAs p ts [exit]
  | jumping {us : List TokenId} (limit t : TokenId) (h : p.Row us)
      (ht : Body.isJump (p.text t) = true) : LeftAs p (us ++ p.taken limit t) (jumpExits (p.text t))

namespace Finished

theorem of_branch (h : p.Finished l) (hl : .branchTrue ∈ l.exits ∨ .branchFalse ∈ l.exits) :
    p.IsCondition l.tokens ∧ l.cases = [] ∧ (l.exits = [.branchTrue, .branchFalse] ∨
      l.tokens = [] ∧ (∃ init step, p.InParts init [] step) ∧ l.exits = [.branchTrue]) := by
  cases h with
  | decides h => exact ⟨h, rfl, .inl rfl⟩
  | always h => exact ⟨.inr ⟨_, _, h⟩, rfl, .inr ⟨rfl, ⟨_, _, h⟩, rfl⟩⟩
  | dispatches _ _ => simp at hl
  | prepares _ hexit => rcases hexit with rfl | rfl <;> simp at hl
  | passes _ hexit => rcases hexit with rfl | rfl <;> simp at hl
  | leaves limit t _ _ =>
    dsimp only [jumpExits] at hl
    split at hl
    all_goals simp at hl

theorem of_case (h : p.Finished l) (hl : l.cases ≠ []) :
    p.InHeader "switch" l.tokens ∧ l.exits = [] ∧ .switchDefault ∈ l.cases := by
  cases h with
  | dispatches h hdefault => exact ⟨h, rfl, hdefault⟩
  | _ => exact absurd rfl hl

theorem of_other (h : p.Finished l) (hexits : .branchTrue ∉ l.exits) (hcases : l.cases = []) :
    p.IsPreparation l.tokens ∧ (l.exits = [.fallThrough] ∨ l.exits = [.backEdge]) ∨
      p.LeftAs l.tokens l.exits := by
  cases h with
  | decides _ => exact absurd (List.mem_cons_self ..) hexits
  | always _ => exact absurd (List.mem_cons_self ..) hexits
  | dispatches _ hdefault =>
    dsimp only at hcases
    rw [hcases] at hdefault
    cases hdefault
  | prepares h hexit =>
    refine .inl ⟨?_, hexit.imp (congrArg fun kind => [kind]) (congrArg fun kind => [kind])⟩
    rcases h with ⟨cond, step, h⟩ | ⟨init, cond, h⟩
    · exact ⟨_, _, _, h, .inl rfl⟩
    · exact ⟨_, _, _, h, .inr rfl⟩
  | passes h hexit => exact .inr (.passing h hexit)
  | leaves limit t h ht => exact .inr (.jumping limit t h ht)

end Finished

end Program

/-! ### Well-built graphs -/

namespace FlowGraph

/-- What the graph of every function is like.  Exceptions are not counted among the exits of a
block. -/
structure WellBuilt (p : Program) (g : FlowGraph) : Prop where
  accepted : g.check = .ok ()
  entry_unentered : g.predEdges g.entry = []
  entry_left : ∃ e, g.succEdges g.entry = [e]
  exit_unleft : g.succEdges g.exit = []
  /-- Where a condition is decided, it is true or false, unless it is missing. -/
  decides : ∀ b ∈ g.nodes, ∀ e ∈ g.succEdges b, e.kind = .branchTrue ∨ e.kind = .branchFalse →
    p.IsCondition (g.block b).tokens ∧ g.caseKinds b = [] ∧
      (g.exitKinds b = [.branchTrue, .branchFalse] ∨
        (g.block b).tokens = [] ∧ (∃ init step, p.InParts init [] step) ∧
          g.exitKinds b = [.branchTrue])
  /-- Where a `switch` is dispatched, there is nothing else, and there is always a default. -/
  dispatches : ∀ b ∈ g.nodes, ∀ e ∈ g.succEdges b, e.kind = .switchCase ∨ e.kind = .switchDefault →
    p.InHeader "switch" (g.block b).tokens ∧ g.exitKinds b = [] ∧ .switchDefault ∈ g.caseKinds b
  /-- Other blocks prepare a loop, or hold statements and are left as the last one says. -/
  leaves : ∀ b ∈ g.nodes, b ≠ g.entry → b ≠ g.exit →
    (∀ e ∈ g.succEdges b, e.kind ≠ .branchTrue ∧ ¬ e.kind.isCase = true) →
      p.IsPreparation (g.block b).tokens ∧
          (g.exitKinds b = [.fallThrough] ∨ g.exitKinds b = [.backEdge]) ∨
        p.LeftAs (g.block b).tokens (g.exitKinds b)

variable {g : FlowGraph} {b : BlockId} {e : Edge}

theorem mem_exitKinds (he : e ∈ g.succEdges b) (hkind : e.kind ≠ .exception ∧ ¬ e.kind.isCase = true) :
    e.kind ∈ g.exitKinds b :=
  List.mem_filter.2 ⟨List.mem_map_of_mem he, decide_eq_true hkind⟩

theorem mem_caseKinds (he : e ∈ g.succEdges b) (hkind : e.kind.isCase = true) :
    e.kind ∈ g.caseKinds b :=
  List.mem_filter.2 ⟨List.mem_map_of_mem he, hkind⟩

theorem exists_of_mem_exitKinds {kind : EdgeKind} (h : kind ∈ g.exitKinds b) :
    ∃ e ∈ g.succEdges b, e.kind = kind := List.mem_map.1 (List.mem_filter.1 h).1

theorem exists_of_mem_caseKinds {kind : EdgeKind} (h : kind ∈ g.caseKinds b) :
    ∃ e ∈ g.succEdges b, e.kind = kind ∧ kind.isCase = true := by
  obtain ⟨hmem, hcase⟩ := List.mem_filter.1 h
  obtain ⟨e, he, rfl⟩ := List.mem_map.1 hmem
  exact ⟨e, he, rfl, hcase⟩

/-- Control can only fall through out of the entry. -/
theorem Sound.kind_of_entry (h : g.Sound) (he : e ∈ g.succEdges 0) : e.kind = .fallThrough := by
  obtain ⟨hlegal, hsrc⟩ := h.legal_of_mem he
  rcases hlegal.source with hinner | ⟨-, hkind⟩
  · rw [hsrc] at hinner
    exact absurd hinner (by decide)
  · exact hkind

/-- The entry is left along one edge, as no exception leaves it. -/
theorem Sound.entry_left (h : g.Sound) (hexits : g.exitKinds 0 = [.fallThrough]) :
    ∃ e, g.succEdges 0 = [e] := by
  have hkinds : ∀ kind ∈ (g.succEdges 0).map (·.kind),
      decide (kind ≠ .exception ∧ ¬ kind.isCase = true) = true := by
    intro kind hkind
    obtain ⟨e, he, rfl⟩ := List.mem_map.1 hkind
    rw [h.kind_of_entry he]
    decide
  have hlength := congrArg List.length hexits
  rw [exitKinds, List.filter_eq_self.2 hkinds, List.length_map] at hlength
  exact List.length_eq_one_iff.1 hlength

/-- What is left in any other way than by falling through is neither the entry nor the exit. -/
theorem Sound.inner_of_mem (h : g.Sound) (he : e ∈ g.succEdges b) (hkind : e.kind ≠ .fallThrough) :
    b ≠ g.entry ∧ b ≠ g.exit := by
  rw [h.entry, h.exit]
  constructor
  · rintro rfl
    exact hkind (h.kind_of_entry he)
  · rintro rfl
    rw [h.succEdges_exit] at he
    cases he

end FlowGraph

namespace Body.Built

variable {p : Program} {s : BodyBuilder} {g : FlowGraph} {b : BlockId} {e : Edge}

theorem finished_of_inner (h : Built p s g) (hb : b ∈ g.nodes) (hinner : b ≠ g.entry ∧ b ≠ g.exit) :
    p.Finished (g.look b) := by
  obtain ⟨hentry, hexit⟩ := hinner
  rw [h.sound.nodes, List.mem_range] at hb
  rw [h.sound.entry] at hentry
  rw [h.sound.exit] at hexit
  refine h.finished b hb ?_
  match b, hentry, hexit with
  | _ + 2, _, _ => exact Nat.le_add_left 2 _

theorem decides (h : Built p s g) (hb : b ∈ g.nodes) (he : e ∈ g.succEdges b)
    (hkind : e.kind = .branchTrue ∨ e.kind = .branchFalse) :
    p.IsCondition (g.block b).tokens ∧ g.caseKinds b = [] ∧
      (g.exitKinds b = [.branchTrue, .branchFalse] ∨
        (g.block b).tokens = [] ∧ (∃ init step, p.InParts init [] step) ∧
          g.exitKinds b = [.branchTrue]) := by
  have hne : e.kind ≠ .exception ∧ ¬ e.kind.isCase = true := by
    rcases hkind with hkind | hkind <;> rw [hkind] <;> decide
  have hfall : e.kind ≠ .fallThrough := by
    rcases hkind with hkind | hkind <;> rw [hkind] <;> decide
  have hmem := FlowGraph.mem_exitKinds he hne
  refine (h.finished_of_inner hb (h.sound.inner_of_mem he hfall)).of_branch ?_
  rcases hkind with hkind | hkind
  · exact .inl (hkind ▸ hmem)
  · exact .inr (hkind ▸ hmem)

theorem dispatches (h : Built p s g) (hb : b ∈ g.nodes) (he : e ∈ g.succEdges b)
    (hkind : e.kind = .switchCase ∨ e.kind = .switchDefault) :
    p.InHeader "switch" (g.block b).tokens ∧ g.exitKinds b = [] ∧
      .switchDefault ∈ g.caseKinds b := by
  have hcase : e.kind.isCase = true := by
    rcases hkind with hkind | hkind <;> rw [hkind] <;> rfl
  have hfall : e.kind ≠ .fallThrough := by
    rcases hkind with hkind | hkind <;> rw [hkind] <;> decide
  have hmem := FlowGraph.mem_caseKinds he hcase
  exact (h.finished_of_inner hb (h.sound.inner_of_mem he hfall)).of_case (List.ne_nil_of_mem hmem)

theorem leaves (h : Built p s g) (hb : b ∈ g.nodes) (hinner : b ≠ g.entry ∧ b ≠ g.exit)
    (hplain : ∀ e ∈ g.succEdges b, e.kind ≠ .branchTrue ∧ ¬ e.kind.isCase = true) :
    p.IsPreparation (g.block b).tokens ∧
        (g.exitKinds b = [.fallThrough] ∨ g.exitKinds b = [.backEdge]) ∨
      p.LeftAs (g.block b).tokens (g.exitKinds b) := by
  refine (h.finished_of_inner hb hinner).of_other ?_ ?_
  · intro hmem
    obtain ⟨e, he, hkind⟩ := FlowGraph.exists_of_mem_exitKinds hmem
    exact (hplain e he).1 hkind
  · refine List.eq_nil_iff_forall_not_mem.2 fun kind hmem => ?_
    obtain ⟨e, he, rfl, hcase⟩ := FlowGraph.exists_of_mem_caseKinds hmem
    exact (hplain e he).2 hcase

/-- What is built from a body is well built. -/
theorem wellBuilt (h : Built p s g) : g.WellBuilt p where
  accepted := h.sound.check
  entry_unentered := h.sound.entry ▸ h.sound.predEdges_entry
  entry_left := h.sound.entry ▸ h.sound.entry_left (congrArg Look.exits h.entry)
  exit_unleft := h.sound.exit ▸ h.sound.succEdges_exit
  decides := fun _ hb _ he => h.decides hb he
  dispatches := fun _ hb _ he => h.dispatches hb he
  leaves := fun _ hb hentry hexit => h.leaves hb ⟨hentry, hexit⟩

end Body.Built

/-- **Every graph that is built for a function is well built.** -/
theorem Program.flowGraph_wellBuilt {p : Program} {f : FunctionId} {g : FlowGraph}
    (h : p.flowGraph f = .ok (some g)) : g.WellBuilt p := by
  obtain ⟨first, last, -, hbody⟩ := Program.exists_ofBody h
  obtain ⟨_, s, _, -, -, -, hbuilt⟩ := Body.built_of_ofBody hbody
  exact hbuilt.wellBuilt

/-- `{ if (c) L: x = 1; else return; y = 2; }` -/
def labelledArm : Program where
  tokens := #[
    { text := "\x7b", next := some 1, link := some 18 },
    { text := "if", next := some 2, isName := true },
    { text := "(", next := some 3, link := some 4 },
    { text := "c", next := some 4, isName := true },
    { text := ")", next := some 5, link := some 2 },
    { text := "L", next := some 6, isName := true },
    { text := ":", next := some 7 },
    { text := "x", next := some 8, isName := true },
    { text := "=", next := some 9, left := some 7, right := some 9 },
    { text := "1", next := some 10, isNumber := true },
    { text := ";", next := some 11 },
    { text := "else", next := some 12, isName := true },
    { text := "return", next := some 13, isName := true },
    { text := ";", next := some 14 },
    { text := "y", next := some 15, isName := true },
    { text := "=", next := some 16, left := some 14, right := some 16 },
    { text := "2", next := some 17, isNumber := true },
    { text := ";", next := some 18 },
    { text := "\x7d", link := some 0 }]
  functions := #[{ name := some "f" }]
  scopes := #[{ kind := "Function", function := some 0, bodyStart := some 0, bodyEnd := some 18 }]

theorem flowGraph_labelledArm : ∃ g, labelledArm.flowGraph 0 = .ok (some g) ∧ 6 ∈ g.nodes ∧
    (g.block 6).tokens = [7, 8, 9, 10, 11, 12, 13, 14, 15, 16, 17] ∧
    g.exitKinds 6 = [.fallThrough] := by
  have hrun : labelledArm.buildsTo 0 (fun g => 6 ∈ g.nodes ∧
      (g.block 6).tokens = [7, 8, 9, 10, 11, 12, 13, 14, 15, 16, 17] ∧
      g.exitKinds 6 = [.fallThrough]) = true := by decide +kernel
  obtain ⟨g, hg, htest⟩ := Program.exists_of_buildsTo hrun
  exact ⟨g, hg, of_decide_eq_true htest⟩

theorem flowGraph_wellBuilt_labelledArm : ∃ g, labelledArm.flowGraph 0 = .ok (some g) ∧
    g.WellBuilt labelledArm := by
  obtain ⟨g, hg, -⟩ := flowGraph_labelledArm
  exact ⟨g, hg, Program.flowGraph_wellBuilt hg⟩

/-- **A block that holds a `return` may go on.**  The reader takes the `return` after `else` for a part
of a plain statement, as the arm with the label has ended before its statement for it. -/
theorem return_goes_on_labelledArm : ¬ ∀ (p : Program) (f : FunctionId) (g : FlowGraph),
    p.flowGraph f = .ok (some g) → ∀ b ∈ g.nodes, ∀ t ∈ (g.block b).tokens, p.text t = "return" →
      g.exitKinds b = [.returnOut] := by
  intro hclaim
  obtain ⟨g, hg, hheld, htokens, hexits⟩ := flowGraph_labelledArm
  have hreturn : 12 ∈ (g.block 6).tokens := by
    rw [htokens]
    decide
  have hleft := hclaim labelledArm 0 g hg 6 hheld 12 hreturn (by decide)
  rw [hexits] at hleft
  cases hleft

end DivisorCheck
