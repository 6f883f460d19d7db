/-
  Reading a statement keeps the shape of the graph.

  `Visit.Ready` says when a statement may be read, and `Visit.Outcome` what reading
  it does: it is a stretch of building that begins with work on the block that is live
  before it and leaves the work on the one that is live after it.  If the reader for
  the statements inside brings about this outcome (`Body.Keeps`), then so does each
  kind of statement.

  `Visit.Within` is what a stretch promises about a statement that is read on the
  way.  What the statement has finished stays as it is; and if it stands in the body of
  a `try` that the statement around it does not stand in, the blocks that it has worked
  on may pass to the handlers.
-/
import DivisorCheck.Proofs.Flow.Stretch

namespace DivisorCheck

open Board

/-! ### Where a statement may be read -/

/-- Jumps lead to blocks that may be entered. -/
structure JumpTargets.Fit (targets : JumpTargets) (K : Board) : Prop where
  breakTo : ∀ b, targets.breakTo = some b → K.Fits b
  continueTo : ∀ b, targets.continueTo = some b → K.Fits b
  handlers : ∀ hs, targets.handlers = some hs → ∀ h ∈ hs, K.Fits h

/-- An exception may pass from one block to another, unless nothing ever gets to the first. -/
def FlowGraph.Throws (g : FlowGraph) (b h : BlockId) : Prop :=
  { src := b, dst := h, kind := .exception } ∈ g.succEdges b ∨ (g.block b).kind = .unreachable

namespace Visit

/-- The statement may be read: the block that is live holds statements only and has not been left,
and jumps lead to blocks that may be entered. -/
structure Ready (p : Program) (v : Visit) : Prop where
  sound : v.builder.Sound
  targets : v.targets.Fit v.builder.board
  dispatch : ∀ d, v.targets.dispatch = some d →
    2 ≤ d ∧ d < v.builder.board.size ∧ v.current ≠ some d
  live : ∀ b, v.current = some b →
    2 ≤ b ∧ b < v.builder.board.size ∧ p.Live (v.builder.board.look b)

/-- What reading the statement has done. -/
def Outcome (p : Program) (v : Visit) (out : Option BlockId) (s' : BodyBuilder) : Prop :=
  ∃ C : Ledger, C.Ends p out.toList ∧
    BodyBuilder.Stretch p v.targets.dispatch v.builder (pending v.current) s' C

/-- The block is worked on while the statement is read: it is live before, or it is new. -/
def WorksOn (w : Visit) (s' : BodyBuilder) (b : BlockId) : Prop :=
  b < s'.board.size ∧ (w.builder.board.size ≤ b ∨ w.current = some b)

/-- The statement is read in a stretch of building, inside statements whose handlers are given. -/
structure Within (p : Program) (handlers : Option (List BlockId)) (s : BodyBuilder) (A : Set BlockId)
    (w : Visit) (r : AfterStatement × BodyBuilder) (B : Set BlockId) (s' : BodyBuilder) : Prop where
  ready : w.Ready p
  before : s.graph.Later w.builder.graph
  after : r.2.graph.Later s'.graph
  current : ∀ b, w.current = some b → s.board.size ≤ b ∨ b ∈ A
  settled : ∀ b, w.WorksOn r.2 b → r.1.2 ≠ some b →
    b ∉ B ∧ (s'.board.look b).kind = (r.2.board.look b).kind
  handlers : w.targets.handlers = handlers ∨ ∀ b, w.WorksOn r.2 b →
    b ∉ B ∧ ∀ hs, w.targets.handlers = some hs → ∀ h ∈ hs, s'.graph.Throws b h

end Visit

/-- The reader brings about the outcome of every statement that it may be used for. -/
def Body.Keeps (p : Program) (read : StatementReader) : Prop :=
  ∀ v : Visit, v.Ready p → ∀ a s', read.answer v = .ok (a, s') → v.Outcome p a.2 s'

/-! ### Statements inside a stretch -/

theorem JumpTargets.Fit.later {targets : JumpTargets} {s s' : BodyBuilder}
    (h : targets.Fit s.board) (hs : s.Sound) (hs' : s'.Sound) (hlater : s.graph.Later s'.graph) :
    targets.Fit s'.board := by
  have hfits : ∀ b, s.board.Fits b → s'.board.Fits b := fun _ => hs.fits_later hs' hlater
  exact ⟨fun b hb => hfits b (h.breakTo b hb), fun b hb => hfits b (h.continueTo b hb),
    fun l hl b hb => hfits b (h.handlers l hl b hb)⟩

namespace BodyBuilder.Stretch

variable {p : Program} {dispatch : Option BlockId} {s s₁ s₂ s' : BodyBuilder} {A : Set BlockId}
  {C D L L' M : Ledger} {w : Visit}

theorem fit {targets : JumpTargets} (h : Stretch p dispatch s A s₁ L)
    (htargets : targets.Fit s.board) : targets.Fit s₁.board :=
  htargets.later h.start h.sound h.later

theorem fits_right {b : BlockId} {l : Look} (h : Stretch p dispatch s A s₁ (D ++ L))
    (hb : (b, l) ∈ L) (hl : l.kind ≠ .unreachable) : s₁.board.Fits b :=
  h.fits (List.mem_append_right _ hb) hl

/-- The block that is live is not among the others of the ledger. -/
theorem apart {current : Option BlockId} (h : Stretch p dispatch s A s₁ (C ++ L))
    (hC : C.Ends p current.toList) {b : BlockId} (hb : b ∈ L.map (·.1)) :
    b < s₁.board.size ∧ current ≠ some b := by
  obtain ⟨-, -, hapart⟩ := List.nodup_append.1 (List.map_append ▸ h.nodup)
  refine ⟨(h.source ?_).2, fun hcurrent => hapart b (hC.mem_blocks.2 hcurrent) b hb rfl⟩
  rw [Ledger.mem_blocks, List.map_append]
  exact List.mem_append_right _ hb

/-- A statement is read in a stretch, inside the same `switch`. -/
theorem read (h : Stretch p dispatch s A w.builder (C ++ L)) (hC : C.Ends p w.current.toList)
    (hd : w.targets.dispatch = dispatch)
    (h' : Stretch p w.targets.dispatch w.builder (pending w.current) s₁ D) :
    Stretch p dispatch s A s₁ (D ++ L) := by
  refine h.exchange hC h' (.inl hd) rfl fun x hx => ?_
  have hmem : x.1 ∈ L.map (·.1) := List.mem_map_of_mem hx
  have hx' : x ∈ C ++ L := List.mem_append_right _ hx
  obtain ⟨hheld, hcurrent⟩ := h.apart hC hmem
  -- Labels inside go to the dispatch block from outside, which is not in the ledger.
  have hdispatch : w.targets.dispatch ≠ some x.1 := by
    intro heq
    obtain ⟨-, hold, hout⟩ := h.outer _ (hd.symm.trans heq)
    exact h.grows.not_mem hold hout (List.mem_map_of_mem hx')
  rw [h'.grows.look_eq hheld hcurrent hdispatch]
  exact h.looks x hx'

/-- The body of a `switch` is read in a stretch, and labels are added to its dispatch block. -/
theorem read_switch {b : BlockId} {l : Look}
    (h : Stretch p dispatch s A w.builder (C ++ (b, l) :: L)) (hC : C.Ends p w.current.toList)
    (hd : w.targets.dispatch = some b)
    (h' : Stretch p w.targets.dispatch w.builder (pending w.current) s₁ D) :
    ∃ more, Stretch p dispatch s A s₁ (D ++ (b, { l with cases := l.cases ++ more }) :: L) := by
  have hb : b ∈ ((b, l) :: L).map (·.1) := List.mem_cons_self ..
  have hmem : ∀ x ∈ (b, l) :: L, x ∈ C ++ (b, l) :: L := fun x hx => List.mem_append_right _ hx
  obtain ⟨hheld, hcurrent⟩ := h.apart hC hb
  have hlook : ∃ more, s₁.board.look b = { l with cases := l.cases ++ more } := by
    have hold := h.looks (b, l) (hmem _ (List.mem_cons_self ..))
    -- This is the one block of the rest that may change: it receives the labels of the body.
    rcases h'.grows.kept b hheld hcurrent with heq | ⟨-, more, heq⟩
    · exact ⟨[], by rw [heq, hold, List.append_nil]⟩
    · exact ⟨more, by rw [heq, hold]⟩
  obtain ⟨more, hlook⟩ := hlook
  refine ⟨more, h.exchange hC h' (.inr ⟨b, hb, hd⟩) rfl fun x hx => ?_⟩
  rcases List.mem_cons.1 hx with rfl | hx
  · exact hlook
  · have hx' : x.1 ∈ ((b, l) :: L).map (·.1) := List.mem_map_of_mem (List.mem_cons_of_mem _ hx)
    obtain ⟨hheld', hcurrent'⟩ := h.apart hC hx'
    have hne : w.targets.dispatch ≠ some x.1 := by
      intro heq
      obtain ⟨-, hnodup, -⟩ := List.nodup_append.1 (List.map_append ▸ h.nodup)
      have hbx : b = x.1 := Option.some.inj (hd.symm.trans heq)
      have hxL : x.1 ∈ L.map (·.1) := List.mem_map_of_mem hx
      exact (List.nodup_cons.1 hnodup).1 (hbx ▸ hxL)
    rw [h'.grows.look_eq hheld' hcurrent' hne]
    exact h.looks x (hmem x (List.mem_cons_of_mem _ hx))

/-- What a statement that is read in a stretch has finished stays as it is. -/
theorem within {next : Option TokenId} {out : Option BlockId}
    (h : Stretch p dispatch s A w.builder (C ++ L)) (hC : C.Ends p w.current.toList)
    (hready : w.Ready p) (hD : D.Ends p out.toList) (hL : L'.map (·.1) = L.map (·.1))
    (hrest : Stretch p dispatch s₁ (D ++ L').blocks s' M) {handlers : Option (List BlockId)}
    (hhandlers : w.targets.handlers = handlers ∨ ∀ b, w.WorksOn s₁ b →
      b ∉ M.blocks ∧ ∀ hs, w.targets.handlers = some hs → ∀ h ∈ hs, s'.graph.Throws b h) :
    w.Within p handlers s A ((next, out), s₁) M.blocks s' := by
  refine ⟨hready, h.later, hrest.later, fun b hb => ?_, ?_, hhandlers⟩
  · refine h.grows.open_mem b ?_
    rw [Ledger.mem_blocks, List.map_append]
    exact List.mem_append_left _ (hC.mem_blocks.2 hb)
  · rintro b ⟨hheld, hnew⟩ hout
    have hnot : b ∉ (D ++ L').blocks := by
      rw [Ledger.mem_blocks, List.map_append, List.mem_append, hD.mem_blocks, hL]
      rintro (heq | hb)
      · exact hout heq
      · obtain ⟨hold, hcurrent⟩ := h.apart hC hb
        exact hnew.elim (Nat.not_le.2 hold) hcurrent
    exact ⟨hrest.grows.not_mem hheld hnot, (hrest.grows.kept b hheld hnot).kind⟩

end BodyBuilder.Stretch

/-- The exceptions of a block that nothing is done to any more stay possible. -/
theorem FlowGraph.Throws.later {s s' : BodyBuilder} {b h : BlockId} (hthrows : s.graph.Throws b h)
    (hs : s.Sound) (hs' : s'.Sound) (hlater : s.graph.Later s'.graph)
    (hkind : (s'.board.look b).kind = (s.board.look b).kind) : s'.graph.Throws b h := by
  rcases hthrows with hedge | hdead
  · exact .inl (hs.graph.mem_succEdges_later hs'.graph hlater hedge)
  · exact .inr (hkind.trans hdead)

namespace Visit.Within

variable {p : Program} {dispatch : Option BlockId} {handlers : Option (List BlockId)}
  {s s₁ s' : BodyBuilder} {A B : Set BlockId} {L M : Ledger} {w : Visit}
  {r : AfterStatement × BodyBuilder}

/-- A statement that is read in the rest of a stretch is read in the whole of it. -/
theorem of_rest (h : w.Within p handlers s₁ L.blocks r B s')
    (h₁ : BodyBuilder.Stretch p dispatch s A s₁ L) : w.Within p handlers s A r B s' := by
  refine { h with before := h₁.later.trans h.before, current := fun b hb => ?_ }
  rcases h.current b hb with hsize | hmem
  · exact .inl (Nat.le_trans h₁.grows.size hsize)
  · exact h₁.grows.open_mem b hmem

/-- A statement that is read in the beginning of a stretch is read in the whole of it. -/
theorem of_first (h : w.Within p handlers s A r L.blocks s₁)
    (h₁ : BodyBuilder.Stretch p dispatch s₁ L.blocks s' M) : w.Within p handlers s A r M.blocks s' := by
  have hlt : ∀ b, w.WorksOn r.2 b → b < s₁.board.size := fun b hb =>
    Nat.lt_of_lt_of_le hb.1 h.after.size
  have hkeep : ∀ b, w.WorksOn r.2 b → b ∉ L.blocks →
      b ∉ M.blocks ∧ (s'.board.look b).kind = (s₁.board.look b).kind := fun b hb hnot =>
    ⟨h₁.grows.not_mem (hlt b hb) hnot, (h₁.grows.kept b (hlt b hb) hnot).kind⟩
  refine { h with after := h.after.trans h₁.later, settled := ?_, handlers := ?_ }
  · intro b hb hout
    obtain ⟨hnot, hkind⟩ := h.settled b hb hout
    obtain ⟨hnot', hkind'⟩ := hkeep b hb hnot
    exact ⟨hnot', hkind'.trans hkind⟩
  · refine h.handlers.imp_right fun hthrows b hb => ?_
    obtain ⟨hnot, hall⟩ := hthrows b hb
    obtain ⟨hnot', hkind'⟩ := hkeep b hb hnot
    exact ⟨hnot', fun hs heq l hl => (hall hs heq l hl).later h₁.start h₁.sound h₁.later hkind'⟩

end Visit.Within

namespace Visit.Ready

open BodyBuilder

variable {p : Program} {v : Visit}

/-- Before a statement is read, there is work on the live block only. -/
theorem stretch (hv : v.Ready p) : ∃ C : Ledger, C.Ends p v.current.toList ∧
    Stretch p v.targets.dispatch v.builder (pending v.current) v.builder C := by
  obtain ⟨targets, limit, start, current, s⟩ := v
  cases current with
  | none =>
    have hempty : pending none = Ledger.blocks [] := (Ledger.Ends.nil p).blocks_eq.symm
    refine ⟨[], .nil p, ?_⟩
    rw [hempty]
    exact .refl hv.sound nofun List.nodup_nil nofun fun d hd =>
      ⟨(hv.dispatch d hd).1, (hv.dispatch d hd).2.1, nofun⟩
  | some b =>
    obtain ⟨hinner, hheld, hlive⟩ := hv.live b rfl
    have hends : Ledger.Ends p [(b, s.board.look b)] (some b).toList := .single hlive
    refine ⟨_, hends, ?_⟩
    have hd := hv.dispatch
    rw [← hends.blocks_eq]
    refine .refl hv.sound ?_ (List.nodup_singleton b) ?_ fun d heq => ?_
    · intro x hx
      rw [List.mem_singleton.1 hx]
    · intro c hc
      rw [List.mem_singleton.1 hc]
      exact ⟨hinner, hheld⟩
    · refine ⟨(hd d heq).1, (hd d heq).2.1, fun hmem => ?_⟩
      exact (hd d heq).2.2 (congrArg some (List.mem_singleton.1 hmem).symm)

/-- A statement may be read on a live block of a ledger. -/
theorem of_stretch {s : BodyBuilder} {A : Set BlockId} {C L : Ledger} {dispatch : Option BlockId}
    (h : Stretch p dispatch s A v.builder (C ++ L)) (hC : C.Ends p v.current.toList)
    (htargets : v.targets.Fit v.builder.board)
    (hd : ∀ d, v.targets.dispatch = some d →
      2 ≤ d ∧ d < v.builder.board.size ∧ v.current ≠ some d) : v.Ready p := by
  refine ⟨h.sound, htargets, hd, fun b hb => ?_⟩
  obtain ⟨x, hx, rfl⟩ := List.mem_map.1 (hC.mem_blocks.2 hb)
  have hmem : x ∈ C ++ L := List.mem_append_left _ hx
  obtain ⟨hinner, hheld⟩ := h.source (List.mem_map_of_mem hmem)
  refine ⟨hinner, hheld, ?_⟩
  rw [h.looks x hmem]
  exact hC.live x hx

end Visit.Ready

namespace Body

open Build BodyBuilder

variable {α : Type} {p : Program} {v : Visit} {read : StatementReader}

/-- From a builder on, the step brings a stretch to an end with a ledger that fits its answer. -/
def Proceeds (p : Program) (dispatch : Option BlockId) (handlers : Option (List BlockId))
    (E : α → Ledger → Prop) (F : StatementReader → Build α) (read : StatementReader)
    (s₀ : BodyBuilder) (A : Set BlockId) (s : BodyBuilder) : Prop :=
  Tells F read s (fun w r a s' => ∃ M, E a M ∧ w.Within p handlers s₀ A r M.blocks s')
    (fun a s' => ∃ M, E a M ∧ Stretch p dispatch s₀ A s' M)

variable {dispatch : Option BlockId} {handlers : Option (List BlockId)} {E : α → Ledger → Prop}
  {s s₁ : BodyBuilder} {A : Set BlockId} {C L M : Ledger} {w : Visit}

theorem proceeds_of_gives {m : Build α}
    (h : Gives m s₁ (fun a s' => ∃ M, E a M ∧ Stretch p dispatch s A s' M)) :
    Proceeds p dispatch handlers E (fun _ => m) read s A s₁ := h.tells

theorem proceeds_pure {a : α} (h : Stretch p dispatch s A s₁ M) (hM : E a M) :
    Proceeds p dispatch handlers E (fun _ => pure a) read s A s₁ :=
  proceeds_of_gives (gives_pure ⟨M, hM, h⟩)

/-- One part of a stretch after another. -/
theorem Proceeds.bind {β : Type} {G : StatementReader → Build β} {E' : β → Ledger → Prop}
    {f : β → StatementReader → Build α} (hG : Proceeds p dispatch handlers E' G read s A s₁)
    (hE : ∀ b M M', E' b M → E' b M' → M.blocks = M'.blocks)
    (hf : ∀ b s₂ M, E' b M → Stretch p dispatch s A s₂ M →
      Proceeds p dispatch handlers E (f b) read s₂ M.blocks s₂) :
    Proceeds p dispatch handlers E (fun read => G read >>= fun b => f b read) read s A s₁ := by
  refine Tells.bind hG fun b s₂ ⟨M, hM, h₂⟩ a s' hrun => ?_
  obtain ⟨⟨M', hM', h'⟩, hvisits⟩ := hf b s₂ M hM h₂ a s' hrun
  refine ⟨⟨⟨M', hM', h₂.trans h'⟩, ?_⟩, fun u => (hvisits u).imp_left ?_⟩
  -- What the first part has told is good to the end of the first part only, and what the second has
  -- told is good from there on: both are to hold of the whole stretch.
  · rintro u r ⟨M₁, hM₁, hwithin⟩
    rw [hE b M₁ M hM₁ hM] at hwithin
    exact ⟨M', hM', hwithin.of_first h'⟩
  · rintro ⟨r, hanswer, M₁, hM₁, hwithin⟩
    exact ⟨r, hanswer, M₁, hM₁, hwithin.of_rest h₂⟩

variable {f : AfterStatement → StatementReader → Build α}

/-- A statement is read, and then the stretch goes on. -/
theorem proceeds_inside (hread : Keeps p read) (h : Stretch p dispatch s A w.builder (C ++ L))
    (hC : C.Ends p w.current.toList) (hready : w.Ready p) {P : Ledger → Prop}
    (hkept : ∀ s₁ D, Stretch p w.targets.dispatch w.builder (pending w.current) s₁ D →
      ∃ L', L'.map (·.1) = L.map (·.1) ∧ P L' ∧ Stretch p dispatch s A s₁ (D ++ L'))
    (hf : ∀ next out s₁ D L', D.Ends p out.toList → P L' → w.builder.graph.Later s₁.graph →
      Stretch p dispatch s₁ (D ++ L').blocks s₁ (D ++ L') →
      Tells (f (next, out)) read s₁
        (fun w r a s' => ∃ M, E a M ∧ w.Within p handlers s₁ (D ++ L').blocks r M.blocks s')
        (fun a s' => ∃ M, E a M ∧ Stretch p dispatch s₁ (D ++ L').blocks s' M ∧
          (w.targets.handlers = handlers ∨ ∀ b, w.WorksOn s₁ b →
            b ∉ M.blocks ∧ ∀ hs, w.targets.handlers = some hs → ∀ h ∈ hs, s'.graph.Throws b h))) :
    Proceeds p dispatch handlers E
      (fun read => read w.targets w.limit w.start w.current >>= fun a => f a read) read s A
      w.builder := by
  refine tells_read_bind w fun ⟨next, out⟩ s₁ hanswer a s' hrun => ?_
  obtain ⟨D, hD, h'⟩ := hread w hready _ _ hanswer
  obtain ⟨L', hL, hP, h₁⟩ := hkept s₁ D h'
  obtain ⟨⟨M, hM, hrest, hhandlers⟩, hvisits⟩ :=
    hf next out s₁ D L' hD hP h'.later h₁.again a s' hrun
  refine ⟨⟨⟨M, hM, h₁.trans hrest⟩, M, hM, h.within hC hready hD hL hrest hhandlers⟩, fun u => ?_⟩
  refine (hvisits u).imp_left ?_
  rintro ⟨r, hanswer, M₁, hM₁, hwithin⟩
  exact ⟨r, hanswer, M₁, hM₁, hwithin.of_rest h₁⟩

/-- A statement is read inside the same statements as far as labels and exceptions go, and then the
stretch goes on. -/
theorem proceeds_read {targets : JumpTargets} {limit : TokenId} {start : Option TokenId}
    {current : Option BlockId} (hread : Keeps p read) (h : Stretch p dispatch s A s₁ (C ++ L))
    (hC : C.Ends p current.toList) (htargets : targets.Fit s₁.board)
    (hd : targets.dispatch = dispatch) (hhandlers : targets.handlers = handlers)
    (hf : ∀ next out s₂ D, D.Ends p out.toList → s₁.graph.Later s₂.graph →
      Stretch p dispatch s₂ (D ++ L).blocks s₂ (D ++ L) →
      Proceeds p dispatch handlers E (f (next, out)) read s₂ (D ++ L).blocks s₂) :
    Proceeds p dispatch handlers E
      (fun read => read targets limit start current >>= fun a => f a read) read s A s₁ := by
  have hready : Visit.Ready p ⟨targets, limit, start, current, s₁⟩ := by
    refine .of_stretch h hC htargets fun d hdispatch => ?_
    obtain ⟨hinner, hheld, hout⟩ := h.outer d (hd.symm.trans hdispatch)
    refine ⟨hinner, Nat.lt_of_lt_of_le hheld h.grows.size, fun hcurrent => ?_⟩
    refine h.grows.not_mem hheld hout ?_
    rw [Ledger.mem_blocks, List.map_append]
    exact List.mem_append_left _ (hC.mem_blocks.2 hcurrent)
  refine proceeds_inside (P := (· = L)) (w := ⟨targets, limit, start, current, s₁⟩) hread h hC
    hready (fun s₂ D h' => ⟨L, rfl, rfl, h.read hC hd h'⟩) ?_
  rintro next out s₂ D _ hD rfl hlater h'
  refine (hf next out s₂ D hD hlater h').mono ?_
  exact fun a s' ⟨M, hM, hrest⟩ => ⟨M, hM, hrest, .inl hhandlers⟩

/-- From a builder on, the step brings the reading of a statement to its end. -/
abbrev Continues (p : Program) (v : Visit) (F : StatementReader → Build AfterStatement)
    (read : StatementReader) (s : BodyBuilder) : Prop :=
  Proceeds p v.targets.dispatch v.targets.handlers (fun a M => M.Ends p a.2.toList) F read
    v.builder (pending v.current) s

/-- What reading a statement tells: its outcome, and what has become of the statements inside. -/
abbrev TellsOutcome (p : Program) (v : Visit) (F : StatementReader → Build AfterStatement)
    (read : StatementReader) : Prop := Continues p v F read v.builder

/-- The step brings to its end a statement without others inside. -/
abbrev Concludes (p : Program) (v : Visit) (m : Build AfterStatement) (s : BodyBuilder) : Prop :=
  Gives m s (fun a s' => ∃ M : Ledger, M.Ends p a.2.toList ∧
    Stretch p v.targets.dispatch v.builder (pending v.current) s' M)

end Body

end DivisorCheck
