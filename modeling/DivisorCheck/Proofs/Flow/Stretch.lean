/-
  Stretches of building, step by step.

  A stretch keeps a ledger of the blocks on which work goes on, each with what it
  looks like at the moment.  A step of building needs only the entries that it
  changes: it adds one for a new block, changes one as edges and tokens are added, and
  strikes one out when the block is finished.  What a statement inside another one
  does is one entry exchanged for another, that of the block that is live before it
  for that of the block that is live after it.
-/
import DivisorCheck.Proofs.Flow.Shape

namespace DivisorCheck

open Board

/-! ### Ledgers -/

/-- Blocks on which work goes on, and what each of them looks like. -/
abbrev Ledger := List (BlockId × Look)

namespace Ledger

/-- The blocks of a ledger. -/
def blocks (L : Ledger) : Set BlockId := { b | b ∈ L.map (·.1) }

@[simp] theorem mem_blocks {L : Ledger} {b : BlockId} : b ∈ L.blocks ↔ b ∈ L.map (·.1) := Iff.rfl

/-- The blocks of the ledger are given ones, and all of them are live. -/
structure Ends (p : Program) (C : Ledger) (bs : List BlockId) : Prop where
  blocks : C.map (·.1) = bs
  live : ∀ x ∈ C, p.Live x.2

theorem Ends.mem_blocks {p : Program} {C : Ledger} {b : Option BlockId} (h : C.Ends p b.toList)
    {c : BlockId} : c ∈ C.map (·.1) ↔ b = some c := by
  rw [h.blocks, Option.mem_toList]

theorem Ends.blocks_eq {p : Program} {C : Ledger} {b : Option BlockId} (h : C.Ends p b.toList) :
    C.blocks = Board.pending b := Set.ext fun _ => h.mem_blocks

theorem Ends.nil (p : Program) : Ends p [] [] := ⟨rfl, nofun⟩

theorem Ends.single {p : Program} {b : BlockId} {l : Look} (hl : p.Live l) : Ends p [(b, l)] [b] := by
  refine ⟨rfl, fun x hx => ?_⟩
  rw [List.mem_singleton.1 hx]
  exact hl

theorem Ends.append {p : Program} {C D : Ledger} {bs cs : List BlockId} (hC : C.Ends p bs)
    (hD : D.Ends p cs) : Ends p (C ++ D) (bs ++ cs) := by
  refine ⟨by rw [List.map_append, hC.blocks, hD.blocks], fun x hx => ?_⟩
  exact (List.mem_append.1 hx).elim (hC.live x) (hD.live x)

/-- One more end that may be live. -/
theorem Ends.cons {p : Program} {C D : Ledger} {b : Option BlockId} {ends : List (Option BlockId)}
    (hC : C.Ends p b.toList) (hD : D.Ends p (ends.filterMap id)) :
    Ends p (C ++ D) ((b :: ends).filterMap id) := by
  have hboth := hC.append hD
  cases b with
  | none => exact hboth
  | some b => exact hboth

theorem Ends.mem_append {p : Program} {C L : Ledger} {bs : List BlockId} (h : C.Ends p bs)
    {c : BlockId} : c ∈ (C ++ L).blocks ↔ c ∈ bs ∨ c ∈ L.blocks := by
  rw [Ledger.mem_blocks, List.map_append, List.mem_append, h.blocks]
  rfl

end Ledger

/-- A stretch of building from one builder to another, with the ledger that it leaves. -/
structure BodyBuilder.Stretch (p : Program) (dispatch : Option BlockId) (s : BodyBuilder)
    (A : Set BlockId) (s' : BodyBuilder) (L : Ledger) : Prop where
  start : s.Sound
  sound : s'.Sound
  later : s.graph.Later s'.graph
  grows : Grows p dispatch s.board A s'.board L.blocks
  looks : ∀ x ∈ L, s'.board.look x.1 = x.2
  nodup : (L.map (·.1)).Nodup
  inner : ∀ b ∈ A, 2 ≤ b
  /-- there is no work on the dispatch block -/
  outer : ∀ d, dispatch = some d → 2 ≤ d ∧ d < s.board.size ∧ d ∉ A

namespace BodyBuilder.Stretch

open Build

variable {p : Program} {dispatch dispatch' : Option BlockId} {s s₁ s₂ s₃ : BodyBuilder}
  {A : Set BlockId} {C D L L' : Ledger} {b dst : BlockId} {l : Look}

/-- Nothing has been done yet. -/
theorem refl (hs : s.Sound) (hlooks : ∀ x ∈ L, s.board.look x.1 = x.2)
    (hnodup : (L.map (·.1)).Nodup) (hL : ∀ b ∈ L.blocks, 2 ≤ b ∧ b < s.board.size)
    (hd : ∀ d, dispatch = some d → 2 ≤ d ∧ d < s.board.size ∧ d ∉ L.blocks) :
    Stretch p dispatch s L.blocks s L :=
  ⟨hs, hs, .refl _, .refl fun b hb => (hL b hb).2, hlooks, hnodup, fun b hb => (hL b hb).1, hd⟩

theorem fits_exit (h : Stretch p dispatch s A s₁ L) : s₁.board.Fits s₁.graph.exit := by
  rw [h.sound.graph.exit]
  exact h.sound.stage.fits_exit

theorem stage (h : Stretch p dispatch s A s₁ L) : Stage s s₁.board s₁ := ⟨h.sound, h.later, rfl⟩

theorem two_le (h : Stretch p dispatch s A s₁ L) : 2 ≤ s₁.board.size := h.sound.stage.two_le

/-- Work is done on blocks that may be left. -/
theorem source (h : Stretch p dispatch s A s₁ L) (hb : b ∈ L.blocks) :
    2 ≤ b ∧ b < s₁.board.size := by
  refine ⟨?_, h.grows.open_lt b hb⟩
  rcases h.grows.open_mem b hb with hsize | hA
  · exact Nat.le_trans h.start.stage.two_le hsize
  · exact h.inner b hA

/-- Work is done on blocks that may be entered, if they are no dead code. -/
theorem fits (h : Stretch p dispatch s A s₁ L) (hb : (b, l) ∈ L) (hl : l.kind ≠ .unreachable) :
    s₁.board.Fits b := by
  obtain ⟨hinner, hheld⟩ := h.source (List.mem_map_of_mem hb)
  refine ⟨Nat.ne_of_gt (Nat.lt_of_lt_of_le Nat.zero_lt_two hinner), hheld, ?_⟩
  rw [h.looks _ hb]
  exact hl

/-- The order of a ledger does not matter. -/
theorem perm (h : Stretch p dispatch s A s₁ L) (hL : L.Perm L') : Stretch p dispatch s A s₁ L' := by
  have hblocks : L.blocks = L'.blocks := Set.ext fun b => (hL.map _).mem_iff
  refine { h with grows := hblocks ▸ h.grows, looks := ?_, nodup := ?_ }
  · exact fun x hx => h.looks x (hL.mem_iff.2 hx)
  · exact (hL.map _).nodup_iff.1 h.nodup

theorem second {x y : BlockId × Look} (h : Stretch p dispatch s A s₁ (x :: y :: L)) :
    Stretch p dispatch s A s₁ (y :: x :: L) := h.perm (.swap ..)

theorem third {x y z : BlockId × Look} (h : Stretch p dispatch s A s₁ (x :: y :: z :: L)) :
    Stretch p dispatch s A s₁ (z :: x :: y :: L) := by
  have hmiddle : ([x, y] ++ z :: L).Perm (z :: ([x, y] ++ L)) := List.perm_middle
  exact h.perm hmiddle

theorem last_one {x : BlockId × Look} (h : Stretch p dispatch s A s₁ (x :: C)) :
    Stretch p dispatch s A s₁ (C ++ [x]) := h.perm (List.perm_append_singleton x C).symm

theorem last_first {x y : BlockId × Look} (h : Stretch p dispatch s A s₁ (x :: (C ++ [y]))) :
    Stretch p dispatch s A s₁ (y :: x :: C) := h.perm (List.perm_append_singleton y (x :: C))

theorem last_two {x y : BlockId × Look} (h : Stretch p dispatch s A s₁ (x :: y :: C)) :
    Stretch p dispatch s A s₁ (C ++ [x, y]) := by
  have hcomm : ([x, y] ++ C).Perm (C ++ [x, y]) := List.perm_append_comm
  exact h.perm hcomm

/-- A block is finished. -/
theorem close (h : Stretch p dispatch s A s₁ ((b, l) :: L)) (hl : p.Finished l) :
    Stretch p dispatch s A s₁ L := by
  refine { h with grows := h.grows.close ?_ ?_, looks := ?_, nodup := ?_ }
  · exact fun c hc => List.mem_cons_of_mem _ hc
  · intro c hc hnot
    rcases List.mem_cons.1 hc with rfl | hc
    · rw [h.looks _ (List.mem_cons_self ..)]
      exact hl
    · exact absurd hc hnot
  · exact fun x hx => h.looks x (List.mem_cons_of_mem _ hx)
  · exact (List.nodup_cons.1 h.nodup).2

theorem newBlock (h : Stretch p dispatch s A s₁ L) (kind : BlockKind) (ts : List TokenId) :
    Gives (newBlock kind ts) s₁ (fun b s' => b = s₁.board.size ∧
      Stretch p dispatch s A s' ((b, { tokens := ts, kind }) :: L)) := by
  refine (gives_newBlock h.stage kind ts).mono ?_
  rintro b s' ⟨rfl, h'⟩
  have hboard := h'.board
  have hgrows := h.grows.add kind ts
  have hlt : ∀ x ∈ L, x.1 ≠ s₁.board.size := fun x hx =>
    Nat.ne_of_lt (h.source (List.mem_map_of_mem hx)).2
  rw [← hboard] at hgrows
  refine ⟨rfl, h.start, h'.sound, h'.later, ?_, ?_, ?_, h.inner, h.outer⟩
  · have hblocks : Ledger.blocks ((s₁.board.size, { tokens := ts, kind }) :: L) =
        insert s₁.board.size L.blocks := Set.ext fun b => List.mem_cons
    rw [hblocks]
    exact hgrows
  · intro x hx
    rw [hboard, add_look]
    rcases List.mem_cons.1 hx with rfl | hx
    · exact if_pos rfl
    · rw [if_neg (hlt x hx)]
      exact h.looks x hx
  · refine List.nodup_cons.2 ⟨fun hmem => ?_, h.nodup⟩
    obtain ⟨x, hx, heq⟩ := List.mem_map.1 hmem
    exact hlt x hx heq

/-- A step that changes one block on which work goes on. -/
theorem change (h : Stretch p dispatch s A s₁ ((b, l) :: L)) {f : Look → Look}
    (h' : Stage s (s₁.board.change b f) s₂) : Stretch p dispatch s A s₂ ((b, f l) :: L) := by
  have hboard := h'.board
  have hgrows := h.grows.change (List.mem_cons_self ..) f
  rw [← hboard] at hgrows
  refine ⟨h.start, h'.sound, h'.later, hgrows, ?_, h.nodup, h.inner, h.outer⟩
  intro x hx
  rw [hboard, change_look]
  rcases List.mem_cons.1 hx with rfl | hrest
  · exact (if_pos rfl).trans (congrArg f (h.looks _ (List.mem_cons_self ..)))
  · have hmem : x.1 ∈ L.map (·.1) := List.mem_map_of_mem hrest
    have hne : x.1 ≠ b := fun heq => (List.nodup_cons.1 h.nodup).1 (heq ▸ hmem)
    rw [if_neg hne]
    exact h.looks x (List.mem_cons_of_mem _ hrest)

theorem edge (h : Stretch p dispatch s A s₁ ((b, l) :: L)) (hdst : s₁.board.Fits dst)
    (kind : EdgeKind) :
    Gives (edge b dst kind none none) s₁
      (fun _ s' => Stretch p dispatch s A s' ((b, l.leave kind) :: L)) := by
  obtain ⟨hinner, hheld⟩ := h.source (List.mem_cons_self ..)
  exact (gives_edge h.stage hinner hheld hdst kind none none).mono fun _ _ h' => h.change h'.1

theorem append (h : Stretch p dispatch s A s₁ ((b, l) :: L)) (ts : List TokenId) :
    Gives (append b ts) s₁ (fun _ s' =>
      Stretch p dispatch s A s' ((b, { l with tokens := l.tokens ++ ts }) :: L)) :=
  (gives_append h.stage (h.source (List.mem_cons_self ..)).2 ts).mono fun _ _ h' => h.change h'

theorem returning (h : Stretch p dispatch s A s₁ ((b, l) :: L)) :
    Gives (modify fun s => { s with graph := s.graph.setKind b .returning }) s₁ (fun _ s' =>
      Stretch p dispatch s A s' ((b, { l with kind := .returning }) :: L)) :=
  (gives_returning h.stage (h.source (List.mem_cons_self ..)).2).mono fun _ _ h' => h.change h'

/-- The live block, if there is one, is left for another one and so is finished. -/
theorem finish {src : Option BlockId} {kind : EdgeKind} (h : Stretch p dispatch s A s₁ (C ++ L))
    (hC : C.Ends p src.toList) (hdst : s₁.board.Fits dst)
    (hkind : kind = .fallThrough ∨ kind = .backEdge) :
    Gives (edgeFrom src dst kind) s₁ (fun _ s' => Stretch p dispatch s A s' L) := by
  cases src with
  | none =>
    obtain rfl : C = [] := List.map_eq_nil_iff.1 hC.blocks
    exact gives_pure h
  | some b =>
    obtain ⟨⟨_, l⟩, rfl, rfl⟩ := List.map_eq_singleton_iff.1 hC.blocks
    have hl : p.Live l := hC.live _ (List.mem_singleton_self _)
    exact (h.edge hdst kind).mono fun _ _ h' => h'.close (hl.finished hkind)

/-- Live blocks are left for another one, and so are finished. -/
theorem finish_all {bs : List BlockId} (h : Stretch p dispatch s A s₁ (C ++ L))
    (hC : C.Ends p bs) (hdst : (dst, l) ∈ L) (hl : l.kind ≠ .unreachable) :
    Gives (bs.forM (fun b => Build.edge b dst)) s₁ (fun _ s' => Stretch p dispatch s A s' L) := by
  induction bs generalizing C s₁ with
  | nil =>
    obtain rfl : C = [] := List.map_eq_nil_iff.1 hC.blocks
    exact gives_pure h
  | cons b bs ih =>
    obtain ⟨⟨_, l'⟩, C, rfl, rfl, hblocks⟩ := List.map_eq_cons_iff.1 hC.blocks
    have hlive : p.Live l' := hC.live _ (List.mem_cons_self ..)
    have hfits := h.fits (List.mem_append_right _ hdst) hl
    refine (h.edge hfits .fallThrough).bind fun _ s₂ h₂ => ?_
    exact ih (h₂.close (hlive.finished (.inl rfl)))
      ⟨hblocks, fun x hx => hC.live x (List.mem_cons_of_mem _ hx)⟩

/-- The ends that are live are joined, and so are finished. -/
theorem merge {ends : List (Option BlockId)} (h : Stretch p dispatch s A s₁ C)
    (hC : C.Ends p (ends.filterMap id)) (kind : BlockKind) (hkind : kind ≠ .unreachable) :
    Gives (merge kind ends) s₁ (fun out s' => ∃ M : Ledger, M.Ends p out.toList ∧
      Stretch p dispatch s A s' M) := by
  unfold Build.merge
  split
  · rename_i hnone
    rw [hnone] at hC
    obtain rfl : C = [] := List.map_eq_nil_iff.1 hC.blocks
    exact gives_pure ⟨[], .nil p, h⟩
  · refine (h.newBlock kind []).bind fun merged s₂ ⟨_, h₂⟩ => ?_
    refine (h₂.last_one.finish_all hC (.head _) hkind).bind fun _ s₃ h₃ => ?_
    exact gives_pure ⟨_, .single .of_empty, h₃⟩

/-- The live block, or a new one for dead code. -/
theorem live {current : Option BlockId} (h : Stretch p dispatch s A s₁ C)
    (hC : C.Ends p current.toList) :
    Gives (live current) s₁ (fun b s' => ∃ l, p.Live l ∧ Stretch p dispatch s A s' [(b, l)]) := by
  cases current with
  | none =>
    obtain rfl : C = [] := List.map_eq_nil_iff.1 hC.blocks
    exact (h.newBlock .unreachable []).mono fun b s' h' => ⟨_, .of_empty, h'.2⟩
  | some b =>
    obtain ⟨⟨_, l⟩, rfl, rfl⟩ := List.map_eq_singleton_iff.1 hC.blocks
    exact gives_pure ⟨l, hC.live _ (List.mem_singleton_self _), h⟩

/-- An exception may pass from any block; this changes nothing that matters about it. -/
theorem exception (h : Stretch p dispatch s A s₁ L) (hinner : 2 ≤ b) (hb : b < s₁.board.size)
    (hdst : s₁.board.Fits dst) :
    Gives (Build.edge b dst .exception) s₁ (fun _ s' => Stretch p dispatch s A s' L ∧
      s'.board = s₁.board ∧ { src := b, dst, kind := .exception } ∈ s'.graph.succEdges b) := by
  refine (gives_edge h.stage hinner hb hdst .exception none none).mono fun _ s' ⟨h', hedge⟩ => ?_
  -- Exceptions are not counted among the exits of a block, so the board stays as it is.
  have hsame : s₁.board.leave b .exception = s₁.board :=
    Board.ext rfl (funext fun c => ite_self _)
  rw [hsame] at h'
  refine ⟨⟨h.start, h'.sound, h'.later, ?_, ?_, h.nodup, h.inner, h.outer⟩, h'.board, hedge⟩
  · rw [h'.board]
    exact h.grows
  · rw [h'.board]
    exact h.looks

/-- One stretch after another. -/
theorem trans (h₁ : Stretch p dispatch s A s₁ L) (h₂ : Stretch p dispatch s₁ L.blocks s₂ L') :
    Stretch p dispatch s A s₂ L' := by
  -- The second stretch takes over all blocks of the ledger, and none is left beside its own.
  have hgrows := h₁.grows.trans h₂.grows subset_rfl
    (.inl ⟨rfl, fun d hd => (h₁.outer d hd).2⟩)
  have hblocks : L.blocks \ L.blocks ∪ L'.blocks = L'.blocks :=
    Set.union_eq_right.2 fun b hb => absurd hb.1 hb.2
  rw [hblocks] at hgrows
  exact ⟨h₁.start, h₂.sound, h₁.later.trans h₂.later, hgrows, h₂.looks, h₂.nodup, h₁.inner, h₁.outer⟩

/-- From here on. -/
theorem again (h : Stretch p dispatch s A s₁ L) : Stretch p dispatch s₁ L.blocks s₁ L := by
  refine refl h.sound h.looks h.nodup (fun b hb => h.source hb) fun d hd => ?_
  obtain ⟨hinner, hheld, hout⟩ := h.outer d hd
  exact ⟨hinner, Nat.lt_of_lt_of_le hheld h.grows.size, h.grows.not_mem hheld hout⟩

/-- Exceptions may pass from a block to given ones. -/
theorem exceptions (h : Stretch p dispatch s A s₁ L) (hinner : 2 ≤ b) (hb : b < s₁.board.size)
    {hs : List BlockId} (hfits : ∀ dst ∈ hs, s₁.board.Fits dst) :
    Gives (hs.forM (fun dst => Build.edge b dst .exception)) s₁ (fun _ s' =>
      Stretch p dispatch s₁ L.blocks s' L ∧ s'.board = s₁.board ∧
        ∀ dst ∈ hs, { src := b, dst, kind := .exception } ∈ s'.graph.succEdges b) := by
  induction hs generalizing s s₁ A with
  | nil => exact gives_pure ⟨h.again, rfl, nofun⟩
  | cons dst hs ih =>
    refine (h.again.exception hinner hb (hfits dst (.head _))).bind fun _ s₂ ⟨h₂, hboard, hedge⟩ => ?_
    have hrest : ∀ c ∈ hs, s₂.board.Fits c := fun c hc => hboard ▸ hfits c (.tail _ hc)
    refine (ih h₂ (hboard ▸ hb) hrest).mono fun _ s' ⟨h', hboard', hedges⟩ => ?_
    refine ⟨h₂.trans h', hboard'.trans hboard, fun c hc => ?_⟩
    rcases List.mem_cons.1 hc with rfl | hc
    · exact h₂.sound.graph.mem_succEdges_later h'.sound.graph h'.later hedge
    · exact hedges c hc

/-- A label is added to the dispatch block. -/
theorem label (h : Stretch p dispatch s A s₁ L) (hd : dispatch = some b) (hdst : s₁.board.Fits dst)
    (kind : EdgeKind) (hkind : kind.isCase = true) (text : Option String) (value : Option TokenId) :
    Gives (Build.edge b dst kind text value) s₁ (fun _ s' => Stretch p dispatch s A s' L) := by
  obtain ⟨hinner, hheld, hout⟩ := h.outer b hd
  have hlt := Nat.lt_of_lt_of_le hheld h.grows.size
  refine (gives_edge h.stage hinner hlt hdst kind text value).mono fun _ s' h' => ?_
  have hboard := h'.1.board
  have hgrows := h.grows.label hd hheld hout hkind
  rw [← hboard] at hgrows
  refine ⟨h.start, h'.1.sound, h'.1.later, hgrows, ?_, h.nodup, h.inner, h.outer⟩
  intro x hx
  have hne : x.1 ≠ b := by
    rintro rfl
    exact h.grows.not_mem hheld hout (List.mem_map_of_mem hx)
  rw [hboard, leave_look, if_neg hne]
  exact h.looks x hx

/-- A stretch inside another one has worked on the live block and leaves another one live, or none.
Labels have been added to the same dispatch block as before, or to one on which work goes on. -/
theorem exchange {current : Option BlockId} (h : Stretch p dispatch s A s₁ (C ++ L))
    (hC : C.Ends p current.toList) (h' : Stretch p dispatch' s₁ (pending current) s₂ D)
    (hd : dispatch' = dispatch ∨ ∃ b ∈ L.blocks, dispatch' = some b)
    (hL : L'.map (·.1) = L.map (·.1)) (hlooks : ∀ x ∈ L', s₂.board.look x.1 = x.2) :
    Stretch p dispatch s A s₂ (D ++ L') := by
  obtain ⟨-, hrest, hapart⟩ := List.nodup_append.1 (List.map_append ▸ h.nodup)
  have hmem : ∀ c, c ∈ (C ++ L).blocks ↔ current = some c ∨ c ∈ L.map (·.1) := by
    intro c
    rw [Ledger.mem_blocks, List.map_append, List.mem_append, hC.mem_blocks]
  -- The inner stretch does not know of the rest of the ledger: these blocks are old and not live.
  have hother : ∀ c ∈ L.map (·.1), c < s₁.board.size ∧ current ≠ some c := by
    intro c hc
    refine ⟨(h.source ((hmem c).2 (.inr hc))).2, fun hcurrent => ?_⟩
    exact hapart c (hC.mem_blocks.2 hcurrent) c hc rfl
  have hgrows := h.grows.trans h'.grows (fun c hc => (hmem c).2 (.inl hc)) (hd.imp
    (fun heq => ⟨heq, fun d hd => (h.outer d hd).2⟩) ?_)
  · have hblocks : (C ++ L).blocks \ pending current ∪ D.blocks = (D ++ L').blocks := by
      ext c
      rw [Set.mem_union, Set.mem_sdiff, hmem, mem_pending, Ledger.mem_blocks, Ledger.mem_blocks,
        List.map_append, List.mem_append, hL]
      constructor
      · rintro (⟨hin, hnot⟩ | hin)
        · exact .inr (hin.resolve_left hnot)
        · exact .inl hin
      · rintro (hin | hin)
        · exact .inr hin
        · exact .inl ⟨.inr hin, (hother c hin).2⟩
    rw [hblocks] at hgrows
    refine ⟨h.start, h'.sound, h.later.trans h'.later, hgrows, ?_, ?_, h.inner, h.outer⟩
    · intro x hx
      rcases List.mem_append.1 hx with hx | hx
      · exact h'.looks x hx
      · exact hlooks x hx
    · rw [List.map_append, hL]
      refine List.nodup_append.2 ⟨h'.nodup, hrest, ?_⟩
      rintro c hc _ hcL rfl
      exact h'.grows.not_mem (hother c hcL).1 (hother c hcL).2 hc
  · rintro ⟨b, hb, rfl⟩ d heq
    obtain rfl := Option.some.inj heq
    exact ⟨(hmem b).2 (.inr hb), (hother b hb).2⟩

end BodyBuilder.Stretch

end DivisorCheck
