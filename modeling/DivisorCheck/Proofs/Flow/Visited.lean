/-
  What becomes of the statements that are read on the way.

  What a statement of a body has worked on and left behind stays as it is until the
  body has been read; and if it stands in the body of a `try`, then in the graph of
  the function an exception may pass from each block that it has worked on to each
  handler, unless the block is dead code.

  The induction is on the statements around.  For each of them, reading tells what it
  does with the statements inside (`Body.TellsOutcome`).
-/
import DivisorCheck.Proofs.Flow.Built

namespace DivisorCheck

open Board

/-- What has become of a statement by the time that more of its body has been read. -/
structure Visit.Stands (p : Program) (w : Visit) (a : AfterStatement) (s s' : BodyBuilder) : Prop where
  ready : w.Ready p
  sound : s.Sound
  later : s.graph.Later s'.graph
  settled : ∀ b, w.WorksOn s b → a.2 ≠ some b → (s'.board.look b).kind = (s.board.look b).kind
  throws : ∀ hs, w.targets.handlers = some hs → ∀ b, w.WorksOn s b →
    ∀ h ∈ hs, s'.graph.Throws b h

namespace Body

open Build BodyBuilder

variable {p : Program} {name : Option String} {first last : TokenId} {depth : Nat} {v w : Visit}

/-- A statement that is read inside another one stands as that one does. -/
theorem stands_inside {a a' : AfterStatement} {s₁ s₂ s' : BodyBuilder} {M : Ledger}
    (hs' : s'.Sound) (hv : v.Stands p a s₂ s') (hM : M.Ends p a.2.toList) (hs₁ : s₁.Sound)
    (h : w.Within p v.targets.handlers v.builder (pending v.current) (a', s₁) M.blocks s₂) :
    w.Stands p a' s₁ s' := by
  have hworks : ∀ b, w.WorksOn s₁ b → v.WorksOn s₂ b := by
    rintro b ⟨hheld, hnew⟩
    refine ⟨Nat.lt_of_lt_of_le hheld h.after.size, ?_⟩
    rcases hnew with hsize | hcurrent
    · exact .inl (Nat.le_trans h.before.size hsize)
    · exact h.current b hcurrent
  have hend : ∀ b, b ∉ M.blocks → a.2 ≠ some b := fun b hb heq => hb (hM.mem_blocks.2 heq)
  refine ⟨h.ready, hs₁, h.after.trans hv.later, fun b hb hout => ?_, fun hs heq b hb dst hdst => ?_⟩
  -- What the inner statement has left behind, the outer one has left behind as well.
  · obtain ⟨hnot, hkind⟩ := h.settled b hb hout
    exact (hv.settled b (hworks b hb) (hend b hnot)).trans hkind
  · rcases h.handlers with hsame | hthrows
    · exact hv.throws hs (hsame ▸ heq) b (hworks b hb) dst hdst
    · obtain ⟨hnot, hall⟩ := hthrows b hb
      have hkind := hv.settled b (hworks b hb) (hend b hnot)
      exact (hall hs heq dst hdst).later hv.sound hs' hv.later hkind

/-- **What has been read stands**, when the row of statements of the body has been read. -/
theorem stands_of_reaches {out : Option BlockId} {s : BodyBuilder}
    (hrow : RowRead p name first last out s) (h : Reaches p name first last depth v) :
    ∃ a s₁, (statement p depth).answer v = .ok (a, s₁) ∧ v.Stands p a s₁ s := by
  have hs : s.Sound := by
    obtain ⟨M, -, hstretch⟩ := (row_tells p name first last).gives _ _ hrow
    exact hstretch.sound
  have hsound : ∀ {d w a s₁}, (statement p d).answer w = .ok (a, s₁) → w.Ready p → s₁.Sound := by
    intro d w a s₁ hanswer hready
    obtain ⟨C, -, hstretch⟩ := keeps_statement p d w hready a s₁ hanswer
    exact hstretch.sound
  induction h with
  | row hvisit =>
    obtain ⟨⟨a, s₁⟩, hanswer, M, -, h⟩ := (row_tells p name first last).of_visits hrow hvisit
    refine ⟨a, s₁, hanswer, h.ready, hsound hanswer h.ready, h.after,
      fun b hb hout => (h.settled b hb hout).2, fun hs heq b hb dst hdst => ?_⟩
    rcases h.handlers with hnone | hthrows
    · rw [hnone] at heq
      cases heq
    · exact (hthrows b hb).2 hs heq dst hdst
  | @inside depth v w _ hvisit ih =>
    obtain ⟨a, s₂, hanswer, hstands⟩ := ih
    have htells := statementWith_tells (keeps_statement p depth) hstands.ready
    obtain ⟨⟨a', s₁⟩, hanswer', M, hM, h⟩ := htells.of_visits hanswer hvisit
    exact ⟨a', s₁, hanswer', stands_inside hs hstands hM (hsound hanswer' h.ready) h⟩

/-! ### The body of a `try` -/

/-- The first part of two, if it has ended well. -/
theorem bind_of_ok {α β : Type} {m : Build α} {f : α → Build β} {s s₁ : BodyBuilder} {a : α}
    (h : m s = .ok (a, s₁)) : (m >>= f) s = f a s₁ := by
  change (m s >>= fun r => f r.1 r.2) = _
  rw [h]
  rfl

/-- Where the first part of two stops, both do. -/
theorem bind_of_error {α β : Type} {m : Build α} {f : α → Build β} {s : BodyBuilder} {e : BodyError}
    (h : m s = .error e) : (m >>= f) s = .error e := by
  change (m s >>= fun r => f r.1 r.2) = _
  rw [h]
  rfl

/-- What comes before the body of a `try`: a block of its own, and one for each handler. -/
def openTry (p : Program) (current : Option BlockId) (close : TokenId) :
    Build (BlockId × List (TokenId × BlockId)) := do
  let tryBlock ← newBlock .tryBody
  edgeFrom current tryBlock
  let (clauses, _) ← Body.handlers p (p.tokens.size + 1) (p.nextOf close)
  pure (tryBlock, clauses)

/-- The statement is the body of a `try`, whose handlers have received their blocks. -/
def TriedIn (p : Program) (v : Visit) (brace close : TokenId) (clauses : List (TokenId × BlockId))
    (w : Visit) : Prop :=
  ∃ tryBlock s, openTry p v.current close v.builder = .ok ((tryBlock, clauses), s) ∧
    w = ⟨{ v.targets with handlers := some (clauses.map (·.2)) }, v.limit, some brace,
      some tryBlock, s⟩

/-- Where a `try` is read, so is its body. -/
theorem visits_tryBody {read : StatementReader} {t brace close : TokenId} {a : AfterStatement}
    {s' : BodyBuilder} (hbody : braced? p (p.nextOf t) = some (brace, close))
    (hrun : tryStatement p read v.targets v.limit t v.current v.builder = .ok (a, s')) :
    ∃ clauses w, TriedIn p v brace close clauses w ∧
      Visits (fun read => tryStatement p read v.targets v.limit t v.current) read v.builder w := by
  unfold tryStatement at hrun
  simp only [hbody] at hrun
  obtain ⟨tryBlock, s₁, hnew, hrun⟩ := bind_ok.1 hrun
  obtain ⟨_, s₂, hedge, hrun⟩ := bind_ok.1 hrun
  obtain ⟨⟨clauses, next⟩, s₃, hhandlers, hrun⟩ := bind_ok.1 hrun
  have hopen : openTry p v.current close v.builder = .ok ((tryBlock, clauses), s₃) := by
    unfold openTry
    rw [bind_of_ok hnew, bind_of_ok hedge, bind_of_ok hhandlers]
    rfl
  refine ⟨clauses, _, ⟨tryBlock, s₃, hopen, rfl⟩, fun e => ?_⟩
  -- Up to the body nothing is read, so a reader that stops at the body gets there in the same way.
  dsimp only
  unfold tryStatement
  simp only [hbody]
  rw [bind_of_ok hnew, bind_of_ok hedge, bind_of_ok hhandlers]
  have hstate : (get : Build BodyBuilder) s₃ = .ok (s₃, s₃) := rfl
  rw [bind_of_ok hstate]
  exact bind_of_error (if_pos rfl)

theorem statementWith_try {read : StatementReader} {t brace close : TokenId}
    (hword : p.text t = "try") (hbody : braced? p (p.nextOf t) = some (brace, close))
    (targets : JumpTargets) (limit : TokenId) (current : Option BlockId) :
    statementWith p read targets limit (some t) current =
      tryStatement p read targets limit t current := by
  have hbrace : p.textOf (p.nextOf t) = "\x7b" := by
    obtain ⟨hnext, -⟩ := of_braced? hbody
    rw [hnext] at hbody ⊢
    unfold braced? at hbody
    dsimp only at hbody
    split_ifs at hbody with htext
    exact htext
  unfold statementWith
  simp [hword, hbrace]

/-- The body of every `try` that is read is read. -/
theorem exists_tryBody {out : Option BlockId} {s : BodyBuilder}
    (hrow : RowRead p name first last out s) (h : Reaches p name first last (depth + 1) v)
    {t brace close : TokenId} (ht : v.start = some t) (hword : p.text t = "try")
    (hbody : braced? p (p.nextOf t) = some (brace, close)) :
    ∃ clauses w, TriedIn p v brace close clauses w ∧ Reaches p name first last depth w := by
  obtain ⟨a, s₁, hanswer, -⟩ := stands_of_reaches hrow h
  have hstatement : ∀ read : StatementReader,
      statementWith p read v.targets v.limit v.start v.current =
        tryStatement p read v.targets v.limit t v.current := by
    intro read
    rw [ht]
    exact statementWith_try hword hbody _ _ _
  have hrun : statementWith p (statement p depth) v.targets v.limit v.start v.current v.builder =
      .ok (a, s₁) := hanswer
  rw [hstatement] at hrun
  obtain ⟨clauses, w, htried, hvisits⟩ := visits_tryBody hbody hrun
  refine ⟨clauses, w, htried, .inside h ?_⟩
  simpa only [hstatement] using hvisits

/-- The first statement of a body is read. -/
theorem reaches_first {t : TokenId} (hnext : p.nextOf first = some t) (ht : t ≠ last) :
    Reaches p name first last (depthLimit p) ⟨{}, last, some t, some 2, begun name⟩ := by
  refine .row fun e => ?_
  rw [hnext]
  unfold statements
  simp only [ht, if_false]
  exact bind_of_error (if_pos rfl)

end Body

/-! ### Where exceptions may pass -/

/-- The tokens that reading the statement has put into a block. -/
def Visit.placed (w : Visit) (s : BodyBuilder) (b : BlockId) : List TokenId :=
  (s.graph.block b).tokens.drop (w.builder.graph.block b).tokens.length

namespace Body

open BodyBuilder

variable {p : Program} {name : Option String} {first last : TokenId} {depth : Nat} {w : Visit}

/-- Tokens are put only into blocks that are worked on. -/
theorem worksOn_of_placed {a : AfterStatement} {s : BodyBuilder} {b : BlockId} (hw : w.Ready p)
    (hanswer : (statement p depth).answer w = .ok (a, s)) (hplaced : w.placed s b ≠ []) :
    w.WorksOn s b := by
  obtain ⟨C, -, h⟩ := keeps_statement p depth w hw a s hanswer
  have hheld : b < s.board.size := by
    by_contra hno
    refine hplaced ?_
    rw [Visit.placed, FlowGraph.block_of_not_held hno]
    exact List.drop_nil
  refine ⟨hheld, ?_⟩
  by_contra hno
  rw [not_or, Nat.not_le] at hno
  refine hplaced ?_
  -- A block that is not worked on receives labels at most.
  have hkept := h.grows.kept b hno.1 hno.2
  have htokens : (s.graph.block b).tokens = (w.builder.graph.block b).tokens := by
    rcases hkept with heq | ⟨-, more, heq⟩
    · exact congrArg Look.tokens heq
    · exact congrArg Look.tokens heq
  rw [Visit.placed, htokens]
  exact List.drop_length

/-- An exception may pass from each block that a statement in a `try` has put tokens into to each
handler of this `try`. -/
theorem throws_of_placed {s s₁ : BodyBuilder} {g : FlowGraph} {a : AfterStatement}
    (hbuilt : Built p s g) (hs : s.Sound) (hw : w.Stands p a s₁ s)
    (hanswer : (statement p depth).answer w = .ok (a, s₁)) {handlers : List BlockId}
    (hhandlers : w.targets.handlers = some handlers) {b : BlockId} (hplaced : w.placed s₁ b ≠ [])
    {h : BlockId} (hh : h ∈ handlers) : g.Throws b h := by
  have hworks := worksOn_of_placed hw.ready hanswer hplaced
  rcases hw.throws handlers hhandlers b hworks h hh with hedge | hdead
  · exact .inl (hs.graph.mem_succEdges_later hbuilt.sound hbuilt.later hedge)
  · exact .inr ((hbuilt.kind b).trans hdead)

end Body

end DivisorCheck
