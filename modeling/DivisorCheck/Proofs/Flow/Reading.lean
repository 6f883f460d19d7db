/-
  What each kind of statement adds to the graph, given what the statements inside it
  add.

  `Build.Follows` is what there is to show of a statement, and each lemma shows it
  of one function of the reader.  Compound statements begin with a block of their
  own and go on in another new one (`Sketch.Entered`, `Sketch.Opens`), so it is the
  paths from their first block that matter: a condition leads to the two sides, and
  each side is a piece read before, left for where the statement goes on.

  Where a statement takes many steps to draw, what is drawn is shown apart from what
  it does (`draws_forStatement`, `draws_doStatement`), and so is what its first blocks
  hold before the statements inside are read (`Sketch.forHead`, `Sketch.ifHead`).
-/
import DivisorCheck.Proofs.Code.Scanning
import DivisorCheck.Proofs.Flow.Growth

namespace DivisorCheck

open scoped Computability

theorem Sketch.Grows.le_of_out {k k' : Sketch} {b n : BlockId} {new : List Edge}
    {out : Option BlockId} (h : k.Grows (some b) new k' out) (hb : n ≤ b) (hk : n ≤ k.size) :
    ∀ c, out = some c → n ≤ c := by
  intro c hc
  rcases h.fresh c hc with heq | hle
  · exact Option.some.inj heq ▸ hb
  · exact Nat.le_trans hk hle

namespace Sketch

/-- With a block for a condition, and another one for where it leads if it holds. -/
def ifHead (k : Sketch) (cur : Option BlockId) (cond : List TokenId) : Sketch :=
  (((k.add cond).linkFrom cur k.size).add []).link
    { src := k.size, dst := k.size + 1, kind := .branchTrue }

variable {k : Sketch} {cur : Option BlockId}

theorem ifHead_cond (hk : k.Ready cur) (cond : List TokenId) :
    (k.ifHead cur cond).tokens k.size = cond ∧ (k.ifHead cur cond).succs k.size =
      [{ src := k.size, dst := k.size + 1, kind := .branchTrue }] := by
  have hcur : cur ≠ some k.size := hk.cur_ne (Nat.le_refl _)
  constructor
  · simp [ifHead]
  · simp [ifHead, hcur]

theorem ifHead_yes (k : Sketch) (cur : Option BlockId) (cond : List TokenId) :
    (k.ifHead cur cond).tokens (k.size + 1) = [] ∧ (k.ifHead cur cond).succs (k.size + 1) = [] := by
  constructor
  · simp [ifHead]
  · simp [ifHead]

theorem ifHead_entered (k : Sketch) (cur : Option BlockId) (cond : List TokenId) :
    k.Entered cur k.size (k.ifHead cur cond) :=
  (((Entered.refl k).add.enter cur k.size).add).link (Nat.le_refl _)

/-- With a block for where the condition leads if it does not hold. -/
def elseHead (k : Sketch) (cond : BlockId) : Sketch :=
  (k.add []).link { src := cond, dst := k.size, kind := .branchFalse }

section Fork

variable {k₂ k₄ k₅ : Sketch} {end₁ end₂ out : Option BlockId} {cond : List TokenId}

/-- Once both sides have been read and joined, the first is as it was when it was read. -/
theorem fork_first (hsecond : (k₂.elseHead k.size).Grows (some k₂.size) [] k₄ end₂)
    (hjoined : k₄.Joined end₁ end₂ k₅ out) {b : BlockId} (hb : b < k₂.size) (hne : b ≠ k.size) :
    k₅.tokens b = (k₂.linkFrom end₁ k₄.size).tokens b ∧
    k₅.succs b = (k₂.linkFrom end₁ k₄.size).succs b := by
  have hno : some k₂.size ≠ some b := fun heq => Nat.ne_of_gt hb (Option.some.inj heq)
  have hend : end₂ ≠ some b := hsecond.out_ne (Nat.lt_succ_of_lt hb) hno
  have hlt : b < k₄.size := Nat.lt_of_lt_of_le (Nat.lt_succ_of_lt hb) hsecond.size
  rw [hjoined.tokens b hlt, hjoined.succs b hlt, linkFrom_succs, if_neg hend, linkFrom_succs,
    linkFrom_succs, hsecond.tokens b (Nat.lt_succ_of_lt hb) hno,
    hsecond.succs_eq (Nat.lt_succ_of_lt hb) hno]
  simp [elseHead, hne, Nat.ne_of_lt hb]

/-- And so is the second. -/
theorem fork_second (hfirst : (k.ifHead cur cond).Grows (some (k.size + 1)) [] k₂ end₁)
    (hjoined : k₄.Joined end₁ end₂ k₅ out) {b : BlockId} (hb : b < k₄.size) (hle : k₂.size ≤ b) :
    k₅.tokens b = (k₄.linkFrom end₂ k₄.size).tokens b ∧
    k₅.succs b = (k₄.linkFrom end₂ k₄.size).succs b := by
  have hend : end₁ ≠ some b :=
    fun heq => Nat.lt_irrefl _ (Nat.lt_of_lt_of_le (hfirst.held b heq) hle)
  rw [hjoined.tokens b hb, hjoined.succs b hb]
  simp [hend]

/-- The block of the condition leads to both. -/
theorem fork_cond (hk : k.Ready cur)
    (hfirst : (k.ifHead cur cond).Grows (some (k.size + 1)) [] k₂ end₁)
    (hsecond : (k₂.elseHead k.size).Grows (some k₂.size) [] k₄ end₂)
    (hjoined : k₄.Joined end₁ end₂ k₅ out) :
    k₅.tokens k.size = cond ∧ k₅.succs k.size =
      [{ src := k.size, dst := k.size + 1, kind := .branchTrue },
        { src := k.size, dst := k₂.size, kind := .branchFalse }] := by
  have hheld : k.size < (k.ifHead cur cond).size := show k.size < k.size + 2 by omega
  have hbefore : k.size < k₂.size := Nat.lt_of_lt_of_le hheld hfirst.size
  have hyes : some (k.size + 1) ≠ some k.size := by simp
  have hno : some k₂.size ≠ some k.size := fun heq => Nat.ne_of_gt hbefore (Option.some.inj heq)
  have hlt : k.size < k₄.size := Nat.lt_of_lt_of_le (Nat.lt_succ_of_lt hbefore) hsecond.size
  have hend₁ : end₁ ≠ some k.size := hfirst.out_ne hheld hyes
  have hend₂ : end₂ ≠ some k.size := hsecond.out_ne (Nat.lt_succ_of_lt hbefore) hno
  constructor
  · rw [hjoined.tokens k.size hlt, hsecond.tokens k.size (Nat.lt_succ_of_lt hbefore) hno]
    refine (if_neg (Nat.ne_of_lt hbefore)).trans ?_
    rw [hfirst.tokens k.size hheld hyes, (ifHead_cond hk cond).1]
  · rw [hjoined.succs k.size hlt, linkFrom_succs, if_neg hend₂, linkFrom_succs,
      if_neg hend₁, hsecond.succs_eq (Nat.lt_succ_of_lt hbefore) hno]
    simp only [elseHead, link_succs, add_succs, if_neg (Nat.ne_of_lt hbefore), if_true]
    rw [hfirst.succs_eq hheld hyes, (ifHead_cond hk cond).2]
    rfl

end Fork

/-- With the blocks of a `for` loop, which are where it goes on, its initialization, its condition,
its step and its body.  The step is left for the condition once the body has been read. -/
def forHead (k : Sketch) (cur : Option BlockId) (init cond step : List TokenId) : Sketch :=
  ((((((((k.add []).add init).linkFrom cur (k.size + 1)).add cond).link
    { src := k.size + 1, dst := k.size + 2 }).add step).add []).link
    { src := k.size + 2, dst := k.size + 4, kind := .branchTrue }).linkIf (cond ≠ [])
    { src := k.size + 2, dst := k.size, kind := .branchFalse }

section ForHead

variable (init cond step : List TokenId)

theorem forHead_after (hk : k.Ready cur) :
    (k.forHead cur init cond step).tokens k.size = [] ∧
    (k.forHead cur init cond step).succs k.size = [] := by
  have hcur : cur ≠ some k.size := hk.cur_ne (Nat.le_refl _)
  constructor
  · simp [forHead, Nat.add_assoc]
  · simp [forHead, hcur]

theorem forHead_init (hk : k.Ready cur) :
    (k.forHead cur init cond step).tokens (k.size + 1) = init ∧
    (k.forHead cur init cond step).succs (k.size + 1) =
      [{ src := k.size + 1, dst := k.size + 2 }] := by
  have hcur : cur ≠ some (k.size + 1) := hk.cur_ne (Nat.le_succ _)
  constructor
  · simp [forHead, Nat.add_assoc]
  · simp [forHead, hcur, Nat.add_assoc]

theorem forHead_cond :
    (k.forHead cur init cond step).tokens (k.size + 2) = cond ∧
    (k.forHead cur init cond step).succs (k.size + 2) =
      { src := k.size + 2, dst := k.size + 4, kind := .branchTrue } ::
        if cond = [] then [] else
          [{ src := k.size + 2, dst := k.size, kind := .branchFalse }] := by
  constructor
  · simp [forHead, Nat.add_assoc]
  · by_cases hempty : cond = []
    · simp [forHead, hempty, Nat.add_assoc]
    · simp [forHead, hempty, Nat.add_assoc]

theorem forHead_step :
    (k.forHead cur init cond step).tokens (k.size + 3) = step ∧
    (k.forHead cur init cond step).succs (k.size + 3) = [] := by
  constructor
  · simp [forHead, Nat.add_assoc]
  · simp [forHead, Nat.add_assoc]

theorem forHead_body :
    (k.forHead cur init cond step).tokens (k.size + 4) = [] ∧
    (k.forHead cur init cond step).succs (k.size + 4) = [] := by
  constructor
  · simp [forHead, Nat.add_assoc]
  · simp [forHead, Nat.add_assoc]

theorem forHead_entered : k.Entered cur (k.size + 1) (k.forHead cur init cond step) := by
  have hstart : k.Entered cur (k.size + 1) (((k.add []).add init).linkFrom cur (k.size + 1)) :=
    (Entered.refl k).add.add.enter cur (k.size + 1)
  exact ((hstart.add.link (Nat.le_succ _)).add.add.link (Nat.le_add_right _ 2)).linkIf
    (Nat.le_add_right _ 2)

end ForHead

end Sketch

namespace Build

variable {p : Program} {read : StatementReader} {targets : JumpTargets} {limit t : TokenId}
  {start next : Option TokenId} {inside : List TokenId} {R S : Exits}

/-- Read from a live block, the statement ends before `next`, and what it adds to the graph does
`R`. -/
def Follows (m : Option BlockId → Build AfterStatement) (next : Option TokenId)
    (targets : JumpTargets) (R : Exits) : Prop :=
  ∀ k cur, k.Ready cur → ∃ k' out,
    Draws (m cur) k (next, out) k' ∧ k.Grows cur [] k' out ∧ k.Does cur k' out targets R

/-! ### Parts of statements -/

theorem draws_conditionBlock {k : Sketch} {cur : Option BlockId} {keyword : String}
    (hheader : ∀ k, Draws (header p keyword start) k (inside, next) k) (hk : k.Ready cur)
    (kind : BlockKind) :
    Draws (conditionBlock p kind keyword start cur) k (k.size, next)
      ((k.add inside).linkFrom cur k.size) := by
  refine (hheader k).bind ?_
  refine (draws_newBlock k kind inside).bind ?_
  refine (draws_edgeFrom (fun b hb => ?_) k.size .fallThrough).bind (draws_pure _ _)
  exact Nat.lt_succ_of_lt (hk.held b hb)

theorem draws_loopBody {k k' : Sketch} {body back after : BlockId} {out : Option BlockId}
    {kind : EdgeKind}
    (hbody : Draws (read (targets.inLoop after back) limit start (some body)) k (next, out) k')
    (hgrows : k.Grows (some body) [] k' out) :
    Draws (Body.loopBody read targets limit start body back after kind) k next
      (k'.linkFrom out back kind) := by
  refine hbody.bind ?_
  exact (draws_edgeFrom hgrows.held back kind).bind (draws_pure _ _)

theorem draws_merge {k : Sketch} {end₁ end₂ : Option BlockId} (kind : BlockKind)
    (h₁ : ∀ b, end₁ = some b → b < k.size) (h₂ : ∀ b, end₂ = some b → b < k.size) :
    ∃ k' out, Draws (merge kind [end₁, end₂]) k out k' ∧ k.Joined end₁ end₂ k' out := by
  have hjoined := k.joined_of_live h₁ h₂
  cases end₁ with
  | none =>
    cases end₂ with
    | none => exact ⟨k, none, draws_pure k none, k.joined_none⟩
    | some b =>
      refine ⟨_, _, (draws_newBlock k kind []).bind ?_, hjoined⟩
      rw [Sketch.linkFrom_none, Sketch.linkFrom_some]
      have hb : b < (k.add []).size := Nat.lt_succ_of_lt (h₂ b rfl)
      exact ((draws_edge hb k.size .fallThrough none none).bind (draws_pure _ _)).bind
        (draws_pure _ _)
  | some a =>
    have ha : a < (k.add []).size := Nat.lt_succ_of_lt (h₁ a rfl)
    cases end₂ with
    | none =>
      refine ⟨_, _, (draws_newBlock k kind []).bind ?_, hjoined⟩
      rw [Sketch.linkFrom_none, Sketch.linkFrom_some]
      exact ((draws_edge ha k.size .fallThrough none none).bind (draws_pure _ _)).bind
        (draws_pure _ _)
    | some b =>
      refine ⟨_, _, (draws_newBlock k kind []).bind ?_, hjoined⟩
      rw [Sketch.linkFrom_some, Sketch.linkFrom_some]
      have hb : b < ((k.add []).link { src := a, dst := k.size }).size :=
        Nat.lt_succ_of_lt (h₂ b rfl)
      exact ((draws_edge ha k.size .fallThrough none none).bind
        ((draws_edge hb k.size .fallThrough none none).bind (draws_pure _ _))).bind (draws_pure _ _)

/-! ### Statements without others inside -/

/-- A statement that is read into the live block may as well be read into a new one. -/
theorem follows_of_live {m : BlockId → Build AfterStatement}
    (h : ∀ k b, k.Ready (some b) → ∃ k' out, Draws (m b) k (next, out) k' ∧
      k.Grows (some b) [] k' out ∧ k.Does (some b) k' out targets R) :
    Follows (fun cur => live cur >>= m) next targets R := by
  intro k cur hk
  cases cur with
  | some b =>
    obtain ⟨k', out, hdraws, hgrows, hdoes⟩ := h k b hk
    exact ⟨k', out, (draws_pure k b).bind hdraws, hgrows, hdoes⟩
  | none =>
    have hopens : k.Opens (k.add []) (some k.size) :=
      Sketch.opens_some (Nat.le_refl _) (Nat.lt_succ_self _) (if_pos rfl) (if_pos rfl)
    have hnew : k.Grows none [] (k.add []) (some k.size) :=
      (Sketch.Entered.refl k).add.grows hk hopens
    obtain ⟨k', out, hdraws, hgrows, -⟩ := h _ _ (hnew.ready hk)
    refine ⟨k', out, (draws_newBlock k .unreachable []).bind hdraws, hnew.trans hgrows hk nofun, ?_⟩
    exact fun _ _ _ _ _ hb => absurd hb nofun

theorem plainStatement_follows {ts : List TokenId}
    (hscan : p.statementTokens limit (p.tokens.size + 1) (some t) = (ts, next)) :
    Follows (Body.plainStatement p limit t) next targets { normal := emitted ts } := by
  unfold Body.plainStatement
  simp only [hscan]
  refine follows_of_live fun k b hk => ?_
  refine ⟨k.append b ts, some b, ?_, Sketch.grows_append hk ts, Sketch.does_append targets⟩
  exact (draws_append (hk.held b rfl) ts).bind (draws_pure _ _)

theorem jumpStatement_follows {ts : List TokenId} {kind : Jump} (hword : p.text t = kind.word)
    (hscan : p.statementTokens limit (p.tokens.size + 1) (some t) = (ts, next)) :
    Follows (Body.jumpStatement p targets limit t) next targets (kind.exits (emitted ts)) := by
  unfold Body.jumpStatement
  simp only [hscan]
  refine follows_of_live fun k b hk => ?_
  have hjump : ∀ e : Edge, e.src = b → e.kind.isPlain = true → e.dst = targets.jumpTo kind →
      k.Grows (some b) [] ((k.append b ts).link e) none ∧
      k.Does (some b) ((k.append b ts).link e) none targets (kind.exits (emitted ts)) :=
    fun e hsrc hplain hdst => ⟨Sketch.grows_jump hk ts hsrc hplain, Sketch.does_jump hk hsrc hdst⟩
  have hheld : b < (k.append b ts).size := hk.held b rfl
  cases kind with
  | breakOut =>
    have hleads := hjump { src := b, dst := targets.breakTo.getD 1, kind := .breakOut } rfl rfl rfl
    refine ⟨_, none, ?_, hleads⟩
    refine (draws_append (hk.held b rfl) ts).bind (draws_get fun s hs => ?_)
    simp only [hword, Jump.word, hs.exit]
    exact (draws_edge hheld _ .breakOut none none).bind (draws_pure _ _)
  | continueLoop =>
    have hleads :=
      hjump { src := b, dst := targets.continueTo.getD 1, kind := .continueLoop } rfl rfl rfl
    refine ⟨_, none, ?_, hleads⟩
    refine (draws_append (hk.held b rfl) ts).bind (draws_get fun s hs => ?_)
    simp only [hword, Jump.word, hs.exit]
    exact (draws_edge hheld _ .continueLoop none none).bind (draws_pure _ _)
  | returnOut =>
    have hleads := hjump { src := b, dst := 1, kind := .returnOut } rfl rfl rfl
    refine ⟨_, none, ?_, hleads⟩
    refine (draws_append (hk.held b rfl) ts).bind (draws_get fun s hs => ?_)
    simp only [hword, Jump.word, hs.exit]
    refine (draws_setKind hheld .returning).bind ?_
    exact (draws_edge hheld 1 .returnOut none none).bind (draws_pure _ _)

/-! ### Loops -/

theorem whileStatement_follows
    (hheader : ∀ k, Draws (header p "while" (p.nextOf t)) k (inside, start) k)
    (hbody : ∀ inner, Follows (read inner limit start) next inner R) :
    Follows (Body.whileStatement p read targets limit t) next targets
      (Exits.loop (decided inside true) (decided inside false) 1 R) := by
  intro k cur hk
  let cond := k.size
  let after := k.size + 1
  let body := k.size + 2
  let k₁ := (((((k.add inside).linkFrom cur cond).add []).add []).link
    { src := cond, dst := body, kind := .branchTrue }).link
    { src := cond, dst := after, kind := .branchFalse }
  have hcur : cur ≠ some k.size := hk.cur_ne (Nat.le_refl _)
  have hk₁ : k₁.Ready (some body) :=
    hk.new (Nat.le_add_right _ 2) (Nat.lt_succ_self _) (by simp [k₁, body, cond])
  obtain ⟨k₂, out, hdraws, hgrows, hdoes⟩ :=
    hbody (targets.inLoop after cond) k₁ (some body) hk₁
  have hsize : k.size + 3 ≤ k₂.size := hgrows.size
  have hkeep : ∀ b < k.size + 3, b ≠ body →
      (k₂.linkFrom out cond .backEdge).tokens b = k₁.tokens b ∧
      (k₂.linkFrom out cond .backEdge).succs b = k₁.succs b :=
    fun b hb hne => hgrows.linkFrom_eq hb (fun heq => hne (Option.some.inj heq).symm)
  have hentered : k.Entered cur cond (k₂.linkFrom out cond .backEdge) := by
    have hhead : k.Entered cur cond k₁ :=
      (((Sketch.Entered.refl k).add.enter cur cond).add.add.link (Nat.le_refl _)).link (Nat.le_refl _)
    refine (hhead.read hgrows (Nat.le_add_right _ _)).linkFrom ?_
    exact hgrows.le_of_out (Nat.le_add_right _ 2) (Nat.le_add_right _ 3)
  have hopens : k.Opens (k₂.linkFrom out cond .backEdge) (some after) := by
    obtain ⟨htokens, hsuccs⟩ := hkeep after (by omega) (by omega)
    refine Sketch.opens_some (Nat.le_succ _) (Nat.lt_of_lt_of_le (by omega) hsize) ?_ ?_
    · rw [htokens]
      simp [k₁, after]
    · rw [hsuccs]
      simp [k₁, after, cond]
  refine ⟨k₂.linkFrom out cond .backEdge, some after, ?_, hentered.grows hk hopens,
    hentered.does hk hopens fun g hg last hlast => ?_⟩
  · refine (draws_conditionBlock hheader hk .loopCondition).bind ?_
    refine (draws_newBlock _ .loopAfter []).bind ?_
    refine (draws_newBlock _ .loopBody []).bind ?_
    refine (draws_edge ?_ body .branchTrue none none).bind ?_
    · show k.size < k.size + 3
      omega
    refine (draws_edge ?_ after .branchFalse none none).bind ?_
    · show k.size < k.size + 3
      omega
    exact (draws_loopBody hdraws hgrows).bind (draws_pure _ _)
  · have hinner : g.paths body = R.lead ((targets.inLoop after cond).exits g (g.paths cond)) := by
      have hpart : Settled g k₁ (some body) (k₂.linkFrom out cond .backEdge) none := by
        refine hg.part (Nat.le_add_right _ 3) (Nat.le_add_right _ 2) ?_ (Nat.le_refl _)
          fun _ _ _ => ⟨rfl, rfl⟩
        rintro _ ⟨⟩
        exact .inr ⟨Nat.lt_succ_of_lt (Nat.lt_succ_self _), Nat.succ_ne_self _⟩
      exact hdoes.paths hk₁ (by simp [k₁, body]) hgrows rfl hpart fun _ _ => rfl
    have hcond : g.paths cond = decided inside true * g.paths body +
        decided inside false * g.paths after := by
      obtain ⟨htokens, hsuccs⟩ := hkeep cond (by omega) (by omega)
      obtain ⟨hgtokens, hgsuccs⟩ := hg.block (Nat.le_refl cond)
        (Nat.lt_of_lt_of_le (by omega) hsize) (by simp [after, cond])
      refine FlowGraph.paths_of_branch (hg.ne_exit hk (Nat.le_refl _)) ?_ ?_
      · rw [hgtokens, htokens]
        simp [k₁, cond, Nat.add_assoc]
      · rw [hgsuccs, hsuccs]
        simp [k₁, cond, hcur]
    rw [hlast after rfl]
    exact FlowGraph.paths_of_circle hcond hinner (one_mul _).symm

theorem draws_forStatement {k k₂ : Sketch} {cur out : Option BlockId}
    {init cond step : List TokenId}
    (hheader : ∀ k, Draws (header p "for" (p.nextOf t)) k (inside, start) k)
    (hparts : p.headerParts 0 inside = (init, [cond, step])) (hk : k.Ready cur)
    (hbody : Draws (read (targets.inLoop k.size (k.size + 3)) limit start (some (k.size + 4)))
      (k.forHead cur init cond step) (next, out) k₂)
    (hgrows : (k.forHead cur init cond step).Grows (some (k.size + 4)) [] k₂ out) :
    Draws (Body.forStatement p read targets limit t cur) k (next, some k.size)
      ((k₂.linkFrom out (k.size + 3)).link
        { src := k.size + 3, dst := k.size + 2, kind := .backEdge }) := by
  have hsize : k.size + 5 ≤ k₂.size := hgrows.size
  refine (hheader k).bind ?_
  refine (draws_newBlock _ .loopAfter []).bind ?_
  simp only [hparts]
  refine (draws_newBlock _ .forInit init).bind ?_
  refine (draws_edgeFrom ?_ (k.size + 1) .fallThrough).bind ?_
  · exact fun b hb => Nat.lt_succ_of_lt (Nat.lt_succ_of_lt (hk.held b hb))
  refine (draws_newBlock _ .loopCondition cond).bind ?_
  refine (draws_edge ?_ (k.size + 2) .fallThrough none none).bind ?_
  · show k.size + 1 < k.size + 3
    omega
  refine (draws_newBlock _ .forStep step).bind ?_
  refine (draws_newBlock _ .loopBody []).bind ?_
  refine (draws_edge ?_ (k.size + 4) .branchTrue none none).bind ?_
  · show k.size + 2 < k.size + 5
    omega
  refine draws_edgeIf ?_ (cond ≠ []) ?_
  · show k.size + 2 < k.size + 5
    omega
  refine (draws_loopBody hbody hgrows).bind ?_
  refine (draws_edge ?_ (k.size + 2) .backEdge none none).bind (draws_pure _ _)
  exact Nat.lt_of_lt_of_le (show k.size + 3 < k.size + 5 by omega) hsize

theorem forStatement_follows {init cond step : List TokenId}
    (hheader : ∀ k, Draws (header p "for" (p.nextOf t)) k (inside, start) k)
    (hparts : p.headerParts 0 inside = (init, [cond, step]))
    (hbody : ∀ inner, Follows (read inner limit start) next inner R) :
    Follows (Body.forStatement p read targets limit t) next targets
      ((Exits.loop (decided cond true) (if cond = [] then 0 else decided cond false) (emitted step)
        R).after (emitted init)) := by
  intro k cur hk
  let after := k.size
  let initBlock := k.size + 1
  let condBlock := k.size + 2
  let stepBlock := k.size + 3
  let body := k.size + 4
  let k₁ := k.forHead cur init cond step
  have hk₁ : k₁.Ready (some body) :=
    hk.new (Nat.le_add_right _ 4) (Nat.lt_succ_self _) (Sketch.forHead_body init cond step).2
  obtain ⟨k₂, out, hdraws, hgrows, hdoes⟩ :=
    hbody (targets.inLoop after stepBlock) k₁ (some body) hk₁
  let k₃ := (k₂.linkFrom out stepBlock).link
    { src := stepBlock, dst := condBlock, kind := .backEdge }
  have hsize : k.size + 5 ≤ k₂.size := hgrows.size
  -- Reading the body leaves the blocks around it alone, the step being linked afterwards.
  have hread : ∀ b < k.size + 5, b ≠ body →
      (k₂.linkFrom out stepBlock).tokens b = k₁.tokens b ∧
      (k₂.linkFrom out stepBlock).succs b = k₁.succs b :=
    fun b hb hne => hgrows.linkFrom_eq hb fun heq => hne (Option.some.inj heq).symm
  have hlater : ∀ b, b ≠ stepBlock → k₃.tokens b = (k₂.linkFrom out stepBlock).tokens b ∧
      k₃.succs b = (k₂.linkFrom out stepBlock).succs b := fun b hb => ⟨rfl, if_neg hb⟩
  have hkeep : ∀ b < k.size + 5, b ≠ body → b ≠ stepBlock →
      k₃.tokens b = k₁.tokens b ∧ k₃.succs b = k₁.succs b := by
    intro b hb hne hstep
    obtain ⟨htokens, hsuccs⟩ := hread b hb hne
    exact ⟨(hlater b hstep).1.trans htokens, (hlater b hstep).2.trans hsuccs⟩
  have hentered : k.Entered cur initBlock k₃ := by
    have hhead : k.Entered cur initBlock k₁ := Sketch.forHead_entered init cond step
    refine ((hhead.read hgrows (Nat.le_add_right _ 4)).linkFrom ?_).link (Nat.le_add_right _ 3)
    exact hgrows.le_of_out (Nat.le_add_right _ 4) (Nat.le_add_right _ 5)
  have hopens : k.Opens k₃ (some after) := by
    obtain ⟨htokens, hsuccs⟩ := hkeep after (by omega) (by omega) (by omega)
    obtain ⟨hnone, hloose⟩ := Sketch.forHead_after init cond step hk
    exact Sketch.opens_some (Nat.le_refl _) (Nat.lt_of_lt_of_le (by omega) hsize)
      (htokens.trans hnone) (hsuccs.trans hloose)
  refine ⟨k₃, some after, draws_forStatement hheader hparts hk hdraws hgrows,
    hentered.grows hk hopens, hentered.does hk hopens fun g hg last hlast => ?_⟩
  have hold : ∀ b, k.size < b → b < k.size + 5 →
      (g.block b).tokens = k₃.tokens b ∧ g.succEdges b = k₃.succs b := by
    intro b hlt hb
    refine hg.block (Nat.le_of_lt hlt) (Nat.lt_of_lt_of_le hb hsize) ?_
    exact fun heq => Nat.ne_of_lt hlt (Option.some.inj heq)
  have hinit : g.paths initBlock = emitted init * g.paths condBlock := by
    obtain ⟨htokens, hsuccs⟩ := hkeep initBlock (by omega) (by omega) (by omega)
    obtain ⟨hgtokens, hgsuccs⟩ := hold initBlock (by omega) (by omega)
    obtain ⟨hinit, hlink⟩ := Sketch.forHead_init init cond step hk
    exact FlowGraph.paths_of_edge (hg.ne_exit hk (Nat.le_succ _))
      ((hgtokens.trans htokens).trans hinit) ((hgsuccs.trans hsuccs).trans hlink) rfl
  have hstep : g.paths stepBlock = emitted step * g.paths condBlock := by
    obtain ⟨htokens, hsuccs⟩ := hread stepBlock (by omega) (by omega)
    obtain ⟨hgtokens, hgsuccs⟩ := hold stepBlock (by omega) (by omega)
    obtain ⟨hstep, hloose⟩ : k₁.tokens stepBlock = step ∧ k₁.succs stepBlock = [] :=
      Sketch.forHead_step init cond step
    have hedge : k₃.succs stepBlock =
        [{ src := stepBlock, dst := condBlock, kind := .backEdge }] := by
      rw [Sketch.link_succs, if_pos rfl, hsuccs.trans hloose]
      rfl
    exact FlowGraph.paths_of_edge (hg.ne_exit hk (Nat.le_add_right _ 3))
      ((hgtokens.trans htokens).trans hstep) (hgsuccs.trans hedge) rfl
  have hinner : g.paths body =
      R.lead ((targets.inLoop after stepBlock).exits g (g.paths stepBlock)) := by
    have hpart : Settled g k₁ (some body) (k₂.linkFrom out stepBlock) none := by
      refine hg.part (Nat.le_add_right _ 5) (Nat.le_add_right _ 4) ?_ (Nat.le_refl _)
        fun c _ (hin : k.size + 5 ≤ c ∨ k.size + 4 = c) => hlater c ?_
      · rintro _ ⟨⟩
        exact .inr ⟨Nat.lt_add_of_pos_right (Nat.succ_pos 4), by simp [body, after]⟩
      · show c ≠ k.size + 3
        omega
    exact hdoes.paths hk₁ (Sketch.forHead_body init cond step).1 hgrows rfl hpart fun _ _ => rfl
  have hcond : g.paths condBlock = decided cond true * g.paths body +
      (if cond = [] then 0 else decided cond false) * g.paths after := by
    obtain ⟨htokens, hsuccs⟩ := hkeep condBlock (by omega) (by omega) (by omega)
    obtain ⟨hgtokens, hgsuccs⟩ := hold condBlock (by omega) (by omega)
    obtain ⟨hcond, hlinks⟩ : k₁.tokens condBlock = cond ∧ k₁.succs condBlock = _ :=
      Sketch.forHead_cond init cond step
    exact FlowGraph.paths_of_condition (hg.ne_exit hk (Nat.le_add_right _ 2))
      ((hgtokens.trans htokens).trans hcond) ((hgsuccs.trans hsuccs).trans hlinks)
  rw [hinit, Exits.after_lead, hlast after rfl]
  exact congrArg _ (FlowGraph.paths_of_circle hcond hinner hstep)

theorem draws_doStatement {k k₂ : Sketch} {cur out : Option BlockId} {whileWord : TokenId}
    (hword : p.text whileWord = "while")
    (hheader : ∀ k, Draws (header p "while" (p.nextOf whileWord)) k (inside, start) k)
    (hnext : next = if p.textOf start = ";" then start.bind p.nextOf else start)
    (hk : k.Ready cur)
    (hbody : Draws
      (read (targets.inLoop (k.size + 2) (k.size + 1)) limit (p.nextOf t) (some k.size))
      ((((k.add []).linkFrom cur k.size).add []).add []) (some whileWord, out) k₂)
    (hgrows : ((((k.add []).linkFrom cur k.size).add []).add []).Grows (some k.size) [] k₂ out) :
    Draws (Body.doStatement p read targets limit t cur) k (next, some (k.size + 2))
      ((((k₂.linkFrom out (k.size + 1)).append (k.size + 1) inside).link
        { src := k.size + 1, dst := k.size, kind := .branchTrue }).link
        { src := k.size + 1, dst := k.size + 2, kind := .branchFalse }) := by
  have hcond : k.size + 1 < k₂.size :=
    Nat.lt_of_lt_of_le (show k.size + 1 < k.size + 3 by omega) hgrows.size
  have hstay : ¬ p.textOf (some whileWord) ≠ "while" := fun hne => hne hword
  refine (draws_newBlock _ .loopBody []).bind ?_
  refine (draws_edgeFrom ?_ k.size .fallThrough).bind ?_
  · exact fun b hb => Nat.lt_succ_of_lt (hk.held b hb)
  refine (draws_newBlock _ .loopCondition []).bind ?_
  refine (draws_newBlock _ .loopAfter []).bind ?_
  refine (draws_loopBody hbody hgrows).bind ?_
  rw [if_neg hstay]
  refine (hheader _).bind ?_
  refine (draws_append ?_ inside).bind ?_
  · exact hcond
  refine (draws_edge ?_ k.size .branchTrue none none).bind ?_
  · exact hcond
  refine (draws_edge ?_ (k.size + 2) .branchFalse none none).bind ?_
  · exact hcond
  rw [hnext]
  exact draws_pure _ _

theorem doStatement_follows {whileWord : TokenId} (hword : p.text whileWord = "while")
    (hheader : ∀ k, Draws (header p "while" (p.nextOf whileWord)) k (inside, start) k)
    (hbody : ∀ inner, Follows (read inner limit (p.nextOf t)) (some whileWord) inner R)
    (hnext : next = if p.textOf start = ";" then start.bind p.nextOf else start) :
    Follows (Body.doStatement p read targets limit t) next targets
      (Exits.loopOnce (decided inside true) (decided inside false) R) := by
  intro k cur hk
  let body := k.size
  let cond := k.size + 1
  let after := k.size + 2
  let k₁ := (((k.add []).linkFrom cur body).add []).add []
  have hcur : cur ≠ some body := hk.cur_ne (Nat.le_refl _)
  have hk₁ : k₁.Ready (some body) :=
    hk.new (Nat.le_refl _) (Nat.lt_add_of_pos_right (Nat.succ_pos 2))
      (by simp [k₁, body, hcur, Nat.add_assoc])
  obtain ⟨k₂, out, hdraws, hgrows, hdoes⟩ :=
    hbody (targets.inLoop after cond) k₁ (some body) hk₁
  let k₃ := (((k₂.linkFrom out cond).append cond inside).link
    { src := cond, dst := body, kind := .branchTrue }).link
    { src := cond, dst := after, kind := .branchFalse }
  have hsize : k.size + 3 ≤ k₂.size := hgrows.size
  have hkeep : ∀ b < k.size + 3, b ≠ body →
      (k₂.linkFrom out cond).tokens b = k₁.tokens b ∧
      (k₂.linkFrom out cond).succs b = k₁.succs b :=
    fun b hb hne => hgrows.linkFrom_eq hb (fun heq => hne (Option.some.inj heq).symm)
  have hlater : ∀ b, b ≠ cond → k₃.tokens b = (k₂.linkFrom out cond).tokens b ∧
      k₃.succs b = (k₂.linkFrom out cond).succs b :=
    fun b hb => ⟨if_neg hb, (if_neg hb).trans (if_neg hb)⟩
  have hentered : k.Entered cur body k₃ := by
    have hhead : k.Entered cur body k₁ := ((Sketch.Entered.refl k).add.enter cur body).add.add
    have hread : k.Entered cur body (k₂.linkFrom out cond) :=
      (hhead.read hgrows (Nat.le_refl _)).linkFrom
        (hgrows.le_of_out (Nat.le_refl _) (Nat.le_add_right _ 3))
    exact ((hread.append (Nat.le_succ _)).link (Nat.le_succ _)).link (Nat.le_succ _)
  have hopens : k.Opens k₃ (some after) := by
    obtain ⟨htokens, hsuccs⟩ := hkeep after (by omega) (by omega)
    obtain ⟨htokens₃, hsuccs₃⟩ := hlater after (by omega)
    refine Sketch.opens_some (Nat.le_add_right _ 2) (Nat.lt_of_lt_of_le (by omega) hsize) ?_ ?_
    · rw [htokens₃, htokens]
      simp [k₁, after, Nat.add_assoc]
    · rw [hsuccs₃, hsuccs]
      simp [k₁, after, Nat.add_assoc]
  refine ⟨k₃, some after, draws_doStatement hword hheader hnext hk hdraws hgrows,
    hentered.grows hk hopens, hentered.does hk hopens fun g hg last hlast => ?_⟩
  have hinner : g.paths body =
      R.lead ((targets.inLoop after cond).exits g (g.paths cond)) := by
    have hpart : Settled g k₁ (some body) (k₂.linkFrom out cond) none := by
      refine hg.part (Nat.le_add_right _ 3) (Nat.le_refl _) ?_ (Nat.le_refl _)
        fun c _ (hin : k.size + 3 ≤ c ∨ k.size = c) => hlater c ?_
      · rintro _ ⟨⟩
        exact .inr ⟨Nat.lt_succ_self _, by simp [body, after]⟩
      · show c ≠ k.size + 1
        omega
    exact hdoes.paths hk₁ (by simp [k₁, body, Nat.add_assoc]) hgrows rfl hpart fun _ _ => rfl
  have hcond : g.paths cond = decided inside true * g.paths body +
      decided inside false * g.paths after := by
    obtain ⟨htokens, hsuccs⟩ := hkeep cond (by omega) (by omega)
    obtain ⟨hgtokens, hgsuccs⟩ := hg.block (show k.size ≤ cond from Nat.le_succ _)
      (Nat.lt_of_lt_of_le (by omega) hsize) (by simp [after, cond])
    refine FlowGraph.paths_of_branch (hg.ne_exit hk (Nat.le_succ _)) ?_ ?_
    · refine hgtokens.trans ?_
      show (if _ then (k₂.linkFrom out cond).tokens cond ++ inside else _) = _
      rw [htokens]
      simp [k₁, cond, Nat.add_assoc]
    · refine hgsuccs.trans ?_
      have hnone : (k₂.linkFrom out cond).succs cond = [] := by
        rw [hsuccs]
        simp [k₁, cond, Nat.add_assoc]
      simp only [k₃, Sketch.link_succs, Sketch.append_succs, if_true, hnone]
      rfl
  have hloop : g.paths cond = (Exits.loop (decided inside true) (decided inside false) 1 R).lead
      (targets.exits g (g.paths after)) :=
    FlowGraph.paths_of_circle hcond hinner (one_mul _).symm
  rw [Exits.loopOnce_lead, hlast after rfl, ← hloop]
  exact hinner

/-! ### Conditionals -/

theorem ifStatement_follows (hparen : p.textOf (p.nextOf t) ≠ "constexpr")
    (hheader : ∀ k, Draws (header p "if" (p.nextOf t)) k (inside, start) k)
    (hbody : Follows (read targets limit start) next targets R)
    (hnext : p.textOf next ≠ "else") :
    Follows (Body.ifStatement p read targets limit t) next targets
      (R.after (decided inside true) + { normal := decided inside false }) := by
  intro k cur hk
  let cond := k.size
  let yes := k.size + 1
  let k₁ := k.ifHead cur inside
  have hk₁ : k₁.Ready (some yes) :=
    hk.new (Nat.le_succ _) (Nat.lt_succ_self _) (k.ifHead_yes cur inside).2
  obtain ⟨k₂, out, hdraws, hgrows, hdoes⟩ := hbody k₁ (some yes) hk₁
  let merged := k₂.size
  let k₃ := ((k₂.add []).link { src := cond, dst := merged, kind := .branchFalse }).linkFrom out
    merged
  have hsize : k.size + 2 ≤ k₂.size := hgrows.size
  have hlater : ∀ b < k₂.size, b ≠ cond → k₃.tokens b = (k₂.linkFrom out merged).tokens b ∧
      k₃.succs b = (k₂.linkFrom out merged).succs b := by
    intro b hb hcond
    have hne : b ≠ merged := Nat.ne_of_lt hb
    constructor
    · exact if_neg hne
    · simp [k₃, hcond, hne, merged]
  have hentered : k.Entered cur cond k₃ := by
    have hhead := k.ifHead_entered cur inside
    refine ((hhead.read hgrows (Nat.le_succ _)).add.link (Nat.le_refl _)).linkFrom ?_
    exact hgrows.le_of_out (Nat.le_succ _) (Nat.le_add_right _ 2)
  have hopens : k.Opens k₃ (some merged) := by
    have hout : out ≠ some merged := fun hc => Nat.lt_irrefl _ (hgrows.held _ hc)
    have hcond : merged ≠ cond := Nat.ne_of_gt (Nat.lt_of_lt_of_le (by omega) hsize)
    refine Sketch.opens_some (Nat.le_trans (Nat.le_add_right _ 2) hsize) (Nat.lt_succ_self _)
      (if_pos rfl) ?_
    simp [k₃, hout, hcond, merged]
  refine ⟨k₃, some merged, ?_, hentered.grows hk hopens,
    hentered.does hk hopens fun g hg last hlast => ?_⟩
  · unfold Body.ifStatement
    simp only [if_neg hparen]
    refine (draws_conditionBlock hheader hk .ifCondition).bind ?_
    refine (draws_newBlock _ .ifTrue []).bind ?_
    refine (draws_edge ?_ yes .branchTrue none none).bind ?_
    · show k.size < k.size + 2
      omega
    refine hdraws.bind ?_
    simp only [if_neg hnext]
    refine (draws_newBlock _ .ifMerge []).bind ?_
    refine (draws_edge ?_ merged .branchFalse none none).bind ?_
    · exact Nat.lt_succ_of_lt (Nat.lt_of_lt_of_le (show k.size < k.size + 2 by omega) hsize)
    refine (draws_edgeFrom ?_ merged .fallThrough).bind (draws_pure _ _)
    exact fun c hc => Nat.lt_succ_of_lt (hgrows.held c hc)
  · obtain rfl : last = g.paths merged := hlast merged rfl
    have hyes : g.paths yes = R.lead (targets.exits g (g.paths merged)) := by
      have hpart : Settled g k₁ (some yes) (k₂.linkFrom out merged) none := by
        refine hg.part (Nat.le_add_right _ 2) (Nat.le_succ _) ?_ (Nat.le_succ _)
          fun c hc (hin : k.size + 2 ≤ c ∨ k.size + 1 = c) => hlater c hc ?_
        · rintro _ ⟨⟩
          exact .inl (Nat.le_refl _)
        · show c ≠ k.size
          omega
      exact hdoes.paths hk₁ (k.ifHead_yes cur inside).1 hgrows rfl hpart fun _ _ => rfl
    have hcond : g.paths cond = decided inside true * g.paths yes +
        decided inside false * g.paths merged := by
      have hheld : cond < k₁.size := show k.size < k.size + 2 by omega
      have hne : some yes ≠ some cond := by simp [yes, cond]
      have hout : out ≠ some cond := hgrows.out_ne hheld hne
      have hlt : cond < k₂.size := Nat.lt_of_lt_of_le hheld hgrows.size
      have hmerged : cond ≠ k₂.size := Nat.ne_of_lt hlt
      obtain ⟨hgtokens, hgsuccs⟩ := hg.block (Nat.le_refl cond) (Nat.lt_succ_of_lt hlt)
        (fun heq => hmerged (Option.some.inj heq).symm)
      refine FlowGraph.paths_of_branch (hg.ne_exit hk (Nat.le_refl _)) ?_ ?_
      · rw [hgtokens]
        refine (if_neg hmerged).trans ?_
        rw [hgrows.tokens cond hheld hne, (Sketch.ifHead_cond hk inside).1]
      · rw [hgsuccs]
        simp only [k₃, Sketch.linkFrom_succs, Sketch.link_succs, Sketch.add_succs, if_neg hout,
          if_neg hmerged, if_true]
        rw [hgrows.succs_eq hheld hne, (Sketch.ifHead_cond hk inside).2]
        rfl
    rw [Exits.add_lead, Exits.after_lead, Exits.normal_lead, hcond, hyes]
    rfl

theorem ifElseStatement_follows {elseWord : TokenId} (hparen : p.textOf (p.nextOf t) ≠ "constexpr")
    (hheader : ∀ k, Draws (header p "if" (p.nextOf t)) k (inside, start) k)
    (hbody : Follows (read targets limit start) (some elseWord) targets R)
    (hword : p.text elseWord = "else")
    (hother : Follows (read targets limit (p.nextOf elseWord)) next targets S) :
    Follows (Body.ifStatement p read targets limit t) next targets
      (R.after (decided inside true) + S.after (decided inside false)) := by
  intro k cur hk
  let cond := k.size
  let yes := k.size + 1
  let k₁ := k.ifHead cur inside
  have hk₁ : k₁.Ready (some yes) :=
    hk.new (Nat.le_succ _) (Nat.lt_succ_self _) (k.ifHead_yes cur inside).2
  obtain ⟨k₂, end₁, hdraws₁, hgrows₁, hdoes₁⟩ := hbody k₁ (some yes) hk₁
  have hsize₂ : k.size + 2 ≤ k₂.size := hgrows₁.size
  have hlow : k.size ≤ k₂.size := Nat.le_trans (Nat.le_add_right _ 2) hsize₂
  let no := k₂.size
  let k₃ := k₂.elseHead cond
  have hcond : cond < k₂.size := Nat.lt_of_lt_of_le (show k.size < k.size + 2 by omega) hsize₂
  have hnone : k₃.tokens no = [] ∧ k₃.succs no = [] := by
    constructor
    · simp [k₃, no, Sketch.elseHead]
    · simp [k₃, no, Sketch.elseHead, Nat.ne_of_gt hcond]
  have hk₃ : k₃.Ready (some no) := hk.new hlow (Nat.lt_succ_self _) hnone.2
  obtain ⟨k₄, end₂, hdraws₂, hgrows₂, hdoes₂⟩ := hother k₃ (some no) hk₃
  have hsize₄ : k₂.size + 1 ≤ k₄.size := hgrows₂.size
  have hheld₁ : ∀ b, end₁ = some b → b < k₄.size :=
    fun b hb => Nat.lt_of_lt_of_le (Nat.lt_succ_of_lt (hgrows₁.held b hb)) hsize₄
  obtain ⟨k₅, out, hmerge, hjoined⟩ := draws_merge .ifMerge hheld₁ hgrows₂.held
  have hentered : k.Entered cur cond k₅ := by
    have hhead := k.ifHead_entered cur inside
    have hbodies : k.Entered cur cond k₄ :=
      ((hhead.read hgrows₁ (Nat.le_succ _)).add.link (Nat.le_refl _)).read hgrows₂ hlow
    refine hbodies.join hjoined ?_ ?_
    · exact hgrows₁.le_of_out (Nat.le_succ _) (Nat.le_add_right _ 2)
    · exact hgrows₂.le_of_out hlow (Nat.le_succ_of_le hlow)
  have hopens : k.Opens k₅ out := by
    refine ⟨fun c hc => ?_, hjoined.opens.held, hjoined.opens.tokens, hjoined.opens.loose⟩
    exact Nat.le_trans (Nat.le_trans hlow (Nat.le_of_succ_le hsize₄)) (hjoined.opens.fresh c hc)
  refine ⟨k₅, out, ?_, hentered.grows hk hopens, hentered.does hk hopens fun g hg last hlast => ?_⟩
  · unfold Body.ifStatement
    simp only [if_neg hparen]
    refine (draws_conditionBlock hheader hk .ifCondition).bind ?_
    refine (draws_newBlock _ .ifTrue []).bind ?_
    refine (draws_edge ?_ yes .branchTrue none none).bind ?_
    · show k.size < k.size + 2
      omega
    refine hdraws₁.bind ?_
    have helse : p.textOf (some elseWord) = "else" := hword
    simp only [if_pos helse]
    refine (draws_newBlock _ .ifFalse []).bind ?_
    refine (draws_edge ?_ no .branchFalse none none).bind ?_
    · exact Nat.lt_succ_of_lt hcond
    exact hdraws₂.bind (hmerge.bind (draws_pure _ _))
  · have hout : ∀ c, out = some c → k₄.size ≤ c := hjoined.opens.fresh
    have hlast₁ : ∀ c, end₁ = some c → last = g.paths k₄.size := by
      intro c hc
      exact hlast _ (hjoined.live (.inl (by simp [hc])))
    have hlast₂ : ∀ c, end₂ = some c → last = g.paths k₄.size := by
      intro c hc
      exact hlast _ (hjoined.live (.inr (by simp [hc])))
    have hyes : g.paths yes = R.lead (targets.exits g last) := by
      have hpart : Settled g k₁ (some yes) (k₂.linkFrom end₁ k₄.size) none := by
        refine hg.part (Nat.le_add_right _ 2) (Nat.le_succ _)
          (fun c hc => .inl (Nat.le_trans (Nat.le_of_succ_le hsize₄) (hout c hc)))
          (Nat.le_trans (Nat.le_of_succ_le hsize₄) hjoined.size)
          fun c hc (hin : k.size + 2 ≤ c ∨ k.size + 1 = c) =>
            Sketch.fork_first hgrows₂ hjoined hc ?_
        show c ≠ k.size
        omega
      exact hdoes₁.paths hk₁ (k.ifHead_yes cur inside).1 hgrows₁ rfl hpart hlast₁
    have hno : g.paths no = S.lead (targets.exits g last) := by
      have hpart : Settled g k₃ (some no) (k₄.linkFrom end₂ k₄.size) none :=
        hg.part (Nat.le_succ_of_le hlow) hlow (fun c hc => .inl (hout c hc)) hjoined.size
          fun c hc hin => Sketch.fork_second hgrows₁ hjoined hc
            (hin.elim Nat.le_of_succ_le Nat.le_of_eq)
      exact hdoes₂.paths hk₃ hnone.1 hgrows₂ rfl hpart hlast₂
    have hdecide : g.paths cond = decided inside true * g.paths yes +
        decided inside false * g.paths no := by
      have hlt : cond < k₄.size := Nat.lt_of_lt_of_le (Nat.lt_succ_of_lt hcond) hsize₄
      obtain ⟨hgtokens, hgsuccs⟩ := hg.block (Nat.le_refl cond)
        (Nat.lt_of_lt_of_le hlt hjoined.size)
        (fun heq => Nat.lt_irrefl _ (Nat.lt_of_lt_of_le hlt (hout cond heq)))
      obtain ⟨htokens, hsuccs⟩ := Sketch.fork_cond hk hgrows₁ hgrows₂ hjoined
      exact FlowGraph.paths_of_branch (hg.ne_exit hk (Nat.le_refl _))
        (hgtokens.trans htokens) (hgsuccs.trans hsuccs)
    rw [Exits.add_lead, Exits.after_lead, Exits.after_lead, hdecide, hyes, hno]

end Build

end DivisorCheck
