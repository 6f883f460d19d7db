/-
  What a `switch` adds to the graph.

  A label among statements in a row adds an edge that leads to it from the dispatch
  of the `switch`, and this block has been there before the statements began.  So
  besides what the statements do from the first one on, there is to show that the
  edges they have added lead to what they do from each label on (`Sketch.Arms`).
-/
import DivisorCheck.Proofs.Flow.Reading

namespace DivisorCheck

open scoped Computability

/-! ### Statements with labels between them -/

/-- The edges that statements in a row have added to the dispatch are those to their labels. -/
structure Sketch.Arms (p : Program) (body : Stmts) (targets : JumpTargets) (k : Sketch)
    (cur : Option BlockId) (new : List Edge) (k' : Sketch) (out : Option BlockId) : Prop where
  sources : ∀ e ∈ new, targets.dispatch = some e.src
  default : (new.any fun e => e.kind == .switchDefault) = body.hasDefault
  unlabelled : body.labelled = false → new = []
  entries : ∀ subject g after, Settled g k cur k' out →
    (∀ c, out = some c → after = g.ahead c (k'.tokens c).length) →
    (new.map fun e => {e.events subject} * g.paths e.dst).sum =
      (body.entries p subject).lead (targets.exits g after)

/-- The edge stands for the choice of the label. -/
structure Edge.IsTo (p : Program) (l : ArmLabel) (e : Edge) : Prop where
  default : (e.kind == .switchDefault) = l.value.isNone
  events : ∀ subject, e.events subject = [.choose subject (l.text p)]

/-- Labels have a block to lead from. -/
def JumpTargets.MayLabel (targets : JumpTargets) (body : Stmts) (k : Sketch)
    (cur : Option BlockId) : Prop :=
  body.labelled = true → ∃ d, targets.dispatch = some d ∧ d < k.size ∧ cur ≠ some d

namespace Exits

theorem one_seq (R : Exits) : seq { normal := 1 } R = R := by
  unfold seq
  ext1
  all_goals simp only [one_mul, zero_add]

end Exits

namespace Build

variable {α : Type} {p : Program} {read : StatementReader} {targets : JumpTargets}
  {limit t : TokenId} {start next : Option TokenId} {inside : List TokenId} {R : Exits}
  {body rest : Stmts} {first : Stmt}

/-- Read from a live block, the statements in a row end with the answer for the block that is live
then, and what they add to the graph is what they do. -/
def FollowsAll (p : Program) (m : Option BlockId → Build α) (answer : Option BlockId → α)
    (targets : JumpTargets) (body : Stmts) : Prop :=
  ∀ k cur, k.Ready cur → targets.MayLabel body k cur → ∃ k' out new,
    Draws (m cur) k (answer out) k' ∧ k.Grows cur new k' out ∧
    k.Does cur k' out targets (body.runs p) ∧ k.Arms p body targets cur new k' out

theorem followsAll_nil : FollowsAll p (fun cur => pure cur) id targets .nil := by
  intro k cur hk _
  refine ⟨k, cur, [], draws_pure k cur, .refl hk, k.does_nothing cur targets, nofun, rfl,
    fun _ => rfl, fun _ _ _ _ _ => ?_⟩
  exact Exits.zero_lead.symm

theorem followsAll_cons {m : Option BlockId → Build AfterStatement}
    {more : AfterStatement → Build (Option BlockId)}
    (hfirst : Follows m next targets (first.runs p))
    (hrest : FollowsAll p (fun cur => more (next, cur)) id targets rest) :
    FollowsAll p (fun cur => m cur >>= more) id targets (.cons first rest) := by
  intro k cur hk hlabel
  obtain ⟨k₁, mid, hdraws₁, hgrows₁, hdoes₁⟩ := hfirst k cur hk
  have hlabel₁ : targets.MayLabel rest k₁ mid := by
    intro hrest
    obtain ⟨d, hd, hheld, hcur⟩ := hlabel hrest
    exact ⟨d, hd, Nat.lt_of_lt_of_le hheld hgrows₁.size, hgrows₁.out_ne hheld hcur⟩
  obtain ⟨k₂, out, new, hdraws₂, hgrows₂, hdoes₂, harms⟩ := hrest k₁ mid (hgrows₁.ready hk) hlabel₁
  have hnew : ∀ e ∈ new, e.src < k.size ∧ cur ≠ some e.src := by
    intro e he
    cases hlabelled : rest.labelled with
    | false =>
      rw [harms.unlabelled hlabelled] at he
      exact absurd he List.not_mem_nil
    | true =>
      obtain ⟨d, hd, hheld, hcur⟩ := hlabel hlabelled
      obtain rfl := Option.some.inj (hd.symm.trans (harms.sources e he))
      exact ⟨hheld, hcur⟩
  refine ⟨k₂, out, [] ++ new, hdraws₁.bind hdraws₂, hgrows₁.trans hgrows₂ hk hnew,
    hdoes₁.seq hdoes₂ hgrows₁ hgrows₂ hnew, ?_⟩
  exact ⟨harms.sources, harms.default, harms.unlabelled,
    fun subject g after hg hafter => harms.entries subject g after (hg.last hgrows₁) hafter⟩

/-- Statements without labels are a statement. -/
theorem FollowsAll.follows {m : Option BlockId → Build AfterStatement}
    (h : FollowsAll p m (fun out => (next, out)) targets body) (hbody : body.labelled = false) :
    Follows m next targets (body.runs p) := by
  intro k cur hk
  have hlabel : targets.MayLabel body k cur := fun htrue => absurd (hbody.symm.trans htrue) nofun
  obtain ⟨k', out, new, hdraws, hgrows, hdoes, harms⟩ := h k cur hk hlabel
  rw [harms.unlabelled hbody] at hgrows
  exact ⟨k', out, hdraws, hgrows, hdoes⟩

/-! ### Labels -/

theorem draws_caseLabel {k : Sketch} {cur : Option BlockId} {d : BlockId} {l : ArmLabel}
    {us : List TokenId} {after : Option TokenId} (hl : l.Rendered p)
    (hplaced : p.Placed limit start (l.tokens ++ us) after) (hd : d < k.size)
    (hcur : ∀ b, cur = some b → b < k.size) :
    ∃ e : Edge, e.src = d ∧ e.dst = k.size ∧ e.IsTo p l ∧
      Draws (Body.caseLabel p d limit l.keyword cur) k (p.nextOf l.colon, some k.size)
        (((k.add []).link e).linkFrom cur k.size) := by
  obtain ⟨keyword, value, colon⟩ := l
  obtain ⟨hcolon, hvalue⟩ := hl
  have hassoc : (ArmLabel.mk keyword value colon).tokens ++ us =
      keyword :: (value.getD [] ++ colon :: us) := by
    simp [ArmLabel.tokens]
  rw [hassoc] at hplaced
  obtain ⟨rfl, -, hrest⟩ := hplaced.cons
  have hheld : ∀ b, cur = some b → b < k.size + 1 := fun b hb => Nat.lt_succ_of_lt (hcur b hb)
  cases value with
  | none =>
    obtain ⟨hnext, -, -⟩ := hrest.cons
    refine ⟨{ src := d, dst := k.size, kind := .switchDefault }, rfl, rfl, ⟨rfl, fun _ => rfl⟩, ?_⟩
    unfold Body.caseLabel
    simp only at hvalue hcolon hnext
    rw [if_pos hvalue, hnext]
    refine (draws_newBlock k .defaultLabel []).bind ?_
    refine (draws_edge ?_ k.size .switchDefault none none).bind ?_
    · exact Nat.lt_succ_of_lt hd
    refine (draws_pure _ (k.size, some colon)).bind ?_
    simp only [if_pos hcolon]
    refine (draws_edgeFrom ?_ k.size .fallThrough).bind (draws_pure _ _)
    exact hheld
  | some ts =>
    obtain ⟨hword, hpaired⟩ := hvalue
    simp only at hword hpaired hcolon
    have hnot : p.text keyword ≠ "default" := by
      rw [hword]
      decide
    have hscan : p.labelTokens limit p.tokens.size 0 (p.nextOf keyword) = (ts, some colon) := by
      have hlength := hrest.length
      rw [Option.getD_some, List.length_append, List.length_cons] at hlength
      exact Program.labelTokens_eq hpaired hcolon hrest (by omega)
    refine ⟨{ src := d, dst := k.size, kind := .switchCase, label := some (" ".intercalate (ts.map p.text)), value := p.labelValue? ts }, rfl, rfl, ⟨rfl, fun _ => rfl⟩, ?_⟩
    unfold Body.caseLabel
    simp only [if_neg hnot, hscan]
    refine (draws_newBlock k .caseLabel []).bind ?_
    refine (draws_edge ?_ k.size .switchCase _ _).bind ?_
    · exact Nat.lt_succ_of_lt hd
    refine (draws_pure _ (k.size, some colon)).bind ?_
    simp only [if_pos hcolon]
    refine (draws_edgeFrom ?_ k.size .fallThrough).bind (draws_pure _ _)
    exact hheld

theorem grows_label {k : Sketch} {cur : Option BlockId} {e : Edge} (hk : k.Ready cur)
    (hsrc : e.src < k.size) (hcur : cur ≠ some e.src) :
    k.Grows cur [e] (((k.add []).link e).linkFrom cur k.size) (some k.size) where
  size := Nat.le_succ _
  tokens b hb _ := if_neg (Nat.ne_of_lt hb)
  succs b hb hne := by
    rw [Sketch.linkFrom_succs, if_neg hne, Sketch.link_succs, Sketch.add_succs,
      if_neg (Nat.ne_of_lt hb)]
    by_cases hbe : b = e.src
    · simp [hbe]
    · simp [hbe, Ne.symm hbe]
  more b hb := by
    have htokens : (((k.add []).link e).linkFrom cur k.size).tokens b = k.tokens b :=
      if_neg (Nat.ne_of_lt (hk.held b hb))
    rw [htokens]
  plain b hb e' he := by
    have hne : b ≠ e.src := fun heq => hcur (heq ▸ hb)
    rw [Sketch.linkFrom_succs, if_pos hb, Sketch.link_succs, if_neg hne, Sketch.add_succs,
      if_neg (Nat.ne_of_lt (hk.held b hb)), hk.loose b hb] at he
    rw [List.mem_singleton.1 he]
    rfl
  sources e' he := by
    rw [List.mem_singleton.1 he]
    exact ⟨hsrc, hcur⟩
  fresh := by
    rintro _ ⟨⟩
    exact .inr (Nat.le_refl _)
  held := by
    rintro _ ⟨⟩
    exact Nat.lt_succ_self _
  loose := by
    rintro _ ⟨⟩
    rw [Sketch.linkFrom_succs, if_neg (hk.cur_ne (Nat.le_refl _)), Sketch.link_succs,
      if_neg (Nat.ne_of_gt hsrc), Sketch.add_succs, if_pos rfl]

theorem does_label {k : Sketch} {cur : Option BlockId} {e : Edge} (hk : k.Ready cur)
    (hcur : cur ≠ some e.src) (targets : JumpTargets) :
    k.Does cur (((k.add []).link e).linkFrom cur k.size) (some k.size) targets { normal := 1 } := by
  intro g after hg hafter b hb
  have hlt : b < k.size + 1 := Nat.lt_succ_of_lt (hk.held b hb)
  have hold : b ≠ k.size := Nat.ne_of_lt (hk.held b hb)
  have hout : some k.size ≠ some b := fun heq => hold (Option.some.inj heq).symm
  have hne : b ≠ e.src := fun heq => hcur (heq ▸ hb)
  have htokens : (g.block b).tokens = k.tokens b := by
    rw [hg.tokens b hlt (.inr hb) hout]
    exact if_neg hold
  have hsuccs : g.succEdges b = [{ src := b, dst := k.size }] := by
    rw [hg.succs b hlt (.inr hb) hout, Sketch.linkFrom_succs, if_pos hb, Sketch.link_succs,
      if_neg hne, Sketch.add_succs, if_neg hold, hk.loose b hb]
    rfl
  have hnew : (((k.add []).link e).linkFrom cur k.size).tokens k.size = [] := if_pos rfl
  rw [Exits.normal_lead, one_mul, ← htokens, FlowGraph.ahead_of_edge hsuccs,
    FlowGraph.paths_eq_ahead (hg.ne_exit hk (Nat.le_refl _)) (hg.plain _ rfl)]
  show _ = after
  rw [hafter _ rfl, hnew]
  rfl

theorem followsAll_label {l : ArmLabel} {us : List TokenId} {after : Option TokenId}
    {more : AfterStatement → Build (Option BlockId)} (hl : l.Rendered p)
    (hplaced : p.Placed limit start (l.tokens ++ us) after)
    (hrest : FollowsAll p (fun cur => more (p.nextOf l.colon, cur)) id targets rest) :
    FollowsAll p (fun cur => Body.caseLabel p (targets.dispatch.getD 0) limit l.keyword cur >>=
      more) id targets (.label l rest) := by
  intro k cur hk hlabel
  obtain ⟨d, hd, hheld, hcur⟩ := hlabel rfl
  obtain ⟨e, rfl, hdst, hto, hdraws₁⟩ := draws_caseLabel hl hplaced hheld hk.held
  have hgrows₁ := grows_label hk hheld hcur
  have hdoes₁ := does_label hk hcur targets
  let k₁ := ((k.add []).link e).linkFrom cur k.size
  have hready := hgrows₁.ready hk
  have hlabel₁ : targets.MayLabel rest k₁ (some k.size) :=
    fun _ => ⟨e.src, hd, Nat.lt_succ_of_lt hheld, fun heq => Nat.ne_of_gt hheld (Option.some.inj heq)⟩
  obtain ⟨k₂, out, new, hdraws₂, hgrows₂, hdoes₂, harms⟩ := hrest k₁ (some k.size) hready hlabel₁
  have hnew : ∀ e' ∈ new, e'.src < k.size ∧ cur ≠ some e'.src := by
    intro e' he
    obtain hsrc := Option.some.inj (hd.symm.trans (harms.sources e' he))
    rw [← hsrc]
    exact ⟨hheld, hcur⟩
  have hdoes := hdoes₁.seq hdoes₂ hgrows₁ hgrows₂ hnew
  rw [Exits.one_seq] at hdoes
  rw [hd]
  refine ⟨k₂, out, [e] ++ new, hdraws₁.bind hdraws₂, hgrows₁.trans hgrows₂ hk hnew, hdoes, ?_, ?_,
    fun hfalse => absurd hfalse nofun, ?_⟩
  · intro e' he
    rcases List.mem_append.1 he with he | he
    · rw [List.mem_singleton.1 he, hd]
    · exact harms.sources e' he
  · show ((e.kind == .switchDefault) || new.any fun e => e.kind == .switchDefault) = _
    rw [hto.default, harms.default]
    rfl
  · intro subject g after hg hafter
    have hblock : g.paths k.size = (rest.runs p).lead (targets.exits g after) := by
      have hplain := (hg.first hgrows₁ hgrows₂ hnew).plain k.size rfl
      have hrest := hdoes₂ g after (hg.last hgrows₁) hafter k.size rfl
      have htokens : k₁.tokens k.size = [] := if_pos rfl
      rw [htokens] at hrest
      rw [FlowGraph.paths_eq_ahead (hg.ne_exit hk (Nat.le_refl _)) hplain]
      exact hrest
    rw [List.map_append, List.sum_append, harms.entries subject g after (hg.last hgrows₁) hafter]
    show _ = Exits.lead (((rest.runs p).after (chosen subject (l.text p))) + rest.entries p subject) _
    rw [Exits.add_lead, Exits.after_lead, ← hblock]
    simp [hto.events, hdst]
    rfl

/-! ### The statement -/

theorem draws_switchStatement {k k₂ : Sketch} {cur out : Option BlockId} {new : List Edge}
    (hheader : ∀ k, Draws (header p "switch" (p.nextOf t)) k (inside, start) k) (hk : k.Ready cur)
    (hbody : Draws
      (read { targets with breakTo := some (k.size + 1), dispatch := some k.size } limit start none)
      (((k.add inside).linkFrom cur k.size).add []) (next, out) k₂)
    (hgrows : (((k.add inside).linkFrom cur k.size).add []).Grows none new k₂ out)
    (hdispatch : (k₂.linkFrom out (k.size + 1)).succs k.size = new) :
    Draws (Body.switchStatement p read targets limit t cur) k (next, some (k.size + 1))
      ((k₂.linkFrom out (k.size + 1)).linkIf
        (¬ (new.any fun e => e.kind == .switchDefault) = true)
        { src := k.size, dst := k.size + 1, kind := .switchDefault }) := by
  refine (draws_conditionBlock hheader hk .switchDispatch).bind ?_
  refine (draws_newBlock _ .switchAfter []).bind ?_
  refine hbody.bind ?_
  refine (draws_edgeFrom hgrows.held (k.size + 1) .fallThrough).bind ?_
  refine draws_get fun s hs => ?_
  -- By now the dispatch leads to the labels, and to nothing else.
  have hlabels : s.graph.succEdges k.size = new := (hs.succs k.size).trans hdispatch
  show Draws (if ¬ ((s.graph.succEdges k.size).any fun e => e.kind == .switchDefault) = true then
    edge k.size (k.size + 1) .switchDefault >>= fun _ => pure (next, some (k.size + 1))
    else pure (next, some (k.size + 1))) _ _ _
  rw [hlabels]
  refine draws_edgeIf ?_ _ (draws_pure _ _)
  exact Nat.lt_of_lt_of_le (show k.size < k.size + 2 by omega) hgrows.size

theorem switchStatement_follows
    (hheader : ∀ k, Draws (header p "switch" (p.nextOf t)) k (inside, start) k)
    (hbody : ∀ inner, FollowsAll p (read inner limit start) (fun out => (next, out)) inner body) :
    Follows (Body.switchStatement p read targets limit t) next targets
      (body.entries p inside +
        if body.hasDefault then 0 else { normal := chosen inside none }).catchBreak := by
  intro k cur hk
  let dispatch := k.size
  let after := k.size + 1
  let inner := { targets with breakTo := some after, dispatch := some dispatch }
  let k₁ := ((k.add inside).linkFrom cur dispatch).add []
  have hcur : cur ≠ some dispatch := hk.cur_ne (Nat.le_refl _)
  have hk₁ : k₁.Ready none := ⟨Nat.le_trans hk.size (Nat.le_add_right _ 2), nofun, nofun, nofun⟩
  have hlabel : inner.MayLabel body k₁ none :=
    fun _ => ⟨dispatch, rfl, show k.size < k.size + 2 by omega, nofun⟩
  obtain ⟨k₂, out, new, hdraws, hgrows, -, harms⟩ := hbody inner k₁ none hk₁ hlabel
  have hsource : ∀ e ∈ new, e.src = dispatch :=
    fun e he => (Option.some.inj (harms.sources e he)).symm
  have hsize : k.size + 2 ≤ k₂.size := hgrows.size
  let q : Prop := ¬ (new.any fun e => e.kind == .switchDefault) = true
  let k₃ := (k₂.linkFrom out after).linkIf q
    { src := dispatch, dst := after, kind := .switchDefault }
  have hdispatch : (k₂.linkFrom out after).succs dispatch = new := by
    have hheld : dispatch < k₁.size := show k.size < k.size + 2 by omega
    rw [Sketch.linkFrom_succs, if_neg (hgrows.out_ne hheld nofun), hgrows.succs _ hheld nofun]
    have hall : new.filter (·.src = dispatch) = new :=
      List.filter_eq_self.2 fun e he => decide_eq_true (hsource e he)
    rw [hall]
    simp [k₁, dispatch, hcur]
  have hentered : k.Entered cur dispatch k₃ := by
    have hhead : k.Entered cur dispatch k₁ := ((Sketch.Entered.refl k).add.enter cur dispatch).add
    have hread : k.Entered cur dispatch k₂ :=
      hhead.grow hgrows nofun fun e he => Nat.le_of_eq (hsource e he).symm
    refine (hread.linkFrom fun c hc => ?_).linkIf (Nat.le_refl _)
    rcases hgrows.fresh c hc with hnone | hle
    · exact absurd hnone nofun
    · exact Nat.le_trans (Nat.le_add_right _ 2) hle
  have hopens : k.Opens k₃ (some after) := by
    have hheld : after < k₁.size := show k.size + 1 < k.size + 2 by omega
    have hne : after ≠ dispatch := Nat.succ_ne_self _
    have hnone : new.filter (·.src = after) = [] := by
      refine List.filter_eq_nil_iff.2 fun e he hsrc => hne ?_
      rw [← hsource e he, of_decide_eq_true hsrc]
    refine Sketch.opens_some (Nat.le_succ _) (Nat.lt_of_lt_of_le hheld hsize) ?_ ?_
    · refine (hgrows.tokens after hheld nofun).trans ?_
      simp [k₁, after]
    · rw [Sketch.linkIf_succs, if_neg fun hn => hne hn.2, Sketch.linkFrom_succs,
        if_neg (hgrows.out_ne hheld nofun), hgrows.succs _ hheld nofun, hnone]
      simp [k₁, after]
  refine ⟨k₃, some after, draws_switchStatement hheader hk hdraws hgrows hdispatch,
    hentered.grows hk hopens, hentered.does hk hopens fun g hg last hlast => ?_⟩
  obtain rfl : last = g.paths after := hlast after rfl
  have hentries : (new.map fun e => {e.events inside} * g.paths e.dst).sum =
      (body.entries p inside).lead (inner.exits g (g.paths after)) := by
    have hinner : Settled g k₁ none (k₂.linkFrom out after) none := by
      refine hg.inner (Nat.le_add_right _ 2) nofun ?_ (Nat.le_refl _) ?_
      · rintro _ ⟨⟩
        exact .inr ⟨show k.size + 1 < k.size + 2 by omega, nofun⟩
      · intro c _ hin
        refine ⟨rfl, if_neg ?_⟩
        rintro ⟨-, rfl⟩
        have hle : k.size + 2 ≤ k.size := hin.elim id nofun
        omega
    obtain ⟨hpiece, hahead⟩ :=
      hinner.of_linkFrom (show EdgeKind.fallThrough.isPlain = true from rfl) hgrows
    exact harms.entries inside g _ hpiece fun c hc => (hahead c hc).symm
  obtain ⟨htokens, hsuccs⟩ := hg.block (Nat.le_refl dispatch)
    (Nat.lt_of_lt_of_le (show k.size < k.size + 2 by omega) hsize) (by simp [after, dispatch])
  have hinside : k₃.tokens dispatch = inside := by
    refine (hgrows.tokens dispatch (show k.size < k.size + 2 by omega) nofun).trans ?_
    simp [k₁, dispatch]
  have hedges : k₃.succs dispatch = new ++ if body.hasDefault then [] else
      [{ src := dispatch, dst := after, kind := .switchDefault }] := by
    rw [Sketch.linkIf_succs, hdispatch, ← harms.default]
    by_cases hdefault : (new.any fun e => e.kind == .switchDefault) = true
    · rw [if_neg fun hn => hn.1 hdefault, if_pos hdefault, List.append_nil]
    · rw [if_pos ⟨hdefault, rfl⟩, if_neg hdefault]
  have hexit : dispatch ≠ g.exit := hg.ne_exit hk (Nat.le_refl _)
  rw [Exits.catchBreak_lead, Exits.add_lead, FlowGraph.paths_of_ne_exit hexit, htokens, hsuccs,
    hinside, hedges, List.map_append, List.sum_append, hentries]
  refine congrArg _ ?_
  split_ifs
  · rw [Exits.zero_lead]
    rfl
  · rw [Exits.normal_lead]
    simp [Edge.events, chosen]
    rfl

end Build

end DivisorCheck
