/-
  What reading one piece of a body does to the sketch, and what this means for the
  graph in the end.

  A piece is read with a block that is live, and leaves another one live, or none.
  Of the blocks that were there before it changes the live one only, apart from
  edges to labels that it adds to the dispatch of the `switch` around it
  (`Sketch.Grows`).  So a block that is neither new nor live is not touched later
  on: the graph in the end agrees with the sketch about all blocks of the piece,
  except that the block it leaves live may grow (`Settled`).

  `Sketch.Does` is the meaning of a piece, as seen from the end: whatever follows
  it, the paths from where it started are the traces of the piece and then what
  follows.
-/
import DivisorCheck.Proofs.Flow.Path
import DivisorCheck.Proofs.Flow.Sketch

namespace DivisorCheck

open scoped Computability

/-! ### What is changed -/

/-- Code may be added to the live block: it is no exit, and nothing leaves it yet. -/
structure Sketch.Ready (k : Sketch) (cur : Option BlockId) : Prop where
  size : 2 ≤ k.size
  held : ∀ b, cur = some b → b < k.size
  inner : ∀ b, cur = some b → b ≠ 1
  loose : ∀ b, cur = some b → k.succs b = []

/-- From one sketch to another only the live block has changed and others have been added, apart
from the edges in `new`. -/
structure Sketch.Grows (k : Sketch) (cur : Option BlockId) (new : List Edge) (k' : Sketch)
    (out : Option BlockId) : Prop where
  size : k.size ≤ k'.size
  tokens : ∀ b < k.size, cur ≠ some b → k'.tokens b = k.tokens b
  succs : ∀ b < k.size, cur ≠ some b → k'.succs b = k.succs b ++ new.filter (·.src = b)
  more : ∀ b, cur = some b → k.tokens b <+: k'.tokens b
  plain : ∀ b, cur = some b → ∀ e ∈ k'.succs b, e.kind.isPlain = true
  sources : ∀ e ∈ new, e.src < k.size ∧ cur ≠ some e.src
  fresh : ∀ c, out = some c → cur = some c ∨ k.size ≤ c
  held : ∀ c, out = some c → c < k'.size
  loose : ∀ c, out = some c → k'.succs c = []

/-- A graph in the end, as far as it is known after a piece: the new blocks and the one that was
live are as they are now, and the one that is live now goes on without a decision. -/
structure Settled (g : FlowGraph) (k : Sketch) (cur : Option BlockId) (k' : Sketch)
    (out : Option BlockId) : Prop where
  exit : g.exit = 1
  tokens : ∀ b < k'.size, k.size ≤ b ∨ cur = some b → out ≠ some b →
    (g.block b).tokens = k'.tokens b
  succs : ∀ b < k'.size, k.size ≤ b ∨ cur = some b → out ≠ some b →
    g.succEdges b = k'.succs b
  more : ∀ c, out = some c → k'.tokens c <+: (g.block c).tokens
  plain : ∀ c, out = some c → ∀ e ∈ g.succEdges c, e.kind.isPlain = true

namespace Sketch

variable {k k₁ k' : Sketch} {cur mid out : Option BlockId} {new more : List Edge} {g : FlowGraph}

namespace Grows

theorem refl (h : k.Ready cur) : k.Grows cur [] k cur where
  size := Nat.le_refl _
  tokens _ _ _ := rfl
  succs _ _ _ := (List.append_nil _).symm
  more _ _ := List.prefix_rfl
  plain b hb e he := by
    rw [h.loose b hb] at he
    exact absurd he List.not_mem_nil
  sources _ he := absurd he List.not_mem_nil
  fresh _ hc := .inl hc
  held := h.held
  loose := h.loose

theorem ready (h : k.Grows cur new k' out) (hk : k.Ready cur) : k'.Ready out where
  size := Nat.le_trans hk.size h.size
  held := h.held
  inner c hc := by
    rcases h.fresh c hc with hcur | hsize
    · exact hk.inner c hcur
    · exact Nat.ne_of_gt (Nat.lt_of_lt_of_le (Nat.lt_of_lt_of_le Nat.one_lt_two hk.size) hsize)
  loose := h.loose

/-- A block that was there before and was not live is not live now. -/
theorem out_ne (h : k.Grows cur new k' out) {b : BlockId} (hb : b < k.size) (hcur : cur ≠ some b) :
    out ≠ some b := by
  intro hout
  rcases h.fresh b hout with hlive | hsize
  · exact hcur hlive
  · exact Nat.lt_irrefl _ (Nat.lt_of_lt_of_le hb hsize)

theorem succs_eq (h : k.Grows cur [] k' out) {b : BlockId} (hb : b < k.size)
    (hcur : cur ≠ some b) : k'.succs b = k.succs b := by
  rw [h.succs b hb hcur]
  exact List.append_nil _

theorem trans (h₁ : k.Grows cur new k₁ mid) (h₂ : k₁.Grows mid more k' out) (hk : k.Ready cur)
    (hmore : ∀ e ∈ more, e.src < k.size ∧ cur ≠ some e.src) :
    k.Grows cur (new ++ more) k' out where
  size := Nat.le_trans h₁.size h₂.size
  tokens b hb hcur := by
    rw [h₂.tokens b (Nat.lt_of_lt_of_le hb h₁.size) (h₁.out_ne hb hcur), h₁.tokens b hb hcur]
  succs b hb hcur := by
    rw [h₂.succs b (Nat.lt_of_lt_of_le hb h₁.size) (h₁.out_ne hb hcur), h₁.succs b hb hcur,
      List.filter_append, List.append_assoc]
  more b hb := by
    have hfirst := h₁.more b hb
    by_cases hmid : mid = some b
    · exact hfirst.trans (h₂.more b hmid)
    · rw [h₂.tokens b (Nat.lt_of_lt_of_le (hk.held b hb) h₁.size) hmid]
      exact hfirst
  plain b hb e he := by
    by_cases hmid : mid = some b
    · exact h₂.plain b hmid e he
    · have hnone : more.filter (·.src = b) = [] := by
        refine List.filter_eq_nil_iff.2 fun e he hsrc => (hmore e he).2 ?_
        rw [hb, of_decide_eq_true hsrc]
      rw [h₂.succs b (Nat.lt_of_lt_of_le (hk.held b hb) h₁.size) hmid, hnone,
        List.append_nil] at he
      exact h₁.plain b hb e he
  sources e he := by
    rcases List.mem_append.1 he with he | he
    · exact h₁.sources e he
    · exact hmore e he
  fresh c hc := by
    rcases h₂.fresh c hc with hmid | hsize
    · exact h₁.fresh c hmid
    · exact .inr (Nat.le_trans h₁.size hsize)
  held := h₂.held
  loose := h₂.loose

end Grows

end Sketch

/-! ### What is settled -/

namespace Settled

variable {k k₁ k' : Sketch} {cur mid out : Option BlockId} {new more : List Edge} {g : FlowGraph}

/-- A new block is as it is now, unless it is live. -/
theorem block {b : BlockId} (h : Settled g k cur k' out) (hb : k.size ≤ b) (hheld : b < k'.size)
    (hout : out ≠ some b) : (g.block b).tokens = k'.tokens b ∧ g.succEdges b = k'.succs b :=
  ⟨h.tokens b hheld (.inl hb) hout, h.succs b hheld (.inl hb) hout⟩

theorem ne_exit {b : BlockId} (h : Settled g k cur k' out) (hk : k.Ready cur) (hb : k.size ≤ b) :
    b ≠ g.exit := by
  rw [h.exit]
  exact Nat.ne_of_gt (Nat.lt_of_lt_of_le hk.size hb)

/-- What is settled after two pieces is settled after the second one. -/
theorem last (h : Settled g k cur k' out) (h₁ : k.Grows cur new k₁ mid) :
    Settled g k₁ mid k' out := by
  have hpiece : ∀ b, k₁.size ≤ b ∨ mid = some b → k.size ≤ b ∨ cur = some b := by
    rintro b (hsize | hmid)
    · exact .inl (Nat.le_trans h₁.size hsize)
    · exact (h₁.fresh b hmid).symm
  exact ⟨h.exit, fun b hb hin => h.tokens b hb (hpiece b hin),
    fun b hb hin => h.succs b hb (hpiece b hin), h.more, h.plain⟩

/-- What is settled after two pieces is settled after the first one. -/
theorem first (h : Settled g k cur k' out) (h₁ : k.Grows cur new k₁ mid)
    (h₂ : k₁.Grows mid more k' out) (hmore : ∀ e ∈ more, e.src < k.size ∧ cur ≠ some e.src) :
    Settled g k cur k₁ mid := by
  have hnone : ∀ b, k.size ≤ b ∨ cur = some b → more.filter (·.src = b) = [] := by
    intro b hin
    refine List.filter_eq_nil_iff.2 fun e he hsrc => ?_
    obtain ⟨hsize, hcur⟩ := hmore e he
    rw [of_decide_eq_true hsrc] at hsize hcur
    exact hin.elim (fun hle => Nat.lt_irrefl _ (Nat.lt_of_lt_of_le hsize hle)) hcur
  have hmid : ∀ c, mid = some c → k.size ≤ c ∨ cur = some c := fun c hc => (h₁.fresh c hc).symm
  refine ⟨h.exit, fun b hb hin hne => ?_, fun b hb hin hne => ?_, fun c hc => ?_, fun c hc => ?_⟩
  · rw [h.tokens b (Nat.lt_of_lt_of_le hb h₂.size) hin (h₂.out_ne hb hne), h₂.tokens b hb hne]
  · rw [h.succs b (Nat.lt_of_lt_of_le hb h₂.size) hin (h₂.out_ne hb hne), h₂.succs b hb hne,
      hnone b hin, List.append_nil]
  · by_cases hout : out = some c
    · exact (h₂.more c hc).trans (h.more c hout)
    · have hlt := Nat.lt_of_lt_of_le (h₁.held c hc) h₂.size
      rw [h.tokens c hlt (hmid c hc) hout]
      exact h₂.more c hc
  · by_cases hout : out = some c
    · exact h.plain c hout
    · have hlt := Nat.lt_of_lt_of_le (h₁.held c hc) h₂.size
      rw [h.succs c hlt (hmid c hc) hout]
      exact h₂.plain c hc

/-- The live block at the end of a piece is left along one edge. -/
theorem of_linkFrom {dst : BlockId} {kind : EdgeKind} (hkind : kind.isPlain = true)
    (h : Settled g k cur (k'.linkFrom out dst kind) none) (h₁ : k.Grows cur new k' out) :
    Settled g k cur k' out ∧ ∀ c, out = some c → g.ahead c (k'.tokens c).length = g.paths dst := by
  have hout : ∀ c, out = some c →
      (g.block c).tokens = k'.tokens c ∧ g.succEdges c = [{ src := c, dst, kind }] := by
    intro c hc
    have hin : k.size ≤ c ∨ cur = some c := (h₁.fresh c hc).symm
    have htokens := h.tokens c (by simpa using h₁.held c hc) hin nofun
    have hsuccs := h.succs c (by simpa using h₁.held c hc) hin nofun
    rw [Sketch.linkFrom_tokens] at htokens
    rw [Sketch.linkFrom_succs, if_pos hc, h₁.loose c hc] at hsuccs
    exact ⟨htokens, hsuccs⟩
  refine ⟨⟨h.exit, fun b hb hin hne => ?_, fun b hb hin hne => ?_, fun c hc => ?_, fun c hc => ?_⟩,
    fun c hc => ?_⟩
  · rw [h.tokens b (by simpa using hb) hin nofun, Sketch.linkFrom_tokens]
  · rw [h.succs b (by simpa using hb) hin nofun, Sketch.linkFrom_succs, if_neg hne]
  · rw [(hout c hc).1]
  · rw [(hout c hc).2]
    intro e he
    rw [List.mem_singleton.1 he]
    exact hkind
  · rw [← (hout c hc).1]
    exact FlowGraph.ahead_of_edge (hout c hc).2

end Settled

/-! ### What a piece means -/

/-- Where the ways to leave a piece lead, if what comes after it is given. -/
def JumpTargets.exits (targets : JumpTargets) (g : FlowGraph) (after : Language Event) : Exits where
  normal := after
  broke := g.paths (targets.breakTo.getD g.exit)
  continued := g.paths (targets.continueTo.getD g.exit)
  returned := g.paths g.exit

namespace Sketch

variable {k k₁ k' : Sketch} {cur mid out : Option BlockId} {new more : List Edge}
  {targets : JumpTargets} {R S : Exits}

/-- In the end, what comes after the tokens that the live block had before a piece are the traces
of the piece with what follows it in each case. -/
def Does (k : Sketch) (cur : Option BlockId) (k' : Sketch) (out : Option BlockId)
    (targets : JumpTargets) (R : Exits) : Prop :=
  ∀ g after, Settled g k cur k' out →
    (∀ c, out = some c → after = g.ahead c (k'.tokens c).length) →
    ∀ b, cur = some b → g.ahead b (k.tokens b).length = R.lead (targets.exits g after)

theorem does_nothing (k : Sketch) (cur : Option BlockId) (targets : JumpTargets) :
    k.Does cur k cur targets { normal := 1 } := by
  intro g after _ hafter b hb
  rw [← hafter b hb, Exits.normal_lead, one_mul]
  rfl

theorem Does.seq (hR : k.Does cur k₁ mid targets R) (hS : k₁.Does mid k' out targets S)
    (h₁ : k.Grows cur new k₁ mid) (h₂ : k₁.Grows mid more k' out)
    (hmore : ∀ e ∈ more, e.src < k.size ∧ cur ≠ some e.src) :
    k.Does cur k' out targets (R.seq S) := by
  intro g after hg hafter b hb
  have hlast : ∀ c, mid = some c →
      S.lead (targets.exits g after) = g.ahead c (k₁.tokens c).length :=
    fun c hc => (hS g after (hg.last h₁) hafter c hc).symm
  rw [hR g _ (hg.first h₁ h₂ hmore) hlast b hb, Exits.seq_lead]
  rfl

/-- The paths from a new block that a piece was read into, and that was then left for another. -/
theorem Does.paths {g : FlowGraph} {b dst : BlockId} {kind : EdgeKind} {after : Language Event}
    (hR : k.Does (some b) k' out targets R) (hk : k.Ready (some b)) (hb : k.tokens b = [])
    (h₁ : k.Grows (some b) new k' out) (hkind : kind.isPlain = true)
    (hg : Settled g k (some b) (k'.linkFrom out dst kind) none)
    (hafter : ∀ c, out = some c → after = g.paths dst) :
    g.paths b = R.lead (targets.exits g after) := by
  obtain ⟨hsettled, hahead⟩ := hg.of_linkFrom hkind h₁
  have hlength : b < (k'.linkFrom out dst kind).size := by
    rw [linkFrom_size]
    exact Nat.lt_of_lt_of_le (hk.held b rfl) h₁.size
  have hplain : ∀ e ∈ g.succEdges b, e.kind.isPlain = true := by
    rw [hg.succs b hlength (.inr rfl) nofun, linkFrom_succs]
    intro e he
    split_ifs at he
    · rcases List.mem_append.1 he with he | he
      · exact h₁.plain b rfl e he
      · rw [List.mem_singleton.1 he]
        exact hkind
    · exact h₁.plain b rfl e he
  have hexit : b ≠ g.exit := by
    rw [hg.exit]
    exact hk.inner b rfl
  have hdoes := hR g after hsettled (fun c hc => (hafter c hc).trans (hahead c hc).symm) b rfl
  rw [hb] at hdoes
  rw [FlowGraph.paths_eq_ahead hexit hplain]
  exact hdoes

end Sketch

/-! ### Tokens at the end of the live block -/

/-- Where a jump leads. -/
def JumpTargets.jumpTo (targets : JumpTargets) (kind : Jump) : BlockId :=
  match kind with
  | .breakOut => targets.breakTo.getD 1
  | .continueLoop => targets.continueTo.getD 1
  | .returnOut => 1

theorem JumpTargets.paths_jumpTo {g : FlowGraph} (targets : JumpTargets) (kind : Jump)
    (hg : g.exit = 1) (after : Language Event) :
    g.paths (targets.jumpTo kind) = kind.follow (targets.exits g after) := by
  unfold jumpTo exits Jump.follow
  rw [hg]
  cases kind
  · rfl
  · rfl
  · rfl

namespace Sketch

variable {k k' : Sketch} {b : BlockId} {ts : List TokenId} {targets : JumpTargets}

theorem grows_append (hk : k.Ready (some b)) (ts : List TokenId) :
    k.Grows (some b) [] (k.append b ts) (some b) where
  size := Nat.le_refl _
  tokens c _ hc := if_neg fun heq => hc (congrArg some heq.symm)
  succs c _ _ := (List.append_nil _).symm
  more := by
    rintro _ ⟨⟩
    rw [append_tokens, if_pos rfl]
    exact List.prefix_append _ _
  plain c hc e he := by
    rw [append_succs, hk.loose c hc] at he
    exact absurd he List.not_mem_nil
  sources _ he := absurd he List.not_mem_nil
  fresh _ hc := .inl hc
  held := hk.held
  loose := hk.loose

theorem does_append (targets : JumpTargets) :
    k.Does (some b) (k.append b ts) (some b) targets { normal := emitted ts } := by
  intro g after hg hafter _ hb
  obtain rfl := Option.some.inj hb
  have hprefix : k.tokens b ++ ts <+: (g.block b).tokens := by
    have hmore := hg.more b rfl
    rwa [append_tokens, if_pos rfl] at hmore
  have htokens : (k.append b ts).tokens b = k.tokens b ++ ts := if_pos rfl
  rw [Exits.normal_lead, FlowGraph.ahead_eq_mul hprefix, ← htokens, ← hafter b rfl]
  rfl

theorem grows_jump (hk : k.Ready (some b)) (ts : List TokenId) {e : Edge} (hsrc : e.src = b)
    (hplain : e.kind.isPlain = true) :
    k.Grows (some b) [] ((k.append b ts).link e) none where
  size := Nat.le_refl _
  tokens := (grows_append hk ts).tokens
  succs c hc hne := by
    rw [link_succs, if_neg fun heq => hne (congrArg some (heq.trans hsrc).symm)]
    exact (grows_append hk ts).succs c hc hne
  more := (grows_append hk ts).more
  plain c hc e' he := by
    rw [link_succs, append_succs, hk.loose c hc] at he
    split_ifs at he
    · rw [List.mem_singleton.1 he, hplain]
    · exact absurd he List.not_mem_nil
  sources _ he := absurd he List.not_mem_nil
  fresh := nofun
  held := nofun
  loose := nofun

theorem does_jump (hk : k.Ready (some b)) {kind : Jump} {e : Edge} (hsrc : e.src = b)
    (hdst : e.dst = targets.jumpTo kind) :
    k.Does (some b) ((k.append b ts).link e) none targets (kind.exits (emitted ts)) := by
  intro g after hg _ _ hb
  obtain rfl := Option.some.inj hb
  have htokens : (g.block b).tokens = k.tokens b ++ ts := by
    rw [hg.tokens b (hk.held b rfl) (.inr rfl) nofun]
    exact if_pos rfl
  have hsuccs : g.succEdges b = [e] := by
    rw [hg.succs b (hk.held b rfl) (.inr rfl) nofun, link_succs, if_pos hsrc.symm, append_succs,
      hk.loose b rfl]
    rfl
  have hlast : g.ahead b (k.tokens b ++ ts).length = g.paths e.dst := by
    rw [← htokens]
    exact FlowGraph.ahead_of_edge hsuccs
  have hprefix : k.tokens b ++ ts <+: (g.block b).tokens := by rw [htokens]
  rw [Jump.exits_lead, FlowGraph.ahead_eq_mul hprefix, hlast, hdst,
    targets.paths_jumpTo kind hg.exit after]

end Sketch

/-! ### Pieces that begin with a block of their own -/

namespace Sketch

variable {k k₁ k' : Sketch} {cur out : Option BlockId} {dst b : BlockId} {ts : List TokenId}

theorem Ready.cur_ne (h : k.Ready cur) (hb : k.size ≤ b) : cur ≠ some b :=
  fun hcur => Nat.lt_irrefl _ (Nat.lt_of_lt_of_le (h.held b hcur) hb)

/-- A new block that nothing leaves may be the live one. -/
theorem Ready.new (h : k.Ready cur) (hb : k.size ≤ b) (hheld : b < k'.size)
    (hloose : k'.succs b = []) : k'.Ready (some b) where
  size := Nat.le_of_lt (Nat.lt_of_le_of_lt (Nat.le_trans h.size hb) hheld)
  held := by
    rintro _ ⟨⟩
    exact hheld
  inner := by
    rintro _ ⟨⟩
    exact Nat.ne_of_gt (Nat.le_trans h.size hb)
  loose := by
    rintro _ ⟨⟩
    exact hloose

/-- The live block has been left for `dst`, and no other block that was there has changed. -/
structure Entered (k : Sketch) (cur : Option BlockId) (dst : BlockId) (k' : Sketch) : Prop where
  size : k.size ≤ k'.size
  tokens : ∀ b < k.size, k'.tokens b = k.tokens b
  succs : ∀ b < k.size, k'.succs b = (k.linkFrom cur dst).succs b

/-- The block, if there is one, is new, and there is nothing in it yet. -/
structure Opens (k : Sketch) (k' : Sketch) (out : Option BlockId) : Prop where
  fresh : ∀ c, out = some c → k.size ≤ c
  held : ∀ c, out = some c → c < k'.size
  tokens : ∀ c, out = some c → k'.tokens c = []
  loose : ∀ c, out = some c → k'.succs c = []

theorem opens_some (hb : k.size ≤ b) (hheld : b < k'.size) (htokens : k'.tokens b = [])
    (hloose : k'.succs b = []) : k.Opens k' (some b) := by
  refine ⟨?_, ?_, ?_, ?_⟩
  all_goals
    rintro _ ⟨⟩
    assumption

namespace Entered

/-- Where no block is live, there is none to be left, for the entry or any other. -/
theorem refl (k : Sketch) : k.Entered none 0 k where
  size := Nat.le_refl _
  tokens _ _ := rfl
  succs _ _ := rfl

theorem enter (h : k.Entered none 0 k') (cur : Option BlockId) (dst : BlockId) :
    k.Entered cur dst (k'.linkFrom cur dst) where
  size := h.size
  tokens := h.tokens
  succs c hc := by
    rw [linkFrom_succs, linkFrom_succs, h.succs c hc]
    rfl

theorem add (h : k.Entered cur dst k') : k.Entered cur dst (k'.add ts) where
  size := Nat.le_succ_of_le h.size
  tokens b hb := by
    rw [add_tokens, if_neg (Nat.ne_of_lt (Nat.lt_of_lt_of_le hb h.size)), h.tokens b hb]
  succs b hb := by
    rw [add_succs, if_neg (Nat.ne_of_lt (Nat.lt_of_lt_of_le hb h.size)), h.succs b hb]

theorem link {e : Edge} (h : k.Entered cur dst k') (he : k.size ≤ e.src) :
    k.Entered cur dst (k'.link e) where
  size := h.size
  tokens := h.tokens
  succs b hb := by
    rw [link_succs, if_neg (Nat.ne_of_lt (Nat.lt_of_lt_of_le hb he)), h.succs b hb]

theorem linkIf {e : Edge} {q : Prop} [Decidable q] (h : k.Entered cur dst k')
    (he : k.size ≤ e.src) : k.Entered cur dst (k'.linkIf q e) where
  size := h.size
  tokens := h.tokens
  succs b hb := by
    rw [linkIf_succs, if_neg (fun hn => Nat.ne_of_lt (Nat.lt_of_lt_of_le hb he) hn.2), h.succs b hb]

theorem linkFrom {c : BlockId} {kind : EdgeKind} (h : k.Entered cur dst k')
    (hout : ∀ c, out = some c → k.size ≤ c) : k.Entered cur dst (k'.linkFrom out c kind) where
  size := h.size
  tokens := h.tokens
  succs b hb := by
    rw [linkFrom_succs, if_neg (fun hc => Nat.lt_irrefl _ (Nat.lt_of_lt_of_le hb (hout b hc))),
      h.succs b hb]

theorem append (h : k.Entered cur dst k') (hb : k.size ≤ b) :
    k.Entered cur dst (k'.append b ts) where
  size := h.size
  tokens c hc := by
    rw [append_tokens, if_neg (Nat.ne_of_lt (Nat.lt_of_lt_of_le hc hb)), h.tokens c hc]
  succs := h.succs

/-- Pieces that begin with new blocks leave the others alone. -/
theorem grow {mid : Option BlockId} {new : List Edge} (h : k.Entered cur dst k₁)
    (hgrows : k₁.Grows mid new k' out) (hmid : ∀ b, mid = some b → k.size ≤ b)
    (hnew : ∀ e ∈ new, k.size ≤ e.src) : k.Entered cur dst k' where
  size := Nat.le_trans h.size hgrows.size
  tokens c hc := by
    have hne : mid ≠ some c := fun heq => Nat.lt_irrefl _ (Nat.lt_of_lt_of_le hc (hmid c heq))
    rw [hgrows.tokens c (Nat.lt_of_lt_of_le hc h.size) hne, h.tokens c hc]
  succs c hc := by
    have hne : mid ≠ some c := fun heq => Nat.lt_irrefl _ (Nat.lt_of_lt_of_le hc (hmid c heq))
    have hnone : new.filter (·.src = c) = [] := by
      refine List.filter_eq_nil_iff.2 fun e he hsrc => ?_
      exact Nat.ne_of_gt (Nat.lt_of_lt_of_le hc (hnew e he)) (of_decide_eq_true hsrc)
    rw [hgrows.succs c (Nat.lt_of_lt_of_le hc h.size) hne, hnone, List.append_nil, h.succs c hc]

theorem read (h : k.Entered cur dst k₁) (hgrows : k₁.Grows (some b) [] k' out) (hb : k.size ≤ b) :
    k.Entered cur dst k' := by
  refine h.grow hgrows ?_ nofun
  rintro _ ⟨⟩
  exact hb

theorem grows (h : k.Entered cur dst k') (hk : k.Ready cur) (hout : k.Opens k' out) :
    k.Grows cur [] k' out where
  size := h.size
  tokens b hb _ := h.tokens b hb
  succs b hb hcur := by
    rw [h.succs b hb, linkFrom_succs, if_neg hcur]
    exact (List.append_nil _).symm
  more b hb := by
    rw [h.tokens b (hk.held b hb)]
  plain b hb e he := by
    rw [h.succs b (hk.held b hb), linkFrom_succs, if_pos hb, hk.loose b hb] at he
    rw [List.mem_singleton.1 he]
    rfl
  sources _ he := absurd he List.not_mem_nil
  fresh c hc := .inr (hout.fresh c hc)
  held := hout.held
  loose := hout.loose

/-- What a piece means is told by the paths from the block that it begins with. -/
theorem does {targets : JumpTargets} {R : Exits} (h : k.Entered cur dst k') (hk : k.Ready cur)
    (hout : k.Opens k' out)
    (hpaths : ∀ g, Settled g k cur k' out → ∀ after, (∀ c, out = some c → after = g.paths c) →
      g.paths dst = R.lead (targets.exits g after)) : k.Does cur k' out targets R := by
  intro g after hg hafter b hb
  have hlength : b < k'.size := Nat.lt_of_lt_of_le (hk.held b hb) h.size
  have hne : out ≠ some b := by
    intro hc
    exact Nat.lt_irrefl _ (Nat.lt_of_lt_of_le (hk.held b hb) (hout.fresh b hc))
  have htokens := hg.tokens b hlength (.inr hb) hne
  have hsuccs := hg.succs b hlength (.inr hb) hne
  rw [h.tokens b (hk.held b hb)] at htokens
  rw [h.succs b (hk.held b hb), linkFrom_succs, if_pos hb, hk.loose b hb, List.nil_append] at hsuccs
  rw [← htokens, FlowGraph.ahead_of_edge hsuccs]
  refine hpaths g hg after fun c hc => ?_
  have hexit : c ≠ g.exit := hg.ne_exit hk (hout.fresh c hc)
  rw [hafter c hc, hout.tokens c hc, FlowGraph.paths_eq_ahead hexit (hg.plain c hc)]
  rfl

end Entered

/-- A block that a piece does not touch is as it was, also when the end of the piece is linked. -/
theorem Grows.linkFrom_eq {kind : EdgeKind} (h : k.Grows cur [] k' out) (hb : b < k.size)
    (hcur : cur ≠ some b) :
    (k'.linkFrom out dst kind).tokens b = k.tokens b ∧
    (k'.linkFrom out dst kind).succs b = k.succs b := by
  rw [linkFrom_tokens, linkFrom_succs, if_neg (h.out_ne hb hcur)]
  exact ⟨h.tokens b hb hcur, h.succs_eq hb hcur⟩

end Sketch

/-- What is settled for a piece is settled for a part of it, if the part begins with a new block or
with none. -/
theorem Settled.inner {g : FlowGraph} {k k₁ k₂ k' : Sketch} {cur mid out : Option BlockId}
    (h : Settled g k cur k' out) (hsize : k.size ≤ k₁.size) (hmid : ∀ b, mid = some b → k.size ≤ b)
    (hout : ∀ c, out = some c → k₂.size ≤ c ∨ c < k₁.size ∧ mid ≠ some c)
    (hk₂ : k₂.size ≤ k'.size)
    (hsame : ∀ c < k₂.size, k₁.size ≤ c ∨ mid = some c →
      k'.tokens c = k₂.tokens c ∧ k'.succs c = k₂.succs c) :
    Settled g k₁ mid k₂ none := by
  have hpiece : ∀ c, k₁.size ≤ c ∨ mid = some c → k.size ≤ c ∨ cur = some c :=
    fun c hc => .inl (hc.elim (Nat.le_trans hsize) (hmid c))
  have hne : ∀ c < k₂.size, k₁.size ≤ c ∨ mid = some c → out ≠ some c := by
    intro c hc hin heq
    rcases hout c heq with hle | ⟨hlt, hnot⟩
    · exact Nat.lt_irrefl _ (Nat.lt_of_lt_of_le hc hle)
    · exact hin.elim (fun hle => Nat.lt_irrefl _ (Nat.lt_of_lt_of_le hlt hle)) hnot
  refine ⟨h.exit, fun c hc hin _ => ?_, fun c hc hin _ => ?_, nofun, nofun⟩
  · rw [h.tokens c (Nat.lt_of_lt_of_le hc hk₂) (hpiece c hin) (hne c hc hin), (hsame c hc hin).1]
  · rw [h.succs c (Nat.lt_of_lt_of_le hc hk₂) (hpiece c hin) (hne c hc hin), (hsame c hc hin).2]

/-- The same of a part that a new block has been read into. -/
theorem Settled.part {g : FlowGraph} {k k₁ k₂ k' : Sketch} {cur out : Option BlockId} {b : BlockId}
    (h : Settled g k cur k' out) (hsize : k.size ≤ k₁.size) (hb : k.size ≤ b)
    (hout : ∀ c, out = some c → k₂.size ≤ c ∨ c < k₁.size ∧ b ≠ c) (hk₂ : k₂.size ≤ k'.size)
    (hsame : ∀ c < k₂.size, k₁.size ≤ c ∨ b = c →
      k'.tokens c = k₂.tokens c ∧ k'.succs c = k₂.succs c) :
    Settled g k₁ (some b) k₂ none := by
  refine h.inner hsize ?_ (fun c hc => ?_) hk₂ fun c hc hin => ?_
  · rintro _ ⟨⟩
    exact hb
  · exact (hout c hc).imp_right fun hlt => ⟨hlt.1, fun heq => hlt.2 (Option.some.inj heq)⟩
  · exact hsame c hc (hin.imp_right Option.some.inj)

/-! ### Loops -/

/-- Inside a loop, one jump leads after it and the other one back. -/
def JumpTargets.inLoop (targets : JumpTargets) (after back : BlockId) : JumpTargets :=
  { targets with breakTo := some after, continueTo := some back }

theorem nil_notMem_decided (cond : List TokenId) (holds : Bool) : [] ∉ decided cond holds :=
  fun h => absurd (show ([] : List Event) = _ from h) nofun

/-- **A circle of blocks is a loop.**  The condition leads into the body or after the loop, and the
body leads back to the condition, with a step on the way. -/
theorem FlowGraph.paths_of_circle {g : FlowGraph} {targets : JumpTargets} {R : Exits}
    {cond body back after : BlockId} {ts : List TokenId} {done step : Language Event}
    (hcond : g.paths cond = decided ts true * g.paths body + done * g.paths after)
    (hbody : g.paths body = R.lead ((targets.inLoop after back).exits g (g.paths back)))
    (hback : g.paths back = step * g.paths cond) :
    g.paths cond =
      (Exits.loop (decided ts true) done step R).lead (targets.exits g (g.paths after)) := by
  refine Exits.loop_lead (nil_notMem_decided _ _) ?_
  rw [hbody] at hcond
  rw [← hback]
  exact hcond

/-! ### Ends that are joined -/

/-- Two ends have been joined in a new block, unless there is no end. -/
structure Sketch.Joined (k : Sketch) (end₁ end₂ : Option BlockId) (k' : Sketch)
    (out : Option BlockId) : Prop where
  size : k.size ≤ k'.size
  tokens : ∀ b < k.size, k'.tokens b = k.tokens b
  succs : ∀ b < k.size, k'.succs b = ((k.linkFrom end₁ k.size).linkFrom end₂ k.size).succs b
  opens : k.Opens k' out
  merged : ∀ c, out = some c → c = k.size
  live : end₁ ≠ none ∨ end₂ ≠ none → out = some k.size

theorem Sketch.joined_of_live (k : Sketch) {end₁ end₂ : Option BlockId}
    (h₁ : ∀ b, end₁ = some b → b < k.size) (h₂ : ∀ b, end₂ = some b → b < k.size) :
    k.Joined end₁ end₂ (((k.add []).linkFrom end₁ k.size).linkFrom end₂ k.size) (some k.size) := by
  have hne₁ : end₁ ≠ some k.size := fun h => Nat.lt_irrefl _ (h₁ _ h)
  have hne₂ : end₂ ≠ some k.size := fun h => Nat.lt_irrefl _ (h₂ _ h)
  refine ⟨Nat.le_succ _, fun b hb => if_neg (Nat.ne_of_lt hb), fun b hb => ?_, ⟨?_, ?_, ?_, ?_⟩, ?_,
    fun _ => rfl⟩
  · simp [Nat.ne_of_lt hb]
  all_goals rintro _ ⟨⟩
  · exact Nat.le_refl _
  · exact Nat.lt_succ_self _
  · exact if_pos rfl
  · simp [hne₁, hne₂]
  · rfl

theorem Sketch.joined_none (k : Sketch) : k.Joined none none k none where
  size := Nat.le_refl _
  tokens _ _ := rfl
  succs _ _ := rfl
  opens := ⟨nofun, nofun, nofun, nofun⟩
  merged := nofun
  live h := absurd h (by simp)

theorem Sketch.Entered.join {k k₁ k' : Sketch} {cur out end₁ end₂ : Option BlockId} {dst : BlockId}
    (h : k.Entered cur dst k₁) (hjoined : k₁.Joined end₁ end₂ k' out)
    (h₁ : ∀ c, end₁ = some c → k.size ≤ c) (h₂ : ∀ c, end₂ = some c → k.size ≤ c) :
    k.Entered cur dst k' := by
  have hlinked : k.Entered cur dst ((k₁.linkFrom end₁ k₁.size).linkFrom end₂ k₁.size) :=
    (h.linkFrom h₁).linkFrom h₂
  refine ⟨Nat.le_trans h.size hjoined.size, fun b hb => ?_, fun b hb => ?_⟩
  · rw [hjoined.tokens b (Nat.lt_of_lt_of_le hb h.size), h.tokens b hb]
  · rw [hjoined.succs b (Nat.lt_of_lt_of_le hb h.size), hlinked.succs b hb]

end DivisorCheck
