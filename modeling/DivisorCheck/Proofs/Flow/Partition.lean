/-
  Each token of a body is in one block at most.

  The body is what stands between its braces: the chain leads from the one to the
  other, and the brackets on the way are partners (`Program.Encloses`).  Then the body
  has a graph, or something is wrong with one of its statements; and in a graph that it
  has, no token is held twice, each block holds its tokens in the order of the chain,
  and the block that is found for a token is the one that holds it
  (`FlowGraph.Shelves`).
-/
import DivisorCheck.Flow.Order
import DivisorCheck.Proofs.Flow.Built
import DivisorCheck.Proofs.Flow.Standing

namespace DivisorCheck

/-! ### Which block holds a token -/

namespace FlowGraph

variable {g : FlowGraph} {t : TokenId} {b : BlockId} {ts : List TokenId}

/-- The graph after questions for the blocks of tokens. -/
def asked (g : FlowGraph) (qs : List TokenId) : FlowGraph := qs.foldl (fun g t => (g.ownerOf t).2) g

/-- The answers that the graph has in store, or would have. -/
def answers (g : FlowGraph) : List (TokenId × BlockId) := g.owners.getD g.ownerList

/-- Questions change no answers. -/
theorem answers_asked (g : FlowGraph) (qs : List TokenId) : (g.asked qs).answers = g.answers := by
  unfold asked
  induction qs generalizing g with
  | nil => rfl
  | cons q qs ih => exact ih (g.ownerOf q).2

theorem mem_ownerList : (t, b) ∈ g.ownerList ↔ b ∈ g.nodes ∧ t ∈ (g.block b).tokens := by
  unfold ownerList
  rw [List.mem_reverse, List.mem_flatMap]
  constructor
  · rintro ⟨c, hc, hmem⟩
    obtain ⟨u, hu, heq⟩ := List.mem_map.1 hmem
    cases heq
    exact ⟨hc, hu⟩
  · rintro ⟨hb, ht⟩
    exact ⟨b, hb, List.mem_map.2 ⟨t, ht, rfl⟩⟩

/-- What the blocks of a graph hold of a stretch of tokens. -/
structure Shelves (g : FlowGraph) (ts : List TokenId) : Prop where
  /-- each block holds some of the tokens, in their order -/
  ordered : ∀ b, (g.block b).tokens.Sublist ts
  /-- no token is held twice -/
  nodup : g.tokens.Nodup
  /-- the block that is found for a token is the one that holds it -/
  owned : ∀ qs t b, ((g.asked qs).ownerOf t).1 = some b ↔ b ∈ g.nodes ∧ t ∈ (g.block b).tokens

/-- Where no two blocks share a token, the one that holds it is found. -/
theorem ownerOf_eq_some (hapart : ∀ b c, b ≠ c → (g.block b).tokens.Disjoint (g.block c).tokens)
    (hunasked : g.owners = none) (qs : List TokenId) :
    ((g.asked qs).ownerOf t).1 = some b ↔ b ∈ g.nodes ∧ t ∈ (g.block b).tokens := by
  have hanswers : (g.asked qs).answers = g.ownerList := by
    rw [answers_asked, answers, hunasked]
    rfl
  show ((g.asked qs).answers.find? (fun o => o.1 == t)).map (·.2) = some b ↔ _
  rw [hanswers, ← mem_ownerList, Option.map_eq_some_iff]
  constructor
  · rintro ⟨⟨u, c⟩, hfound, rfl⟩
    have hkey : u = t := eq_of_beq (List.find?_some (p := fun o : TokenId × BlockId => o.1 == t) hfound)
    subst hkey
    exact List.mem_of_find?_eq_some hfound
  · -- The list has an entry for the token; the first one is what is found.
    intro hmem
    obtain ⟨⟨u, c⟩, hfound⟩ : ∃ o, g.ownerList.find? (fun o => o.1 == t) = some o := by
      rw [← Option.isSome_iff_exists, List.find?_isSome]
      exact ⟨(t, b), hmem, beq_self_eq_true t⟩
    have hkey : u = t := eq_of_beq (List.find?_some (p := fun o : TokenId × BlockId => o.1 == t) hfound)
    subst hkey
    obtain ⟨-, hc⟩ := mem_ownerList.1 (List.mem_of_find?_eq_some hfound)
    obtain ⟨-, hb⟩ := mem_ownerList.1 hmem
    -- Another block would share the token.
    have hsame : c = b := by
      by_contra hne
      exact hapart c b hne hc hb
    exact ⟨(u, c), hfound, hsame⟩

end FlowGraph

theorem BodyBuilder.Shelved.shelves {s : BodyBuilder} {ts : List TokenId} (h : s.Shelved ts)
    (hnodup : ts.Nodup) (hnodes : s.graph.nodes.Nodup) : s.graph.Shelves ts where
  ordered := h.sublist
  nodup := by
    refine List.nodup_flatMap.2 ⟨fun b _ => hnodup.sublist (h.sublist b), ?_⟩
    exact hnodes.imp fun hne => h.apart _ _ hne
  owned qs t b := FlowGraph.ownerOf_eq_some h.apart h.unasked qs

/-! ### Bodies -/

/-- The tokens are those between the braces of a body: the chain leads through them from the one to
the other, and their brackets are partners.  A closing bracket is no name before a colon, which would
make it a label. -/
structure Program.Encloses (p : Program) (first last : TokenId) (ts : List TokenId) : Prop where
  spells : p.Spells (p.nextOf first) ts (some last)
  before : last ∉ ts
  nested : p.Bracketed true ts
  close : p.text last = "\x7d"
  unlabelled : ∀ t ∈ last :: ts, p.depthChange t = -1 → p.Unlabelled t

section Bodies

variable {p : Program} {first last : TokenId} {ts : List TokenId}

theorem Program.Encloses.site (h : p.Encloses first last ts) :
    p.Site last (p.nextOf first) [] ts where
  placed :=
    have hnodup := h.spells.nodup h.before
    ⟨h.spells, hnodup, h.before, length_le_size hnodup fun _ ht => h.spells.lt_size ht⟩
  nodup := h.spells.nodup h.before
  closed := h.nested.closed
  bracket := by
    unfold depthChange
    rw [h.close]
    decide
  unlabelled := h.unlabelled

theorem shelved_init (name : Option String) :
    BodyBuilder.Shelved [] { graph := .init name } := by
  have hnone : ∀ b, ((FlowGraph.init name).block b).tokens = []
    | 0 => rfl
    | 1 => rfl
    | _ + 2 => rfl
  refine ⟨fun b => ?_, fun b c _ => ?_, rfl⟩
  · rw [hnone]
  · rw [hnone]
    exact List.disjoint_nil_left _

/-- A body is read to its end, unless it has a fault. -/
theorem Body.yields_body (h : p.Encloses first last ts) (name : Option String) :
    Build.Yields (body p (p.nextOf first) last) { graph := .init name }
      (fun _ s' => s'.Shelved ts) := by
  have hsite := h.site
  have hroom := hsite.placed.length
  have hstart : Stands p last ts ts.length [] (p.nextOf first) { graph := .init name } :=
    ⟨[], ts, [], rfl, Nat.le_refl _, hsite, shelved_init name, .refl _⟩
  have hdepth := le_depthLimit p
  -- The depth limit exceeds the number of tokens, whatever is left of them.
  have hread : ∀ m ≤ ts.length, Advances p (statement p (depthLimit p)) m :=
    fun m hm => advances_statement (by omega) (by omega)
  unfold body
  refine (hstart.quiet Build.quiet_newBlock).bind fun first s₁ h₁ => Build.yields_get.bind ?_
  rintro _ _ ⟨rfl, rfl⟩
  refine (h₁.quiet Build.quiet_edge).bind fun _ s₂ h₂ => ?_
  refine (yields_statements hread h₂ (Nat.lt_succ_of_le hroom)).bind fun out s₃ h₃ => ?_
  refine (Build.quiet_edgeFrom.yields s₃).bind fun _ s₄ hkeep => Build.yields_get.bind ?_
  rintro _ _ ⟨rfl, rfl⟩
  refine ((Build.quiet_forM _ fun jump => Build.quiet_edge).yields s₄).mono fun _ s₅ hkeep' => ?_
  exact hkeep' ts (hkeep ts h₃)

/-- **No token of a body is held twice.**  The body has a graph whose blocks share no token, hold
their tokens in the order of the chain, and are found for the tokens that they hold; or one of its
statements has a fault. -/
theorem FlowGraph.ofBody_shelves (h : p.Encloses first last ts) (name : Option String) :
    (∀ g, FlowGraph.ofBody p name first last = .ok g → g.Shelves ts) ∧
      ∀ e, FlowGraph.ofBody p name first last = .error e → e.IsFault := by
  have hbody := Body.yields_body h name
  unfold Build.Yields at hbody
  have hof : FlowGraph.ofBody p name first last =
      (Body.body p (p.nextOf first) last { graph := .init name }).map (·.2.graph) := rfl
  cases hrun : Body.body p (p.nextOf first) last { graph := .init name } with
  | error e =>
    rw [hrun] at hbody hof
    rw [hof]
    refine ⟨nofun, ?_⟩
    rintro _ ⟨⟩
    exact hbody
  | ok r =>
    rw [hrun] at hbody hof
    obtain ⟨_, _, _, -, -, -, hbuilt⟩ := Body.built_of_ofBody hof
    have hnodes : r.2.graph.nodes.Nodup := by
      rw [hbuilt.sound.nodes]
      exact List.nodup_range
    rw [hof]
    refine ⟨?_, nofun⟩
    rintro _ ⟨⟩
    exact hbody.shelves h.site.placed.nodup hnodes

end Bodies

/-- `{ do { f(x); } while (c); }` -/
def lateCondition : Program where
  tokens := #[
    { text := "\x7b", next := some 1, link := some 14 },
    { text := "do", next := some 2, isName := true },
    { text := "\x7b", next := some 3, link := some 8 },
    { text := "f", next := some 4, isName := true },
    { text := "(", next := some 5, link := some 6 },
    { text := "x", next := some 6, isName := true },
    { text := ")", next := some 7, link := some 4 },
    { text := ";", next := some 8 },
    { text := "\x7d", next := some 9, link := some 2 },
    { text := "while", next := some 10, isName := true },
    { text := "(", next := some 11, link := some 12 },
    { text := "c", next := some 12, isName := true },
    { text := ")", next := some 13, link := some 10 },
    { text := ";", next := some 14 },
    { text := "\x7d", link := some 0 }]

theorem encloses_lateCondition :
    lateCondition.Encloses 0 14 [1, 2, 3, 4, 5, 6, 7, 8, 9, 10, 11, 12, 13] where
  spells := by repeat constructor
  before := by decide
  nested := by
    have hcall : lateCondition.Bracketed true (3 :: 4 :: ([5] ++ 6 :: [7])) :=
      .token rfl (fun _ => rfl)
        (.group rfl rfl rfl (.token rfl (fun _ => rfl) .nil) (.token rfl (fun _ => rfl) .nil))
    have hheader : lateCondition.Bracketed true (9 :: 10 :: ([11] ++ 12 :: [13])) :=
      .token rfl (fun _ => rfl)
        (.group rfl rfl rfl (.token rfl (fun _ => rfl) .nil) (.token rfl (fun _ => rfl) .nil))
    exact .token rfl (fun _ => rfl) (.group rfl rfl rfl hcall hheader)
  close := rfl
  unlabelled := by
    unfold Program.Unlabelled
    decide

theorem ofBody_shelves_lateCondition : ∃ g, FlowGraph.ofBody lateCondition none 0 14 = .ok g ∧
    g.Shelves [1, 2, 3, 4, 5, 6, 7, 8, 9, 10, 11, 12, 13] := by
  obtain ⟨hshelves, -⟩ := FlowGraph.ofBody_shelves encloses_lateCondition none
  have hbuilt : (FlowGraph.ofBody lateCondition none 0 14).toOption.isSome = true := by
    decide +kernel
  cases hrun : FlowGraph.ofBody lateCondition none 0 14 with
  | error e =>
    rw [hrun] at hbuilt
    cases hbuilt
  | ok g => exact ⟨g, rfl, hshelves g hrun⟩

end DivisorCheck
