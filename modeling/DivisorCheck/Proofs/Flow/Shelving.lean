/-
  No token of a body is shelved twice.

  While a body is read, the tokens behind the reader are in blocks, or they have been
  passed over; those ahead of it are in none.  The blocks share no token, and each
  holds its own in the order in which the reader has met them (`BodyBuilder.Shelved`).

  The tokens of a header or of a statement are read at once and shelved afterwards,
  sometimes in several blocks and sometimes in none; between the two they are in hand
  (`Body.Stands`).  A step that shelves nothing leaves all of this as it is
  (`Build.Quiet`), and most steps are of this kind.
-/
import DivisorCheck.Proofs.Code.Nesting
import DivisorCheck.Proofs.Flow.Kinds
import DivisorCheck.Proofs.Flow.Stage
import DivisorCheck.Proofs.Flow.Visit

namespace DivisorCheck

/-! ### Steps that end well or with a fault -/

/-- Is something wrong with the body, rather than with its chain or its links? -/
def BodyError.IsFault : BodyError → Prop
  | malformed .. => True
  | missingStatement | endless => False

namespace Build

variable {α β : Type} {m : Build α} {s : BodyBuilder} {P Q : α → BodyBuilder → Prop}
  {R : β → BodyBuilder → Prop}

/-- The answer of the step and the builder that it leaves satisfy `Q`, or the body has a fault. -/
def Yields (m : Build α) (s : BodyBuilder) (Q : α → BodyBuilder → Prop) : Prop :=
  match m s with
  | .ok (a, s') => Q a s'
  | .error e => e.IsFault

theorem Yields.bind {f : α → Build β} (hm : Yields m s P)
    (hf : ∀ a s₁, P a s₁ → Yields (f a) s₁ R) : Yields (m >>= f) s R := by
  unfold Yields at hm
  change match (m s >>= fun r => f r.1 r.2) with
    | .ok (b, s') => R b s'
    | .error e => e.IsFault
  cases hrun : m s with
  | error e =>
    rw [hrun] at hm
    exact hm
  | ok r =>
    rw [hrun] at hm
    exact hf r.1 r.2 hm

theorem Yields.mono (hm : Yields m s P) (hPQ : ∀ a s', P a s' → Q a s') : Yields m s Q := by
  unfold Yields at hm ⊢
  split at hm
  · exact hPQ _ _ hm
  · exact hm

/-- What the step gives anyway. -/
theorem Yields.and_gives (hm : Yields m s P) (hQ : Gives m s Q) :
    Yields m s (fun a s' => P a s' ∧ Q a s') := by
  unfold Yields at hm ⊢
  split
  · rename_i a s' hrun
    rw [hrun] at hm
    exact ⟨hm, hQ a s' hrun⟩
  · rename_i e hrun
    rw [hrun] at hm
    exact hm

theorem yields_pure {a : α} (h : Q a s) : Yields (pure a : Build α) s Q := h

theorem yields_malformed (p : Program) (fault : BodyFault) (place : Option TokenId) :
    Yields (malformed p fault place : Build α) s Q := trivial

theorem yields_get : Yields get s (fun t s' => s = t ∧ s = s') := ⟨rfl, rfl⟩

end Build

/-! ### Blocks that share no token -/

/-- The tokens of the blocks are among the given ones: each block has its own, in their order.  No
question about the blocks has been asked. -/
structure BodyBuilder.Shelved (us : List TokenId) (s : BodyBuilder) : Prop where
  sublist : ∀ b, (s.graph.block b).tokens.Sublist us
  apart : ∀ b c, b ≠ c → (s.graph.block b).tokens.Disjoint (s.graph.block c).tokens
  unasked : s.graph.owners = none

namespace BodyBuilder.Shelved

variable {us us' xs : List TokenId} {s s' : BodyBuilder}

theorem mono (h : s.Shelved us) (hsub : us.Sublist us') : s.Shelved us' :=
  ⟨fun b => (h.sublist b).trans hsub, h.apart, h.unasked⟩

theorem congr (h : s.Shelved us) (htokens : ∀ b, (s'.graph.block b).tokens = (s.graph.block b).tokens)
    (howners : s'.graph.owners = none) : s'.Shelved us where
  sublist b := (htokens b).symm ▸ h.sublist b
  apart b c hbc := by
    rw [htokens, htokens]
    exact h.apart b c hbc
  unasked := howners

/-- New tokens at the end of one block. -/
theorem put (h : s.Shelved us) {b : BlockId} (hnew : us.Disjoint xs)
    (htokens : ∀ c, (s'.graph.block c).tokens =
      if c = b then (s.graph.block c).tokens ++ xs else (s.graph.block c).tokens)
    (howners : s'.graph.owners = none) : s'.Shelved (us ++ xs) where
  sublist c := by
    rw [htokens]
    split_ifs
    · exact (h.sublist c).append_right xs
    · exact (h.sublist c).trans (List.sublist_append_left us xs)
  apart c d hcd := by
    -- At most one of the two blocks has the new tokens, and they are not in the other one.
    have hold := h.apart c d hcd
    have hc : (s.graph.block c).tokens.Disjoint xs := fun t ht => hnew ((h.sublist c).subset ht)
    have hd : (s.graph.block d).tokens.Disjoint xs := fun t ht => hnew ((h.sublist d).subset ht)
    rw [htokens, htokens]
    split_ifs with hcb hdb hdb
    · exact absurd (hcb.trans hdb.symm) hcd
    · exact List.disjoint_append_left.2 ⟨hold, List.disjoint_symm hd⟩
    · exact List.disjoint_append_right.2 ⟨hold, hc⟩
    · exact hold
  unasked := howners

theorem newBlock (h : s.Shelved us) (hnew : us.Disjoint xs) (kind : BlockKind) :
    ({ s with graph := (s.graph.newBlock kind xs).2 } : BodyBuilder).Shelved (us ++ xs) := by
  refine h.put (b := s.graph.blocks.size) hnew (fun c => ?_) rfl
  show ((s.graph.newBlock kind xs).2.block c).tokens = _
  rw [FlowGraph.block_newBlock]
  split_ifs with hc
  · rw [hc, FlowGraph.block_of_not_held (Nat.lt_irrefl _)]
    rfl
  · rfl

theorem append (h : s.Shelved us) (hnew : us.Disjoint xs) (b : BlockId) :
    ({ s with graph := s.graph.appendTokens b xs } : BodyBuilder).Shelved (us ++ xs) := by
  by_cases hb : b < s.graph.blocks.size
  · refine h.put (b := b) hnew (fun c => ?_) h.unasked
    show ((s.graph.modifyBlock b _).block c).tokens = _
    rw [FlowGraph.block_modifyBlock]
    split_ifs with hc hcb
    · rfl
    · exact absurd hc.1 hcb
    · rename_i hcb
      exact absurd ⟨hcb, hcb ▸ hb⟩ hc
    · rfl
  -- A block that is not there takes nothing.
  · have hsame : s.Shelved (us ++ xs) := h.mono (List.sublist_append_left us xs)
    refine hsame.congr (fun c => ?_) h.unasked
    show ((s.graph.modifyBlock b _).block c).tokens = _
    rw [FlowGraph.block_modifyBlock, if_neg fun hc : c = b ∧ c < s.graph.blocks.size => hb (hc.1 ▸ hc.2)]

end BodyBuilder.Shelved

/-! ### Steps that shelve nothing -/

namespace Build

variable {α β : Type} {m : Build α}

/-- The step ends well and shelves no token. -/
def Quiet (m : Build α) : Prop :=
  ∀ s, ∃ a s', m s = .ok (a, s') ∧ ∀ us, s.Shelved us → s'.Shelved us

theorem Quiet.yields (hm : Quiet m) (s : BodyBuilder) :
    Yields m s (fun _ s' => ∀ us, s.Shelved us → s'.Shelved us) := by
  obtain ⟨a, s', hrun, hkeep⟩ := hm s
  unfold Yields
  rw [hrun]
  exact hkeep

theorem Quiet.bind {f : α → Build β} (hm : Quiet m) (hf : ∀ a, Quiet (f a)) : Quiet (m >>= f) := by
  intro s
  obtain ⟨a, s₁, hfirst, hkeep₁⟩ := hm s
  obtain ⟨b, s₂, hrest, hkeep₂⟩ := hf a s₁
  exact ⟨b, s₂, bind_ok.2 ⟨a, s₁, hfirst, hrest⟩, fun us h => hkeep₂ us (hkeep₁ us h)⟩

theorem quiet_pure (a : α) : Quiet (pure a) := fun s => ⟨a, s, rfl, fun _ => id⟩

theorem quiet_modify {f : BodyBuilder → BodyBuilder} (hf : ∀ s us, s.Shelved us → (f s).Shelved us) :
    Quiet (modify f : Build Unit) := fun s => ⟨(), f s, rfl, hf s⟩

theorem quiet_newBlock {kind : BlockKind} : Quiet (newBlock kind) := by
  intro s
  refine ⟨_, _, rfl, fun us h => ?_⟩
  have hnew := h.newBlock (List.disjoint_nil_right us) kind
  rwa [List.append_nil] at hnew

theorem quiet_edge {src dst : BlockId} {kind : EdgeKind} {label : Option String}
    {value : Option TokenId} : Quiet (edge src dst kind label value) := by
  refine quiet_modify fun s us h => h.congr (fun b => ?_) h.unasked
  show ((s.graph.addEdge _).2.block b).tokens = _
  rw [FlowGraph.block_addEdge]

theorem quiet_edgeFrom {src : Option BlockId} {dst : BlockId} {kind : EdgeKind} :
    Quiet (edgeFrom src dst kind) := by
  cases src with
  | none => exact quiet_pure ()
  | some src => exact quiet_edge

theorem quiet_live {block : Option BlockId} : Quiet (live block) := by
  cases block with
  | none => exact quiet_newBlock
  | some b => exact quiet_pure b

theorem quiet_forM (xs : List α) {f : α → Build Unit} (hf : ∀ x, Quiet (f x)) :
    Quiet (xs.forM f) := by
  induction xs with
  | nil => exact quiet_pure ()
  | cons x xs ih => exact (hf x).bind fun _ => ih

theorem quiet_merge {kind : BlockKind} {ends : List (Option BlockId)} : Quiet (merge kind ends) := by
  unfold merge
  split
  · exact quiet_pure none
  · refine quiet_newBlock.bind fun merged => ?_
    exact (quiet_forM _ fun b => quiet_edge).bind fun _ => quiet_pure _

theorem quiet_setKind {b : BlockId} {kind : BlockKind} :
    Quiet (modify fun s => { s with graph := s.graph.setKind b kind } : Build Unit) := by
  refine quiet_modify fun s us h => h.congr (fun c => ?_) h.unasked
  show ((s.graph.modifyBlock b _).block c).tokens = _
  rw [FlowGraph.block_modifyBlock]
  split_ifs
  · rfl
  · rfl

end Build

end DivisorCheck
