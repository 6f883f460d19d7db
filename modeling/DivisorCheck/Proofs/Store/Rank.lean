/-
  How far a store can still climb.

  During the iteration a store is unreachable at first, and from then on a join can
  only make it forget.  A definite fact that a join does not keep becomes `top` at
  once (`sublist_entries_join`), as long as no fact is `bottom`.  So what the join
  changes costs a fact, and a store that speaks of `n` variables at most
  (`Store.Within`) changes at most `n + 1` times: `Store.rank` counts how often it
  has.
-/
import DivisorCheck.Proofs.Expr.Frame
import Mathlib.Data.Finset.Card

namespace DivisorCheck.Store

/-- Facts are about the listed variables only, and none of them is known to be impossible. -/
def Within (vs : Finset VarId) : Store → Prop
  | unreachable => True
  | reachable f => (reachable f).Live ∧ ∀ v, v ∉ vs → (reachable f).get v = .top

/-- How often a store that speaks of `n` variables at most has changed since it was unreachable, if
every change since then has cost it one fact. -/
def rank (n : Nat) : Store → Nat
  | unreachable => 0
  | reachable f => n + 1 - f.entries.length

variable {vs : Finset VarId} {s s' : Store} {f g : Facts}

theorem within_of_live (hlive : s.Live) (htop : ∀ v, v ∉ vs → s.get v = .top) : s.Within vs := by
  cases s with
  | unreachable => trivial
  | reachable f => exact ⟨hlive, htop⟩

theorem Within.length_le (h : (reachable f).Within vs) : f.entries.length ≤ vs.card := by
  have hnodup : (f.entries.map (·.1)).Nodup :=
    (List.pairwise_map.2 f.sorted).imp fun hlt => Int.ne_of_lt hlt
  have hsubset : (f.entries.map (·.1)).toFinset ⊆ vs := by
    intro v hv
    obtain ⟨e, he, rfl⟩ := List.mem_map.1 (List.mem_toFinset.1 hv)
    by_contra hout
    exact f.definite e he (by rw [← get_of_mem_entries he, h.2 e.1 hout])
  calc f.entries.length = (f.entries.map (·.1)).toFinset.card := by
        rw [List.toFinset_card_of_nodup hnodup, List.length_map]
    _ ≤ vs.card := Finset.card_le_card hsubset

/-- The store with this join of facts keeps some facts as they are and loses the others. -/
theorem sublist_entries_join (h : (reachable f).Live) (g : Facts) :
    (f.join g).entries.Sublist f.entries := by
  have hkeep : ∀ e ∈ f.entries, ∀ e', Facts.joinEntry g.entries e = some e' → e' = e := by
    intro e he e' hjoin
    have hdefinite : e.2 ≠ .bottom := get_of_mem_entries he ▸ h e.1
    simp only [Facts.joinEntry, Option.ite_none_left_eq_some, Option.some.injEq] at hjoin
    obtain ⟨htop, rfl⟩ := hjoin
    -- A tag that is not `bottom` either absorbs the other side or is lost.
    have hsame : e.2.join (factIn e.1 g.entries) = e.2 := by
      revert htop hdefinite
      cases e.2 <;> cases factIn e.1 g.entries <;> decide
    rw [hsame]
  have hfilter : f.entries.filterMap (Facts.joinEntry g.entries) =
      f.entries.filter fun e => (Facts.joinEntry g.entries e).isSome := by
    rw [← List.filterMap_eq_filter]
    refine List.filterMap_congr fun e he => ?_
    cases hjoin : Facts.joinEntry g.entries e with
    | none => simp [Option.guard, hjoin]
    | some e' => simp [Option.guard, hjoin, hkeep e he e' hjoin]
  show (f.entries.filterMap (Facts.joinEntry g.entries)).Sublist f.entries
  rw [hfilter]
  exact List.filter_sublist

theorem Within.join (h : s.Within vs) (h' : s'.Within vs) : (s.join s').Within vs := by
  cases s with
  | unreachable => cases s' <;> exact h'
  | reachable f =>
    refine within_of_live h.1.join fun v hv => ?_
    rw [get_join, h.2 v hv]
    cases s'.get v <;> rfl

theorem rank_le (n : Nat) (s : Store) : s.rank n ≤ n + 1 := by
  cases s with
  | unreachable => exact Nat.zero_le _
  | reachable f => exact Nat.sub_le _ _

theorem Within.rank_pos (h : s.Within vs) (hs : s ≠ .unreachable) : 0 < s.rank vs.card := by
  cases s with
  | unreachable => exact absurd rfl hs
  | reachable f =>
    have hlen := h.length_le
    rw [rank]
    omega

/-- **A join that changes the store raises its rank.** -/
theorem Within.rank_lt_join (h : s.Within vs) (h' : s'.Within vs) (hne : s.join s' ≠ s) :
    s.rank vs.card < (s.join s').rank vs.card := by
  cases s with
  | unreachable => exact (h.join h').rank_pos hne
  | reachable f =>
    cases s' with
    | unreachable => exact absurd rfl hne
    | reachable g =>
      have hsub : (f.join g).entries.Sublist f.entries := sublist_entries_join h.1 g
      have hlt : (f.join g).entries.length < f.entries.length := by
        refine lt_of_le_of_ne hsub.length_le fun heq => hne ?_
        have hentries := hsub.eq_of_length heq
        exact ext_get fun w => by simp only [get, hentries]
      have hlen := h.length_le
      show vs.card + 1 - f.entries.length < vs.card + 1 - (f.join g).entries.length
      omega

end DivisorCheck.Store
