/-
  The top-level expressions of a stretch of tokens divide it.

  `Program.expressionRoots` goes through the tokens of a stretch, climbs from each to
  the top of what the stretch has of its expression, and keeps each top once.  Where a
  climb may end does not depend on how it is done: along parents in the stretch there
  is one way up (`stepsUp_rightUnique`), so from each token one top at most can be
  reached (`ClimbsTo.top_unique`).  The climb reaches it unless the way is longer than
  the limit (`isTop_climbWithin`).

  So each token that takes part in an expression stands under exactly one root.  The
  roots come in the order of the first tokens under them, since a value that the list
  of first occurrences gains is new to all elements before (`pairwise_firsts`).
-/
import DivisorCheck.Proofs.Program.Trees
import Mathlib.Logic.Relation

namespace DivisorCheck

/-! ### First occurrences -/

section Firsts

variable {α β : Type} [BEq α] [LawfulBEq α] [BEq β] [LawfulBEq β]

theorem eraseDups_concat (l : List α) (a : α) :
    (l ++ [a]).eraseDups = if a ∈ l then l.eraseDups else l.eraseDups ++ [a] := by
  rw [List.eraseDups_append]
  split_ifs with ha <;> simp [List.removeAll, List.eraseDups_cons, ha]

/-- The values of a list, each kept once, come in the order of the first elements that have
them. -/
theorem pairwise_firsts (f : α → Option β) (l : List α) :
    (l.filterMap f).eraseDups.Pairwise fun a b =>
      ∃ x ∈ l, f x = some a ∧ ∀ y ∈ l, f y = some b → l.idxOf x < l.idxOf y := by
  -- The elements are taken one by one from the front, so the last one is the newest.
  induction l using List.reverseRecOn with
  | nil => exact .nil
  | append_singleton l new ih =>
    have hold : ∀ x ∈ l, (l ++ [new]).idxOf x = l.idxOf x := fun x hx =>
      List.idxOf_append_of_mem hx
    have hlate : ∀ x ∈ l, ∀ y ∈ l ++ [new], y ∉ l →
        (l ++ [new]).idxOf x < (l ++ [new]).idxOf y := by
      intro x hx y hy hyl
      obtain rfl : y = new := by simpa [hyl] using hy
      rw [hold x hx, List.idxOf_append_of_notMem hyl]
      exact Nat.lt_add_right _ (List.idxOf_lt_length_of_mem hx)
    -- An element that is new to the list stands behind those there, whatever its value.
    have hkept : (l.filterMap f).eraseDups.Pairwise fun a b => ∃ x ∈ l ++ [new],
        f x = some a ∧ ∀ y ∈ l ++ [new], f y = some b →
          (l ++ [new]).idxOf x < (l ++ [new]).idxOf y := by
      refine ih.imp ?_
      rintro a b ⟨x, hx, hfx, hfirst⟩
      refine ⟨x, List.mem_append_left _ hx, hfx, fun y hy hfy => ?_⟩
      by_cases hyl : y ∈ l
      · rw [hold x hx, hold y hyl]
        exact hfirst y hyl hfy
      · exact hlate x hx y hy hyl
    rw [List.filterMap_append]
    cases hnew : f new with
    | none => rwa [List.filterMap_cons_none hnew, List.filterMap_nil, List.append_nil]
    | some b =>
      rw [List.filterMap_cons_some hnew, List.filterMap_nil, eraseDups_concat]
      split_ifs with hb
      · exact hkept
      · -- A value that is kept last belongs to no element before.
        refine List.pairwise_append.2 ⟨hkept, List.pairwise_singleton _ _, ?_⟩
        intro a ha b' hb'
        obtain rfl := List.mem_singleton.1 hb'
        obtain ⟨x, hx, hfx⟩ := List.mem_filterMap.1 (List.mem_eraseDups.1 ha)
        refine ⟨x, List.mem_append_left _ hx, hfx, fun y hy hfy => hlate x hx y hy ?_⟩
        exact fun hyl => hb (List.mem_filterMap.2 ⟨y, hyl, hfy⟩)

end Firsts

namespace Program

variable {p : Program} {ts : List TokenId} {t q r : TokenId} {n : Nat}

/-! ### The way up -/

/-- The second token is the parent of the first, and one of the stretch. -/
def StepsUp (p : Program) (ts : List TokenId) (t q : TokenId) : Prop :=
  (p.token t).parent = some q ∧ q ∈ ts

/-- The second token is reached from the first along parents that are tokens of the stretch. -/
def ClimbsTo (p : Program) (ts : List TokenId) : TokenId → TokenId → Prop :=
  Relation.ReflTransGen (p.StepsUp ts)

/-- The parent of the token is absent or outside the stretch. -/
def IsTop (p : Program) (ts : List TokenId) (r : TokenId) : Prop :=
  ∀ q, (p.token r).parent = some q → q ∉ ts

theorem stepsUp_rightUnique : Relator.RightUnique (p.StepsUp ts) := by
  rintro t q r ⟨hq, -⟩ ⟨hr, -⟩
  exact Option.some.inj (hq.symm.trans hr)

theorem ClimbsTo.mem (h : p.ClimbsTo ts t r) (ht : t ∈ ts) : r ∈ ts := by
  rcases Relation.ReflTransGen.cases_tail h with rfl | ⟨q, -, -, hr⟩
  · exact ht
  · exact hr

theorem IsTop.eq_of_climbsTo (hr : p.IsTop ts r) (h : p.ClimbsTo ts r q) : q = r := by
  rcases Relation.ReflTransGen.cases_head h with rfl | ⟨u, ⟨hu, hmem⟩, -⟩
  · rfl
  · exact absurd hmem (hr u hu)

/-- At most one top can be reached from a token. -/
theorem ClimbsTo.top_unique (hr : p.ClimbsTo ts t r) (hq : p.ClimbsTo ts t q)
    (hrtop : p.IsTop ts r) (hqtop : p.IsTop ts q) : r = q := by
  rcases Relation.ReflTransGen.total_of_right_unique stepsUp_rightUnique hr hq with h | h
  · exact (hrtop.eq_of_climbsTo h).symm
  · exact hqtop.eq_of_climbsTo h

/-! ### The climb -/

theorem climbWithin_of_no_parent (h : (p.token t).parent = none) (n : Nat) :
    p.climbWithin ts n t = t := by
  cases n with
  | zero => rfl
  | succ n => rw [climbWithin, h]

theorem climbsTo_climbWithin (n : Nat) (t : TokenId) : p.ClimbsTo ts t (p.climbWithin ts n t) := by
  induction n generalizing t with
  | zero => exact .refl
  | succ n ih =>
    rw [climbWithin]
    split
    · exact .refl
    · rename_i q hq
      split_ifs with hmem
      · exact .head ⟨hq, hmem⟩ (ih q)
      · exact .refl

/-- A climb that is allowed as many steps as the way up has ends at a top. -/
theorem isTop_climbWithin (h : p.ancestor? n t = none) : p.IsTop ts (p.climbWithin ts n t) := by
  induction n generalizing t with
  | zero => cases h
  | succ n ih =>
    cases hparent : (p.token t).parent with
    | none =>
      rw [climbWithin_of_no_parent hparent]
      intro q hq
      rw [hparent] at hq
      cases hq
    | some q =>
      rw [ancestor?_of_parent hparent] at h
      simp only [climbWithin, hparent]
      split_ifs with hmem
      · exact ih h
      · intro u hu
        obtain rfl := Option.some.inj (hparent.symm.trans hu)
        exact hmem

/-! ### What a token contributes -/

/-- The token has an operand or a parent. -/
def IsLinked (p : Program) (t : TokenId) : Prop :=
  (p.token t).left.isSome ∨ (p.token t).right.isSome ∨ (p.token t).parent.isSome

/-- The token takes part in evaluation: it is outside the bodies of lambdas, and it belongs to a
tree or is a bare declaration. -/
def TakesPart (p : Program) (t : TokenId) : Prop :=
  p.scopeKind t ≠ "Lambda" ∧ (p.IsLinked t ∨ p.isBareDeclaration t = true)

theorem not_isLinked_iff : ¬ p.IsLinked t ↔
    (p.token t).left.isNone ∧ (p.token t).right.isNone ∧ (p.token t).parent.isNone := by
  simp [IsLinked]

/-- Whatever takes part contributes the end of its climb.  A bare declaration has no parent, so the
climb from it ends where it starts. -/
theorem rootAt_eq_some_iff :
    p.rootAt ts t = some r ↔ p.TakesPart t ∧ p.climbWithin ts climbLimit t = r := by
  unfold rootAt TakesPart
  by_cases hlambda : p.scopeKind t = "Lambda"
  · simp [hlambda]
  · by_cases hlinked : p.IsLinked t
    · have hnone := mt not_isLinked_iff.2 (not_not.2 hlinked)
      simp only [if_neg hlambda, if_neg hnone, Option.some.injEq]
      exact (and_iff_right ⟨hlambda, .inl hlinked⟩).symm
    · have hnone := not_isLinked_iff.1 hlinked
      rw [climbWithin_of_no_parent (Option.isNone_iff_eq_none.1 hnone.2.2)]
      simp [hlambda, hlinked, hnone]

theorem mem_expressionRoots_iff :
    r ∈ p.expressionRoots ts ↔ ∃ t ∈ ts, p.rootAt ts t = some r := by
  rw [expressionRoots, List.mem_eraseDups, List.mem_filterMap]

/-- Where the way up is not too long, a token contributes the one top above it. -/
theorem rootAt_eq_some_iff_isTop (h : p.ancestor? climbLimit t = none) :
    p.rootAt ts t = some r ↔ p.TakesPart t ∧ p.ClimbsTo ts t r ∧ p.IsTop ts r := by
  have hclimb : p.ClimbsTo ts t (p.climbWithin ts climbLimit t) := climbsTo_climbWithin _ t
  have htop : p.IsTop ts (p.climbWithin ts climbLimit t) := isTop_climbWithin h
  rw [rootAt_eq_some_iff]
  apply and_congr_right'
  constructor
  · rintro rfl
    exact ⟨hclimb, htop⟩
  · rintro ⟨hr, hrtop⟩
    exact hclimb.top_unique hr htop hrtop

/-! ### The roots of a stretch -/

/-- **The top-level expressions of a stretch divide it.**  They are different tokens of the stretch,
with parents that are absent or outside, and each is climbed to from a token that takes part.  From
each token that takes part exactly one of them is climbed to.  And they come in the order of the
first tokens that take part and climb to them.  Nothing is asked of the trees but that no way up is
as long as the limit of a climb. -/
theorem expressionRoots_partition (hchains : ∀ t ∈ ts, p.ancestor? climbLimit t = none) :
    (p.expressionRoots ts).Nodup ∧
    (∀ r ∈ p.expressionRoots ts, r ∈ ts ∧ p.IsTop ts r ∧
      ∃ t ∈ ts, p.TakesPart t ∧ p.ClimbsTo ts t r) ∧
    (∀ t ∈ ts, p.TakesPart t → ∃! r, r ∈ p.expressionRoots ts ∧ p.ClimbsTo ts t r) ∧
    (p.expressionRoots ts).Pairwise fun r q =>
      ∃ t ∈ ts, p.TakesPart t ∧ p.ClimbsTo ts t r ∧
        ∀ u ∈ ts, p.TakesPart u → p.ClimbsTo ts u q → ts.idxOf t < ts.idxOf u := by
  have hfirsts := pairwise_firsts (p.rootAt ts) ts
  have hroots : ∀ r ∈ p.expressionRoots ts, p.IsTop ts r ∧
      ∃ t ∈ ts, p.TakesPart t ∧ p.ClimbsTo ts t r := by
    intro r hr
    obtain ⟨t, ht, hroot⟩ := mem_expressionRoots_iff.1 hr
    obtain ⟨hpart, hclimb, htop⟩ := (rootAt_eq_some_iff_isTop (hchains t ht)).1 hroot
    exact ⟨htop, t, ht, hpart, hclimb⟩
  refine ⟨?_, ?_, ?_, ?_⟩
  · -- A token that came twice would stand before itself.
    refine hfirsts.imp ?_
    rintro r _ ⟨t, ht, hroot, hfirst⟩ rfl
    exact Nat.lt_irrefl _ (hfirst t ht hroot)
  · intro r hr
    obtain ⟨htop, t, ht, hpart, hclimb⟩ := hroots r hr
    exact ⟨hclimb.mem ht, htop, t, ht, hpart, hclimb⟩
  · intro t ht hpart
    have hclimb : p.ClimbsTo ts t (p.climbWithin ts climbLimit t) := climbsTo_climbWithin _ t
    have hroot : p.rootAt ts t = some (p.climbWithin ts climbLimit t) :=
      rootAt_eq_some_iff.2 ⟨hpart, rfl⟩
    refine ⟨_, ⟨mem_expressionRoots_iff.2 ⟨t, ht, hroot⟩, hclimb⟩, ?_⟩
    rintro r ⟨hr, hclimb'⟩
    exact hclimb'.top_unique hclimb (hroots r hr).1 (isTop_climbWithin (hchains t ht))
  · refine hfirsts.imp_of_mem ?_
    rintro r q - hq ⟨t, ht, hroot, hfirst⟩
    obtain ⟨hpart, hclimb, -⟩ := (rootAt_eq_some_iff_isTop (hchains t ht)).1 hroot
    refine ⟨t, ht, hpart, hclimb, fun u hu hupart huclimb => hfirst u hu ?_⟩
    exact (rootAt_eq_some_iff_isTop (hchains u hu)).2 ⟨hupart, huclimb, (hroots q hq).1⟩

end Program

/-- `int a; int b = n; if (n != 0) ++y;`, with the body of a lambda around the last statement.  The
parent of `!=` is the bracket before it. -/
def guardedBody : Program where
  tokens := #[
    { text := "int", next := some 1 },
    { text := "a", isName := true, varId := 1, var := some 0, next := some 2 },
    { text := ";" },
    { text := "b", isName := true, varId := 2, var := some 1, parent := some 4 },
    { text := "=", left := some 3, right := some 5 },
    { text := "n", isName := true, parent := some 4 },
    { text := ";" },
    { text := "if", isName := true, parent := some 8 },
    { text := "(", left := some 7, right := some 10 },
    { text := "n", isName := true, parent := some 10 },
    { text := "!=", left := some 9, right := some 11, parent := some 8 },
    { text := "0", isNumber := true, parent := some 10 },
    { text := ")" },
    { text := "++", left := some 14, scope := some 0 },
    { text := "y", isName := true, parent := some 13, scope := some 0 }]
  vars := #[{ id := 1, nameToken := some 1, isLocal := true }, { id := 2, isLocal := true }]
  scopes := #[{ kind := "Lambda" }]

theorem expressionRoots_partition_guardedBody :
    guardedBody.expressionRoots [0, 1, 2, 3, 4, 5, 6, 9, 10, 11, 12, 13, 14] = [1, 4, 10] ∧
    (∃! r, r ∈ [1, 4, 10] ∧
      guardedBody.ClimbsTo [0, 1, 2, 3, 4, 5, 6, 9, 10, 11, 12, 13, 14] 11 r) ∧
    guardedBody.IsTop [0, 1, 2, 3, 4, 5, 6, 9, 10, 11, 12, 13, 14] 10 := by
  have hchains : ∀ t ∈ [0, 1, 2, 3, 4, 5, 6, 9, 10, 11, 12, 13, 14],
      guardedBody.ancestor? Program.climbLimit t = none := fun t ht =>
    Program.ancestor?_eq_none_of_le (m := 3) (by revert t; decide) (by decide)
  have hroots : guardedBody.expressionRoots [0, 1, 2, 3, 4, 5, 6, 9, 10, 11, 12, 13, 14] =
      [1, 4, 10] := by decide +kernel
  have hpart : guardedBody.TakesPart 11 := ⟨by decide, .inl (.inr (.inr rfl))⟩
  obtain ⟨-, hmem, hunique, -⟩ := Program.expressionRoots_partition hchains
  rw [hroots] at hmem hunique
  exact ⟨hroots, hunique 11 (by decide) hpart, (hmem 10 (by decide)).2.1⟩

end DivisorCheck
