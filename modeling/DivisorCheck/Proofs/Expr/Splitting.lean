/-
  What narrowing leaves alone.

  A condition says something only about variables that it names, and only about
  those of which nothing was known (`Refines`): a definite fact stands, whether the
  branch agrees with it or not.  What becomes of one variable does not depend on the
  others (`get_narrowBy_congr`).  So narrowing a second time has nothing to add, and
  since the two outcomes of a condition never agree on a variable that they both say
  something about, joining them gives back the store that was split
  (`narrowBy_splits`).
-/
import DivisorCheck.Proofs.Expr.Narrowing

namespace DivisorCheck

/-- A definite tag stands against whatever a branch asserts. -/
theorem Tag.narrow_of_ne_top {old asserted : Tag} (h : old ≠ .top) : old.narrow asserted = old := by
  cases old <;> cases asserted <;> first | rfl | exact absurd rfl h

namespace Expr

variable {p : Program} {e : Expr} {v : VarId} {escaped : List VarId} {s s' : Store}

/-! ### Variables that are not named -/

/-- No token of the expression names the variable. -/
def Silent (p : Program) (v : VarId) (e : Expr) : Prop :=
  ∀ u ∈ e.tokens, p.trackedVar? u ≠ some v

theorem Silent.left {t : TokenId} {l r : Expr} (h : (node t l r).Silent p v) : l.Silent p v :=
  fun u hu => h u (List.mem_cons_of_mem _ (List.mem_append_left _ hu))

theorem Silent.right {t : TokenId} {l r : Expr} (h : (node t l r).Silent p v) : r.Silent p v :=
  fun u hu => h u (List.mem_cons_of_mem _ (List.mem_append_right _ hu))

theorem Silent.stripCasts (h : e.Silent p v) : (e.stripCasts p).Silent p v := by
  induction e with
  | absent => exact h
  | node t l r ihl _ =>
    rw [Expr.stripCasts]
    split
    · exact ihl h.left
    · exact h

theorem Silent.trackedVar?_ne (h : e.Silent p v) : e.trackedVar? p ≠ some v := by
  cases e with
  | absent => exact fun hnone => nomatch hnone
  | node t l r => exact h t (List.mem_cons_self ..)

theorem Silent.get_assertZero (h : e.Silent p v) (isZero : Bool) (s : Store) :
    (e.assertZero p isZero s).get v = s.get v := by
  unfold assertZero
  split
  · rename_i w hw
    have hne : w ≠ v := fun hwv => h.trackedVar?_ne (hwv ▸ hw)
    rw [Store.get_narrow, if_neg hne]
  · rfl

/-- Narrowing says nothing about a variable that the condition does not name. -/
theorem Silent.get_narrowBy (h : e.Silent p v) (holds : Bool) (hs : s ≠ .unreachable) :
    (e.narrowBy p escaped holds s).get v = s.get v := by
  induction e generalizing holds s with
  | absent => rfl
  | node t l r ihl ihr =>
    unfold narrowBy
    extract_lets op
    split
    · exact ihl h.left holds hs
    · split
      · split
        · -- A comparison narrows the variable on its one side, which it names.
          rename_i subject hsubject
          unfold comparedWithZero? at hsubject
          split_ifs at hsubject <;> cases hsubject
          · exact h.left.stripCasts.get_assertZero _ s
          · exact h.right.stripCasts.get_assertZero _ s
        · rfl
      · split
        · exact ihl h.left (!holds) hs
        · split
          · -- Both operands decide: the second works on what the first leaves.
            have hleft := ihl h.left holds hs
            have hreach : l.narrowBy p escaped holds s ≠ .unreachable :=
              narrowBy_ne_unreachable hs holds
            refine (ihr h.right holds (restore_ne_unreachable s _ hreach)).trans ?_
            rw [get_restore s _ hreach, hleft, ite_self]
          · split
            · exact h.get_assertZero _ s
            · rfl

theorem Silent.get_narrowByCase (h : e.Silent p v) (label : Expr) (s : Store) :
    (e.narrowByCase p label s).get v = s.get v := by
  unfold narrowByCase
  split
  · rename_i n w _ hw
    have hne : w ≠ v := fun hwv => h.stripCasts.trackedVar?_ne (hwv ▸ hw)
    rw [Store.get_narrow, if_neg hne]
  · rfl

/-! ### Variables that something is known of -/

/-- What is known stays; facts may have been added about variables that nothing was known of. -/
def Refines (s s' : Store) : Prop := ∀ v, s.get v ≠ .top → s'.get v = s.get v

theorem Refines.refl (s : Store) : Refines s s := fun _ _ => rfl

theorem Refines.trans {s₁ s₂ : Store} (h₁ : Refines s s₁) (h₂ : Refines s₁ s₂) : Refines s s₂ := by
  intro v hv
  have hsame := h₁ v hv
  rw [h₂ v (hsame ▸ hv), hsame]

theorem Refines.le (h : Refines s s') : s'.le s = true := by
  apply Store.le_iff.2
  intro v
  by_cases hv : s.get v = .top
  · rw [hv]
    exact Tag.le_top _
  · rw [h v hv]
    exact Tag.le_refl _

theorem Refines.set (h : Refines s s') (v : VarId) : Refines s (s'.set v (s.get v)) := by
  intro w hw
  by_cases hreach : s' = .unreachable
  · rw [hreach, Store.set_unreachable, ← hreach]
    exact h w hw
  · rw [Store.get_set hreach]
    split_ifs with hvw
    · rw [hvw]
    · exact h w hw

theorem Refines.restore (h : Refines s s') (vs : List VarId) : Refines s (restore s vs s') := by
  unfold Expr.restore
  induction vs generalizing s' with
  | nil => exact h
  | cons v vs ih => exact ih (h.set v)

theorem refines_narrow (s : Store) (v : VarId) (asserted : Tag) :
    Refines s (s.narrow v asserted) := by
  intro w hw
  rw [Store.get_narrow]
  split_ifs with hvw
  · subst hvw
    exact Tag.narrow_of_ne_top hw
  · rfl

/-- **Narrowing only adds facts.** -/
theorem refines_narrowBy (e : Expr) (holds : Bool) (s : Store) :
    Refines s (e.narrowBy p escaped holds s) := by
  apply narrowBy_induction Refines.refl
  · intro e isZero s
    unfold assertZero
    split
    · exact refines_narrow s _ _
    · exact .refl s
  · intro vs s s₁ s₂ h₁ h₂
    exact (h₁.restore vs).trans h₂

theorem narrowBy_unreachable (holds : Bool) :
    e.narrowBy p escaped holds .unreachable = .unreachable :=
  Store.eq_of_get fun v => refines_narrowBy e holds .unreachable v Tag.noConfusion

theorem narrowByCase_unreachable (subject label : Expr) :
    subject.narrowByCase p label .unreachable = .unreachable := by
  unfold narrowByCase
  split <;> rfl

theorem isUnreachable_narrowBy (e : Expr) (holds : Bool) (s : Store) :
    (e.narrowBy p escaped holds s).isUnreachable = s.isUnreachable := by
  by_cases hreach : s = .unreachable
  · rw [hreach, narrowBy_unreachable]
  · have hafter : e.narrowBy p escaped holds s ≠ .unreachable := narrowBy_ne_unreachable hreach holds
    rw [Bool.eq_iff_iff, Store.isUnreachable_iff, Store.isUnreachable_iff]
    exact iff_of_false hafter hreach

/-! ### One variable at a time -/

theorem get_assertZero_congr (e : Expr) (isZero : Bool) (h : s.get v = s'.get v) :
    (e.assertZero p isZero s).get v = (e.assertZero p isZero s').get v := by
  unfold assertZero
  split
  · rw [Store.get_narrow, Store.get_narrow]
    split_ifs with hw <;> simp [hw, h]
  · exact h

/-- What becomes of a variable depends on what is known of it, and on nothing else. -/
theorem get_narrowBy_congr (holds : Bool) (hs : s ≠ .unreachable) (hs' : s' ≠ .unreachable)
    (h : s.get v = s'.get v) :
    (e.narrowBy p escaped holds s).get v = (e.narrowBy p escaped holds s').get v := by
  induction e generalizing holds s s' with
  | absent => exact h
  | node t l r ihl ihr =>
    unfold narrowBy
    extract_lets op
    split
    · exact ihl holds hs hs' h
    · split
      · split
        · exact get_assertZero_congr _ _ h
        · exact h
      · split
        · exact ihl (!holds) hs hs' h
        · split
          · have hleft : l.narrowBy p escaped holds s ≠ .unreachable :=
              narrowBy_ne_unreachable hs holds
            have hleft' : l.narrowBy p escaped holds s' ≠ .unreachable :=
              narrowBy_ne_unreachable hs' holds
            apply ihr holds (restore_ne_unreachable s _ hleft) (restore_ne_unreachable s' _ hleft')
            rw [get_restore s _ hleft, get_restore s' _ hleft', h, ihl holds hs hs' h]
          · split
            · exact get_assertZero_congr _ _ h
            · exact h

/-- **Narrowing again adds nothing.** -/
theorem narrowBy_narrowBy (e : Expr) (holds : Bool) (s : Store) :
    e.narrowBy p escaped holds (e.narrowBy p escaped holds s) = e.narrowBy p escaped holds s := by
  by_cases hreach : s = .unreachable
  · rw [hreach, narrowBy_unreachable, narrowBy_unreachable]
  apply Store.eq_of_get
  intro v
  by_cases hafter : (e.narrowBy p escaped holds s).get v = .top
  · -- Nothing was known before either, so the second time goes like the first.
    have hbefore : s.get v = .top := by
      by_contra hknown
      exact hknown (refines_narrowBy e holds s v hknown ▸ hafter)
    exact get_narrowBy_congr holds (narrowBy_ne_unreachable hreach holds) hreach
      (hafter.trans hbefore.symm)
  · exact refines_narrowBy e holds _ v hafter

/-- **The two outcomes of a condition together are what was split.** -/
theorem join_narrowBy (e : Expr) (s : Store) :
    (e.narrowBy p escaped true s).join (e.narrowBy p escaped false s) = s := by
  apply Store.eq_of_get
  intro v
  rw [Store.get_join]
  apply Tag.le_antisymm
  · exact Tag.join_le (Store.le_iff.1 (refines_narrowBy e true s).le v)
      (Store.le_iff.1 (refines_narrowBy e false s).le v)
  · exact le_join_narrowBy e s v

/-- **Narrowing splits a store without losing or inventing facts.**  By either outcome the store gets
smaller and stays reachable or unreachable; it changes only for variables of which nothing was known
and that the condition names; and the same outcome again changes nothing more.  The two outcomes
together are the store that was split. -/
theorem narrowBy_splits (p : Program) (escaped : List VarId) (cond : Expr) (s : Store) :
    (∀ holds,
      (cond.narrowBy p escaped holds s).le s = true ∧
      (cond.narrowBy p escaped holds s).isUnreachable = s.isUnreachable ∧
      (∀ v, (cond.narrowBy p escaped holds s).get v ≠ s.get v →
        s.get v = .top ∧ ∃ t ∈ cond.tokens, p.trackedVar? t = some v) ∧
      cond.narrowBy p escaped holds (cond.narrowBy p escaped holds s) =
        cond.narrowBy p escaped holds s) ∧
    (cond.narrowBy p escaped true s).join (cond.narrowBy p escaped false s) = s := by
  refine ⟨fun holds => ⟨(refines_narrowBy cond holds s).le, isUnreachable_narrowBy cond holds s,
    fun v hv => ⟨?_, ?_⟩, narrowBy_narrowBy cond holds s⟩, join_narrowBy cond s⟩
  · by_contra hknown
    exact hv (refines_narrowBy cond holds s v hknown)
  · by_contra hnone
    have hsilent : cond.Silent p v := fun t ht hname => hnone ⟨t, ht, hname⟩
    have hreach : s ≠ .unreachable := by
      rintro rfl
      exact hv (by rw [narrowBy_unreachable])
    exact hv (hsilent.get_narrowBy holds hreach)

/-- `x && y` -/
def bothNamed : Program where
  tokens := #[
    { text := "&&", left := some 1, right := some 2 },
    { text := "x", varId := 1, var := some 0, parent := some 0 },
    { text := "y", varId := 2, var := some 1, parent := some 0 }]
  vars := #[{ id := 1, isLocal := true }, { id := 2, isLocal := true }]

/-- Where `y` is known to be zero, the condition still says of `x` that it is not; that it fails says
nothing. -/
example :
    let s := Store.top.set 2 .zero
    let cond := bothNamed.expr 0
    (cond.narrowBy bothNamed [] true s).get 1 = .nonZero ∧
    (cond.narrowBy bothNamed [] true s).get 2 = .zero ∧
    (cond.narrowBy bothNamed [] false s).get 1 = .top := by
  decide +kernel

end Expr

end DivisorCheck
