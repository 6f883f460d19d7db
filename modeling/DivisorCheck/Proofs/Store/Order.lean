/-
  The order of stores, through the view.

  `Store.le` looks only at the finitely many facts of its right side.  That is
  enough: one store is below another exactly when it says at least as much about
  every variable (`Store.le_iff`), since a variable without a fact is `top` and a
  reachable store has infinitely many of those.  The laws of `le` and `join` then
  follow from the four-element table of tags, one variable at a time.  A join of many
  stores is their least upper bound, so it depends on the set of them alone
  (`Store.joinAll_congr`).
-/
import DivisorCheck.Store
import Mathlib.Data.Set.Finite.Basic
import Mathlib.Data.Int.Basic
import Mathlib.Data.Fintype.EquivFin

namespace DivisorCheck

/-! ### Tags -/

namespace Tag

@[simp] theorem le_refl (a : Tag) : a.le a = true := by cases a <;> rfl

@[simp] theorem le_top (a : Tag) : a.le .top = true := by cases a <;> rfl

@[simp] theorem bottom_le (a : Tag) : Tag.le .bottom a = true := by cases a <;> rfl

theorem le_trans {a b c : Tag} (hab : a.le b = true) (hbc : b.le c = true) : a.le c = true := by
  cases a <;> cases b <;> cases c <;> simp_all [le]

theorem le_antisymm {a b : Tag} (hab : a.le b = true) (hba : b.le a = true) : a = b := by
  cases a <;> cases b <;> simp_all [le]

theorem le_join_left (a b : Tag) : a.le (a.join b) = true := by cases a <;> cases b <;> rfl

theorem le_join_right (a b : Tag) : b.le (a.join b) = true := by cases a <;> cases b <;> rfl

theorem join_mono {a b c d : Tag} (hac : a.le c = true) (hbd : b.le d = true) :
    (a.join b).le (c.join d) = true := by
  cases a <;> cases b <;> cases c <;> cases d <;> simp_all [le, join]

theorem join_le {a b c : Tag} (hac : a.le c = true) (hbc : b.le c = true) :
    (a.join b).le c = true := by
  cases a <;> cases b <;> cases c <;> simp_all [le, join]

theorem ne_bottom_of_le {a b : Tag} (hab : a.le b = true) (ha : a ≠ .bottom) : b ≠ .bottom := by
  cases a <;> cases b <;> simp_all [le]

/-- What a tag describes, every greater tag describes. -/
theorem Holds.mono {a b : Tag} {n : Int} (hab : a.le b = true) (h : a.Holds n) : b.Holds n :=
  le_iff.1 hab n h

theorem mayBeZero_of_holds_zero {a : Tag} (h : a.Holds 0) : a.mayBeZero = true := by
  cases a <;> simp_all [Holds, mayBeZero]

end Tag

/-! ### Stores -/

namespace Store

@[simp] theorem isUnreachable_iff {s : Store} : s.isUnreachable = true ↔ s = unreachable := by
  cases s <;> simp [isUnreachable]

@[simp] theorem set_unreachable (v : VarId) (t : Tag) : unreachable.set v t = unreachable := rfl

@[simp] theorem havoc_unreachable (vs : List VarId) : unreachable.havoc vs = unreachable := rfl

@[simp] theorem narrow_unreachable (v : VarId) (t : Tag) :
    unreachable.narrow v t = unreachable := rfl

theorem set_ne_unreachable {s : Store} (hs : s ≠ unreachable) (v : VarId) (t : Tag) :
    s.set v t ≠ unreachable := by
  cases s with
  | unreachable => exact absurd rfl hs
  | reachable f => by_cases ht : t = .top <;> simp [set, ht]

theorem havoc_ne_unreachable {s : Store} (hs : s ≠ unreachable) (vs : List VarId) :
    s.havoc vs ≠ unreachable := by
  cases s with
  | unreachable => exact absurd rfl hs
  | reachable f => exact Store.noConfusion

theorem join_ne_unreachable {s : Store} (hs : s ≠ unreachable) (s' : Store) :
    s.join s' ≠ unreachable := by
  cases s with
  | unreachable => exact absurd rfl hs
  | reachable f => cases s' <;> exact Store.noConfusion

/-- Narrowing a store narrows the one tag, also where nothing is reachable. -/
theorem get_narrow (s : Store) (v w : VarId) (t : Tag) :
    (s.narrow v t).get w = if v = w then (s.get v).narrow t else s.get w := by
  cases s with
  | unreachable => simp [Tag.narrow]
  | reachable f => rw [narrow, get_set (by simp)]

/-- Some variable has no fact. -/
theorem exists_get_eq_top (f : Facts) : ∃ v, (reachable f).get v = .top := by
  obtain ⟨v, hv⟩ := Infinite.exists_notMem_finset (f.entries.map (·.1)).toFinset
  refine ⟨v, factIn_eq_top ?_⟩
  intro e he hev
  rw [List.mem_toFinset] at hv
  exact hv (hev ▸ List.mem_map_of_mem he)

theorem get_of_mem_entries {f : Facts} {e : VarId × Tag} (he : e ∈ f.entries) :
    (reachable f).get e.1 = e.2 := by
  obtain ⟨l, hl, dl⟩ := f
  simp only [get]
  induction l with
  | nil => cases he
  | cons a l ih =>
    rw [List.pairwise_cons] at hl
    rcases List.mem_cons.1 he with rfl | he
    · simp [factIn]
    · have hne : a.1 ≠ e.1 := Int.ne_of_lt (hl.1 e he)
      rw [factIn, if_neg hne]
      exact ih hl.2 (fun x hx => dl x (List.mem_cons_of_mem _ hx)) he

theorem mem_entries_of_get_ne_top {f : Facts} {v : VarId} (h : (reachable f).get v ≠ .top) :
    (v, (reachable f).get v) ∈ f.entries := by
  obtain ⟨l, hl, dl⟩ := f
  simp only [get] at h ⊢
  clear hl dl
  induction l with
  | nil => exact absurd rfl h
  | cons a l ih =>
    obtain ⟨w, t⟩ := a
    by_cases hw : w = v
    · simp [factIn, hw]
    · simp only [factIn, hw, ↓reduceIte] at h ⊢
      exact List.mem_cons_of_mem _ (ih h)

/-- **The order of stores is the order of what they say**, about every variable. -/
theorem le_iff {a b : Store} : a.le b = true ↔ ∀ v, (a.get v).le (b.get v) = true := by
  cases a with
  | unreachable => simp [le]
  | reachable f =>
    cases b with
    | unreachable =>
      obtain ⟨v, hv⟩ := exists_get_eq_top f
      refine ⟨fun h => by simp [le] at h, fun h => ?_⟩
      have := h v
      rw [hv, get_unreachable] at this
      exact absurd this (by decide)
    | reachable g =>
      simp only [le, List.all_eq_true]
      constructor
      · intro h v
        by_cases htop : (reachable g).get v = .top
        · rw [htop]
          exact Tag.le_top _
        · exact h _ (mem_entries_of_get_ne_top htop)
      · intro h e he
        rw [← get_of_mem_entries he]
        exact h e.1

/-- Stores that say the same about every variable are the same. -/
theorem eq_of_get {a b : Store} (h : ∀ v, a.get v = b.get v) : a = b := by
  cases a with
  | unreachable =>
    cases b with
    | unreachable => rfl
    | reachable g =>
      obtain ⟨v, hv⟩ := exists_get_eq_top g
      have hne : Tag.bottom = .top := (h v).trans hv
      cases hne
  | reachable f =>
    cases b with
    | unreachable =>
      obtain ⟨v, hv⟩ := exists_get_eq_top f
      have hne : Tag.top = .bottom := hv.symm.trans (h v)
      cases hne
    | reachable g => exact ext_get h

theorem le_refl (a : Store) : a.le a = true := le_iff.2 fun _ => Tag.le_refl _

theorem le_trans {a b c : Store} (hab : a.le b = true) (hbc : b.le c = true) :
    a.le c = true :=
  le_iff.2 fun v => Tag.le_trans (le_iff.1 hab v) (le_iff.1 hbc v)

theorem le_join_left (a b : Store) : a.le (a.join b) = true :=
  le_iff.2 fun v => by rw [get_join]; exact Tag.le_join_left _ _

theorem le_join_right (a b : Store) : b.le (a.join b) = true :=
  le_iff.2 fun v => by rw [get_join]; exact Tag.le_join_right _ _

theorem le_antisymm {a b : Store} (hab : a.le b = true) (hba : b.le a = true) : a = b := by
  apply eq_of_get
  intro v
  exact Tag.le_antisymm (le_iff.1 hab v) (le_iff.1 hba v)

theorem le_unreachable_iff {s : Store} : s.le unreachable = true ↔ s = unreachable := by
  cases s <;> simp [le]

/-! ### Least upper bounds -/

/-- **A join is the least upper bound.** -/
theorem join_le_iff {a b c : Store} :
    (a.join b).le c = true ↔ a.le c = true ∧ b.le c = true := by
  constructor
  · intro h
    exact ⟨le_trans (le_join_left a b) h, le_trans (le_join_right a b) h⟩
  · rintro ⟨hac, hbc⟩
    apply le_iff.2
    intro v
    rw [get_join]
    exact Tag.join_le (le_iff.1 hac v) (le_iff.1 hbc v)

theorem foldl_join_le_iff {ss : List Store} {s c : Store} :
    (ss.foldl join s).le c = true ↔ s.le c = true ∧ ∀ a ∈ ss, a.le c = true := by
  induction ss generalizing s with
  | nil => simp
  | cons a ss ih => rw [List.foldl_cons, ih, join_le_iff, List.forall_mem_cons, and_assoc]

/-- Joining along a list stays above the start and every member. -/
theorem le_foldl_join {α : Type} (f : α → Store) (l : List α) (s : Store) :
    s.le (l.foldl (fun acc x => acc.join (f x)) s) = true ∧
    ∀ x ∈ l, (f x).le (l.foldl (fun acc x => acc.join (f x)) s) = true := by
  rw [← List.foldl_map]
  obtain ⟨hstart, hmem⟩ := foldl_join_le_iff.1 (le_refl ((l.map f).foldl join s))
  exact ⟨hstart, fun x hx => hmem _ (List.mem_map_of_mem hx)⟩

theorem joinAll_le_iff {ss : List Store} {c : Store} :
    (joinAll ss).le c = true ↔ ∀ a ∈ ss, a.le c = true := by
  rw [joinAll, foldl_join_le_iff]
  exact and_iff_right rfl

/-- A join of many stores does not depend on their order, nor on how often they occur. -/
theorem joinAll_congr {ss ts : List Store} (h : ∀ s, s ∈ ss ↔ s ∈ ts) :
    joinAll ss = joinAll ts := by
  apply le_antisymm
  · apply joinAll_le_iff.2
    intro s hs
    exact joinAll_le_iff.1 (le_refl _) s ((h s).1 hs)
  · apply joinAll_le_iff.2
    intro s hs
    exact joinAll_le_iff.1 (le_refl _) s ((h s).2 hs)

theorem get_joinAll (ss : List Store) (v : VarId) :
    (joinAll ss).get v = Tag.joinAll (ss.map (·.get v)) := by
  have hstep : ∀ s : Store,
      (ss.foldl join s).get v = (ss.map (·.get v)).foldl Tag.join (s.get v) := by
    induction ss with
    | nil => exact fun _ => rfl
    | cons a ss ih => exact fun s => (ih (s.join a)).trans (by rw [get_join]; rfl)
  exact hstep unreachable

end Store

end DivisorCheck
