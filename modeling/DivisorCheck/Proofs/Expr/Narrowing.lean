/-
  Narrowing is sound.

  `narrowBy` works on the store after the whole condition, while what the parts of
  the condition say was true at different moments.  `narrowBy_sound` is therefore
  about the state after the condition, and about one variable at a time: if what
  the store says about the variable is true there, then so is what the narrowed
  store says about it.  A part that ran earlier has said something about its own
  moment; for a variable that the later part leaves alone that is the same, and
  for the others `restore` has taken back what was said.

  The two outcomes of a condition together lose nothing (`le_join_narrowBy`): what
  was known about a variable is covered by what is known in one case or the other.
-/
import DivisorCheck.Proofs.Execution.Effects
import DivisorCheck.Proofs.Store.Order

namespace DivisorCheck

/-! ### Tags -/

namespace Tag

theorem Holds.narrow {a b : Tag} {n : Int} (ha : a.Holds n) (hb : b.Holds n) :
    (a.narrow b).Holds n := by
  cases a <;> cases b <;> simp_all [Tag.narrow, Holds, meet]

theorem le_join_narrow (a : Tag) :
    a.le ((a.narrow .zero).join (a.narrow .nonZero)) = true := by
  cases a <;> rfl

theorem narrow_ne_bottom {a b : Tag} (ha : a ≠ .bottom) (hb : b ≠ .bottom) :
    a.narrow b ≠ .bottom := by
  cases a <;> cases b <;> simp_all [Tag.narrow, meet]

theorem join_ne_bottom {a b : Tag} (ha : a ≠ .bottom) : a.join b ≠ .bottom := by
  cases a <;> cases b <;> simp_all [join]

theorem ne_bottom_of_holds {a : Tag} {n : Int} (h : a.Holds n) : a ≠ .bottom := by
  rintro rfl
  exact h

end Tag

namespace Expr

variable {p : Program} {e l r : Expr} {v : VarId} {escaped : List VarId} {s : Store}

/-! ### Stores that are narrowed -/

theorem assertZero_ne_unreachable (h : s ≠ .unreachable) (isZero : Bool) :
    e.assertZero p isZero s ≠ .unreachable := by
  unfold assertZero
  split
  · exact Store.set_ne_unreachable h _ _
  · exact h

theorem restore_ne_unreachable (before : Store) (vs : List VarId) (h : s ≠ .unreachable) :
    restore before vs s ≠ .unreachable := by
  unfold restore
  induction vs generalizing s with
  | nil => exact h
  | cons w vs ih => exact ih (Store.set_ne_unreachable h _ _)

theorem get_restore (before : Store) (vs : List VarId) (h : s ≠ .unreachable) (v : VarId) :
    (restore before vs s).get v = if v ∈ vs then before.get v else s.get v := by
  unfold restore
  induction vs generalizing s with
  | nil => simp
  | cons w vs ih =>
    rw [List.foldl_cons, ih (Store.set_ne_unreachable h _ _), Store.get_set h]
    by_cases hv : v ∈ vs
    · rw [if_pos hv, if_pos (List.mem_cons_of_mem _ hv)]
    · rw [if_neg hv]
      by_cases hw : w = v
      · subst hw
        rw [if_pos rfl, if_pos (List.mem_cons_self ..)]
      · rw [if_neg hw, if_neg (by simp [hv, Ne.symm hw])]

/-- An induction principle that follows `narrowBy`: a property of a store and the narrowed one holds
if it does for what single facts say, and for the two operators that narrow twice. -/
theorem narrowBy_induction {P : Store → Store → Prop} (hrefl : ∀ s, P s s)
    (hassert : ∀ (e : Expr) isZero s, P s (e.assertZero p isZero s))
    (htwice : ∀ vs s s₁ s₂, P s s₁ → P (restore s vs s₁) s₂ → P s s₂)
    (e : Expr) (holds : Bool) (s : Store) : P s (e.narrowBy p escaped holds s) := by
  induction e generalizing holds s with
  | absent => exact hrefl s
  | node t l r ihl ihr =>
    unfold narrowBy
    extract_lets op
    split
    · exact ihl holds s
    · split
      · split
        · exact hassert _ _ s
        · exact hrefl s
      · split
        · exact ihl (!holds) s
        · split
          · exact htwice _ s _ _ (ihl holds s) (ihr holds _)
          · split
            · exact hassert _ _ s
            · exact hrefl s

theorem narrowBy_ne_unreachable (h : s ≠ .unreachable) (holds : Bool) :
    e.narrowBy p escaped holds s ≠ .unreachable := by
  refine narrowBy_induction (P := fun s s' => s ≠ .unreachable → s' ≠ .unreachable)
    (fun _ h => h) (fun e isZero s h => assertZero_ne_unreachable h isZero) ?_ e holds s h
  exact fun vs s s₁ s₂ h₁ h₂ hs => h₂ (restore_ne_unreachable s vs (h₁ hs))

/-- Nothing is known to be impossible. -/
theorem narrowBy_ne_bottom (h : ∀ v, s.get v ≠ .bottom) (holds : Bool) :
    ∀ v, (e.narrowBy p escaped holds s).get v ≠ .bottom := by
  have hreach : ∀ {s : Store}, (∀ v, s.get v ≠ .bottom) → s ≠ .unreachable := by
    rintro s hs rfl
    exact hs 0 rfl
  refine narrowBy_induction
    (P := fun s s' => (∀ v, s.get v ≠ .bottom) → ∀ v, s'.get v ≠ .bottom)
    (fun _ h => h) ?_ ?_ e holds s h
  · intro e isZero s hs v
    unfold assertZero
    split
    · rw [Store.get_narrow]
      split_ifs with hv hzero
      · exact Tag.narrow_ne_bottom (hs _) (by decide)
      · exact Tag.narrow_ne_bottom (hs _) (by decide)
      · exact hs v
    · exact hs v
  · intro vs s s₁ s₂ h₁ h₂ hs
    refine h₂ fun v => ?_
    rw [get_restore s vs (hreach (h₁ hs))]
    split
    · exact hs v
    · exact h₁ hs v

/-! ### The two outcomes together -/

theorem le_join_assertZero (e : Expr) (isZero : Bool) (s : Store) (v : VarId) :
    (s.get v).le (((e.assertZero p isZero s).get v).join
      ((e.assertZero p (!isZero) s).get v)) = true := by
  unfold assertZero
  split
  · rename_i w _
    rw [Store.get_narrow, Store.get_narrow]
    by_cases hw : w = v
    · subst hw
      cases isZero
      · rw [Tag.join_comm]
        simpa using Tag.le_join_narrow (s.get w)
      · simpa using Tag.le_join_narrow (s.get w)
    · rw [if_neg hw, if_neg hw]
      exact Tag.le_join_left _ _
  · exact Tag.le_join_left _ _

/-- **The two outcomes of a condition lose nothing together.** -/
theorem le_join_narrowBy (e : Expr) (s : Store) (v : VarId) :
    (s.get v).le (((e.narrowBy p escaped true s).get v).join
      ((e.narrowBy p escaped false s).get v)) = true := by
  induction e generalizing s with
  | absent => exact Tag.le_join_left _ _
  | node t l r ihl ihr =>
    unfold narrowBy
    extract_lets op
    by_cases hcast : p.isCast t
    · simp only [if_pos hcast]
      exact ihl s
    simp only [if_neg hcast]
    by_cases hcomp : (op = "==" ∨ op = "!=") ∧ !l.isAbsent ∧ !r.isAbsent
    · simp only [if_pos hcomp]
      split
      · -- The two outcomes of a comparison assert opposite facts.
        have hopposite : ((op == "==") == false) = !((op == "==") == true) := by
          cases op == "==" <;> rfl
        rw [hopposite]
        exact le_join_assertZero _ _ s v
      · exact Tag.le_join_left _ _
    simp only [if_neg hcomp]
    by_cases hnot : op = "!" ∧ !l.isAbsent ∧ r.isAbsent
    · simp only [if_pos hnot]
      rw [Tag.join_comm]
      exact ihl s
    simp only [if_neg hnot]
    by_cases hleaf : l = absent ∧ r = absent
    · obtain ⟨rfl, rfl⟩ := hleaf
      by_cases hand : op = "&&"
      · simp only [hand, true_and, true_or, if_true]
        exact Tag.le_join_left _ _
      · by_cases hor : op = "||"
        · simp [hor]
          exact Tag.le_join_right _ _
        · simpa [hand, hor] using le_join_assertZero (node t absent absent) false s v
    · -- A conjunction says nothing when it fails, and everything else nothing when it holds.
      by_cases hand : op = "&&"
      · simp [hand, hleaf, Tag.le_join_right]
      · simp [hand, hleaf, Tag.le_join_left]

/-! ### Soundness -/

variable {cx : EvalContext} {σ σ' : State} {n : Int}

/-- What a name or a comparison asserts is true, if the variable has the value that it speaks of. -/
theorem holds_get_assertZero {isZero : Bool}
    (hfact : ∀ w, e.trackedVar? p = some w → (σ w = 0 ↔ isZero = true))
    (h : (s.get v).Holds (σ v)) : ((e.assertZero p isZero s).get v).Holds (σ v) := by
  unfold assertZero
  split
  · rename_i w hw
    rw [Store.get_narrow]
    split_ifs with hwv hzero
    · subst hwv
      exact h.narrow ((hfact w hw).2 hzero)
    · subst hwv
      exact h.narrow fun hz => hzero ((hfact w hw).1 hz)
    · exact h
  · exact h

/-- What a comparison with zero has found out about the variable that it names. -/
theorem comparedWithZero?_value {role role' : CommaRole} {a b : Int} {σ₁ : State} {subject : Expr}
    (hl : l.WellFormed cx.program) (hr : r.WellFormed cx.program)
    (hleft : cx.exec l role σ (.value a σ₁)) (hright : cx.exec r role' σ₁ (.value b σ'))
    (hsubject : comparedWithZero? cx.program l r = some subject)
    {w : VarId} (hw : subject.trackedVar? cx.program = some w) : a = b ↔ σ' w = 0 := by
  rw [comparedWithZero?, hl.stripCasts, hr.stripCasts] at hsubject
  split_ifs at hsubject with hrz hlz
  · cases hsubject
    obtain ⟨t, rfl, ht⟩ := hr.leaf_of_isZeroLiteral hrz
    obtain ⟨u, rfl, hu, hlit⟩ := hl.leaf_of_trackedVar? hw
    obtain ⟨⟨rfl, rfl⟩, -⟩ := (EvalContext.exec_name_iff hu hlit).1 hleft
    obtain ⟨⟨rfl, rfl⟩, -⟩ := (EvalContext.exec_literal_iff ht).1 hright
    exact Iff.rfl
  · cases hsubject
    obtain ⟨t, rfl, ht⟩ := hl.leaf_of_isZeroLiteral hlz
    obtain ⟨u, rfl, hu, hlit⟩ := hr.leaf_of_trackedVar? hw
    obtain ⟨⟨rfl, rfl⟩, -⟩ := (EvalContext.exec_literal_iff ht).1 hleft
    obtain ⟨⟨rfl, rfl⟩, -⟩ := (EvalContext.exec_name_iff hu hlit).1 hright
    exact eq_comm

theorem toInt_ne_zero_iff {b : Bool} : b.toInt ≠ 0 ↔ b = true := by cases b <;> decide

/-- What a comparison for equality or its opposite asserts by its outcome. -/
theorem asserted_iff_of_comparison {isEqual : Bool} {same : Prop}
    (hn : n ≠ 0 ↔ (isEqual = true ↔ same)) :
    same ↔ (isEqual == decide (n ≠ 0)) = true := by
  by_cases hsame : same <;> cases isEqual <;> by_cases hzero : n = 0 <;> simp_all

/-- The comparison of two operands that are there. -/
theorem exec_comparison_value {t : TokenId} (ht : cx.program.Proper t)
    (htext : cx.program.text t = "==" ∨ cx.program.text t = "!=") (hl : l ≠ absent)
    (hr : r ≠ absent) (h : cx.exec (node t l r) .operator σ (.value n σ')) :
    ∃ a b σ₁, cx.exec l .operator σ (.value a σ₁) ∧ cx.exec r .operator σ₁ (.value b σ') ∧
      (n ≠ 0 ↔ ((cx.program.text t == "==") = true ↔ a = b)) := by
  have hkind : cx.program.operation t l r = .binary :=
    Program.operation_of_equality ht.not_cast htext hl hr
  rw [EvalContext.exec_binary hkind, Run.mayRaise_value_iff, Run.only_value_iff] at h
  obtain ⟨a, σ₁, hleft, hrest⟩ := Run.bind_value_iff.1 h.1
  obtain ⟨b, σ₂, hright, hop⟩ := Run.bind_value_iff.1 hrest
  rcases htext with htext | htext
  · rw [htext] at hop ⊢
    cases hop
    refine ⟨a, b, σ₁, hleft, hright, ?_⟩
    rw [toInt_ne_zero_iff]
    simp
  · rw [htext] at hop ⊢
    cases hop
    refine ⟨a, b, σ₁, hleft, hright, ?_⟩
    rw [toInt_ne_zero_iff]
    simp

/-- A negation ends as its operand does, with the other truth value. -/
theorem exec_not_value {t : TokenId} (ht : cx.program.Proper t)
    (htext : cx.program.text t = "!") (hl : l ≠ absent)
    (h : cx.exec (node t l absent) .operator σ (.value n σ')) :
    ∃ a, cx.exec l .operator σ (.value a σ') ∧ (n ≠ 0 ↔ a = 0) := by
  have hkind : cx.program.operation t l absent = .unary :=
    Program.operation_of_not ht.not_cast htext hl
  rw [EvalContext.exec_operator, Run.mayRaise_value_iff, Run.only_value_iff] at h
  have hrun := h.1
  simp only [EvalContext.execOperation, hkind, Run.bind_value_iff, htext] at hrun
  obtain ⟨a, σ₁, hleft, hop⟩ := hrun
  cases hop
  refine ⟨a, hleft, ?_⟩
  rw [toInt_ne_zero_iff]
  simp

/-- When both operands of `&&` or `||` have decided the value, both have run. -/
theorem exec_shortCircuit_value {t : TokenId} {isAnd : Bool} (ht : cx.program.Proper t)
    (htext : cx.program.text t = if isAnd then "&&" else "||") (hleaf : ¬ (l = absent ∧ r = absent))
    (h : cx.exec (node t l r) .operator σ (.value n σ')) (hn : decide (n ≠ 0) = isAnd) :
    ∃ a b σ₁, cx.exec l .operator σ (.value a σ₁) ∧ cx.exec r .operator σ₁ (.value b σ') ∧
      decide (a ≠ 0) = isAnd ∧ decide (b ≠ 0) = isAnd := by
  have hkind : cx.program.operation t l r = .shortCircuit :=
    Program.operation_of_shortCircuit ht.not_cast htext hleaf
  rw [EvalContext.exec_operator, Run.mayRaise_value_iff, Run.only_value_iff] at h
  have hrun := h.1
  have hand : decide (cx.program.text t = "&&") = isAnd := by
    rw [htext]
    cases isAnd <;> simp
  simp only [EvalContext.execOperation, hkind, hand, EvalContext.execShortCircuit,
    Run.bind_value_iff] at hrun
  obtain ⟨a, σ₁, hleft, hrest⟩ := hrun
  by_cases ha : decide (a ≠ 0) = isAnd
  · rw [if_pos ha, Run.bind_value_iff] at hrest
    obtain ⟨b, σ₂, hright, hpure⟩ := hrest
    cases hpure
    refine ⟨a, b, σ₁, hleft, hright, ha, ?_⟩
    simpa [toInt_ne_zero_iff] using hn
  · rw [if_neg ha] at hrest
    cases hrest
    refine absurd ?_ ha
    simpa [toInt_ne_zero_iff] using hn

/-- **Narrowing is sound**, for one variable at a time: what the narrowed store says about it is
true after the condition if what the store said was. -/
theorem narrowBy_sound (hwf : e.WellFormed cx.program)
    (hrun : cx.exec e .operator σ (.value n σ')) (h : (s.get v).Holds (σ' v)) :
    ((e.narrowBy cx.program cx.escaped (decide (n ≠ 0)) s).get v).Holds (σ' v) := by
  induction e generalizing σ σ' n s v with
  | absent => exact h
  | node t l r ihl ihr =>
    obtain ⟨ht, -, -, hlwf, hrwf⟩ := id hwf
    unfold narrowBy
    extract_lets op
    rw [if_neg (by simp [ht.not_cast])]
    by_cases hcomp : (op = "==" ∨ op = "!=") ∧ !l.isAbsent ∧ !r.isAbsent
    · rw [if_pos hcomp]
      obtain ⟨htext, hl, hr⟩ := hcomp
      obtain ⟨a, b, σ₁, hleft, hright, hn⟩ :=
        exec_comparison_value ht htext (by simpa using hl) (by simpa using hr) hrun
      split
      · rename_i subject hsubject
        refine holds_get_assertZero (fun w hw => ?_) h
        rw [← comparedWithZero?_value hlwf hrwf hleft hright hsubject hw]
        exact asserted_iff_of_comparison hn
      · exact h
    rw [if_neg hcomp]
    by_cases hnot : op = "!" ∧ !l.isAbsent ∧ r.isAbsent
    · rw [if_pos hnot]
      obtain ⟨htext, hl, hr⟩ := hnot
      obtain rfl : r = absent := by simpa using hr
      obtain ⟨a, hleft, hn⟩ := exec_not_value ht htext (by simpa using hl) hrun
      have hholds : (!decide (n ≠ 0)) = decide (a ≠ 0) := by
        simp [hn]
      rw [hholds]
      exact ihl hlwf hleft h
    rw [if_neg hnot]
    split_ifs with htwice hleaf
    · by_cases hleaf : l = absent ∧ r = absent
      · obtain ⟨rfl, rfl⟩ := hleaf
        exact h
      · show ((r.narrowBy cx.program cx.escaped (decide (n ≠ 0)) (restore s
          (r.clobbered cx.program cx.escaped)
          (l.narrowBy cx.program cx.escaped (decide (n ≠ 0)) s))).get v).Holds (σ' v)
        generalize hand : decide (n ≠ 0) = isAnd at htwice ⊢
        have htext : cx.program.text t = if isAnd then "&&" else "||" := by
          cases isAnd <;> simpa using htwice
        obtain ⟨a, b, σ₁, hleft, hright, ha, hb⟩ :=
          exec_shortCircuit_value ht htext hleaf hrun hand
        have hreach : s ≠ .unreachable := by
          rintro rfl
          exact h
        rw [← hb]
        refine ihr hrwf hright ?_
        rw [hb, get_restore _ _ (narrowBy_ne_unreachable hreach isAnd)]
        split_ifs with hv
        · exact h
        · -- What the first operand has said is still true of what the second leaves alone.
          have hsame : σ' v = σ₁ v := EvalContext.preserves_exec hrwf hv _ _ _ _ hright
          rw [hsame] at h ⊢
          rw [← ha]
          exact ihl hlwf hleft h
    · simp only [isAbsent_iff] at hleaf
      obtain ⟨rfl, rfl⟩ := hleaf
      refine holds_get_assertZero (fun w hw => ?_) h
      obtain ⟨u, hu, hname, hlit⟩ := hwf.leaf_of_trackedVar? hw
      cases hu
      obtain ⟨⟨rfl, rfl⟩, -⟩ := (EvalContext.exec_name_iff hname hlit).1 hrun
      simp
    · exact h

end Expr

end DivisorCheck
