/-
  Which divisions are examined.

  The rule is applied to the sites of the units that were analysed and to all
  tokens tagged outside of them.  So a division escapes it if no unit has tagged it
  and evaluating the expression around it does not either.  When no unit failed,
  there are no other ways to escape (`Checked.divisions_examined`): a division that
  is not concealed in its expression is examined, and reported if the tag of its
  divisor admits zero.  One that is concealed may be lost without a word.
-/
import DivisorCheck.Proofs.Check.Findings
import DivisorCheck.Proofs.Expr.Coverage

namespace DivisorCheck

namespace Checked

/-- The rule is applied to the token, for a unit or outside. -/
def Examined (c : Checked) (t : TokenId) : Prop :=
  (∃ u ∈ c.units, ∃ r, u.outcome = .ok r ∧ t ∈ r.sites) ∨
    t ∈ (Program.outsideTags c.outside).tokens

/-- Some unit has left a tag on the token. -/
def Tagged (c : Checked) (t : TokenId) : Prop :=
  ∃ u ∈ c.units, ∃ r, u.outcome = .ok r ∧ t ∈ r.annotations.tokens

/-- The tag that a token has received outside the units; `top` if it has received none. -/
def tagOutside (c : Checked) (t : TokenId) : Tag :=
  ((Program.outsideTags c.outside).get? t).getD .top

variable {p : Program} {settings : Settings} {timing : Timing} {c : Checked} {t : TokenId}

/-- Outside the units, the tags are on what the expressions around leftover divisions reach. -/
theorem mem_outsideTags_iff (h : p.check settings timing = .ok c) (trees : p.FormsTrees) :
    t ∈ (Program.outsideTags c.outside).tokens ↔
      t ∈ (p.expr (p.exprRoot t)).reached p .operator ∧
        ∃ d ∈ p.outsideDivisions c.units, p.exprRoot d = p.exprRoot t := by
  rw [(of_check h).2.1, Program.mem_outsideTags]
  constructor
  · rintro ⟨o, ho, hmem⟩
    obtain ⟨root, hroot, rfl⟩ := List.mem_map.1 ho
    obtain ⟨d, hd, rfl⟩ := List.mem_map.1 (List.mem_eraseDups.1 hroot)
    have hreached := (Program.mem_tokens_evalStandalone_iff trees _).1 hmem
    have hroot : p.exprRoot t = p.exprRoot d :=
      trees.mem_tokens_exprRoot_iff.1 (Expr.mem_tokens_of_mem_reached hreached)
    rw [hroot]
    exact ⟨hreached, d, hd, rfl⟩
  · rintro ⟨hreached, d, hd, hroot⟩
    refine ⟨_, List.mem_map.2 ⟨p.exprRoot t, ?_, rfl⟩,
      (Program.mem_tokens_evalStandalone_iff trees _).2 hreached⟩
    exact List.mem_eraseDups.2 (List.mem_map.2 ⟨d, hd, hroot⟩)

/-- A division is examined exactly if some unit has tagged it or its expression reaches it. -/
theorem examined_iff (h : p.check settings timing = .ok c) (trees : p.FormsTrees)
    (settled : ∀ u ∈ c.units, u.failed = false) (ht : t ∈ p.tokenIds)
    (hdiv : p.isDivision t = true) :
    c.Examined t ↔ c.Tagged t ∨ t ∈ (p.expr (p.exprRoot t)).reached p .operator := by
  have hsite : c.Tagged t → c.Examined t := fun ⟨u, hu, r, hr, htag⟩ =>
    .inl ⟨u, hu, r, hr, (mem_sites_iff h hu hr t).2 ⟨htag, hdiv⟩⟩
  constructor
  · rintro (⟨u, hu, r, hr, hmem⟩ | hout)
    · exact .inl ⟨u, hu, r, hr, ((mem_sites_iff h hu hr t).1 hmem).1⟩
    · exact .inr ((mem_outsideTags_iff h trees).1 hout).1
  · rintro (htagged | hreached)
    · exact hsite htagged
    · by_cases htagged : c.Tagged t
      · exact hsite htagged
      · -- No unit failed, so what a unit accounts for is what it has tagged: `t` is left over.
        refine .inr ((mem_outsideTags_iff h trees).2 ⟨hreached, t, ?_, rfl⟩)
        refine Program.mem_outsideDivisions.2 ⟨ht, hdiv, fun u hu hcovered => htagged ?_⟩
        cases hr : u.outcome with
        | error e =>
          have hfailed := settled u hu
          simp [UnitOutcome.failed, UnitOutcome.error?, hr] at hfailed
        | ok r =>
          rw [UnitOutcome.covered, hr] at hcovered
          exact ⟨u, hu, r, hr, hcovered⟩

/-- What the rule flags at a site of a unit is reported. -/
theorem reported_of_site {u : UnitOutcome} (hu : u ∈ c.units) {r : AnalysisResult}
    (hr : u.outcome = .ok r) (hsite : t ∈ r.sites)
    (hflags : DivisionRule.Flags ⟨settings.integralTypes⟩ p r.tagOf t) :
    ∃ e ∈ c.events p settings, e.event.token = t := by
  obtain ⟨e, he⟩ := hflags.exists_check
  obtain rfl := DivisionRule.token_of_check _ p he
  have hmem : ⟨e, u.unit.name p⟩ ∈ p.unitEvents ⟨settings.integralTypes⟩ u := by
    unfold Program.unitEvents
    rw [hr]
    exact List.mem_map_of_mem (List.mem_filterMap.2 ⟨_, hsite, he⟩)
  exact Program.exists_mem_events
    (List.mem_append_left _ (List.mem_flatMap.2 ⟨u, hu, hmem⟩))

/-- What the rule flags at a token tagged outside is reported. -/
theorem reported_of_outside (hout : t ∈ (Program.outsideTags c.outside).tokens)
    (hflags : DivisionRule.Flags ⟨settings.integralTypes⟩ p c.tagOutside t) :
    ∃ e ∈ c.events p settings, e.event.token = t := by
  obtain ⟨e, he⟩ := hflags.exists_check
  obtain rfl := DivisionRule.token_of_check _ p he
  have hmem : ⟨e, ""⟩ ∈ p.outsideEvents ⟨settings.integralTypes⟩ (Program.outsideTags c.outside) :=
    List.mem_map_of_mem (List.mem_filterMap.2 ⟨_, hout, he⟩)
  exact Program.exists_mem_events (List.mem_append_right _ hmem)

/-- **No division is skipped unless it is concealed.**  Let the links draw trees and no unit have
failed.  A division that is not concealed in its expression is examined; in general one is, exactly
if some unit has tagged it or its expression reaches it.  Where the rule, applied with the tags of
a unit or with those outside, sees that the divisor may be zero, the division is reported. -/
theorem divisions_examined (trees : p.FormsTrees) (h : p.check settings timing = .ok c)
    (settled : ∀ u ∈ c.units, u.failed = false) (ht : t ∈ p.tokenIds)
    (hdiv : p.isDivision t = true) :
    (¬ p.Concealed t → c.Examined t) ∧
    (c.Examined t ↔ c.Tagged t ∨ t ∈ (p.expr (p.exprRoot t)).reached p .operator) ∧
    (∀ u ∈ c.units, ∀ r, u.outcome = .ok r → t ∈ r.sites →
      DivisionRule.Flags ⟨settings.integralTypes⟩ p r.tagOf t →
      ∃ e ∈ c.events p settings, e.event.token = t) ∧
    (t ∈ (Program.outsideTags c.outside).tokens →
      DivisionRule.Flags ⟨settings.integralTypes⟩ p c.tagOutside t →
      ∃ e ∈ c.events p settings, e.event.token = t) := by
  have hexamined := examined_iff h trees settled ht hdiv
  refine ⟨fun hclear => ?_, hexamined, ?_, reported_of_outside⟩
  · exact hexamined.2 (.inr (Program.mem_reached_of_not_concealed trees hclear))
  · exact fun u hu r hr => reported_of_site hu hr

end Checked

/-! ### A division within a conversion -/

/-- `T(7 / 0)`, the conversion having the division as its only operand. -/
def plainConversion : Program where
  tokens := #[
    { text := "T", next := some 1, isName := true },
    { text := "(", next := some 2, link := some 5, left := some 3, isCast := true },
    { text := "7", next := some 3, isNumber := true, parent := some 3 },
    { text := "/", next := some 4, left := some 2, right := some 4, parent := some 1,
      valueType := some { name := "int" } },
    { text := "0", next := some 5, isNumber := true, parent := some 3 },
    { text := ")", link := some 1 }]

theorem not_concealed_plainConversion : ¬ plainConversion.Concealed 3 := by
  rintro ⟨n, c, q, hc, hparent, hstep⟩
  -- The way up from the division ends at the conversion.
  have hway : n = 0 ∧ c = 3 ∧ q = 1 := by
    match n with
    | 0 =>
      cases hc
      cases hparent
      exact ⟨rfl, rfl, rfl⟩
    | 1 =>
      cases hc
      cases hparent
    | n + 2 =>
      have hnone : plainConversion.ancestor? (n + 2) 3 = none :=
        Program.ancestor?_eq_none_of_le (m := 2) rfl (Nat.le_add_left 2 n)
      rw [hnone] at hc
      cases hc
  obtain ⟨rfl, rfl, rfl⟩ := hway
  rcases hstep with ⟨hright, -⟩ | ⟨hpos, -⟩
  · cases hright
  · exact absurd hpos (Nat.lt_irrefl 0)

theorem check_plainConversion : ∃ c, plainConversion.check {} = .ok c ∧ c.units = [] ∧
    DivisionRule.Flags {} plainConversion c.tagOutside 3 := by
  have hrun : plainConversion.checksTo {} (fun c => c.units.isEmpty &&
      decide (DivisionRule.Flags {} plainConversion c.tagOutside 3)) = true := by decide
  obtain ⟨c, hc, htest⟩ := Program.exists_of_checksTo hrun
  obtain ⟨hunits, hflags⟩ := Bool.and_eq_true_iff.1 htest
  exact ⟨c, hc, List.isEmpty_iff.1 hunits, of_decide_eq_true hflags⟩

theorem divisions_examined_plainConversion : plainConversion.FormsTrees ∧ ∃ c,
    plainConversion.check {} = .ok c ∧ c.Examined 3 ∧
    ∃ e ∈ c.events plainConversion {}, e.event.token = 3 := by
  have htrees : plainConversion.FormsTrees := by decide
  obtain ⟨c, hc, hunits, hflags⟩ := check_plainConversion
  have hsettled : ∀ u ∈ c.units, u.failed = false := by
    rw [hunits]
    exact fun u hu => nomatch hu
  obtain ⟨hclear, -, -, hreported⟩ := Checked.divisions_examined (t := 3) htrees hc hsettled
    (by decide) (by decide)
  have hexamined := hclear not_concealed_plainConversion
  refine ⟨htrees, c, hc, hexamined, ?_⟩
  rcases hexamined with ⟨u, hu, -⟩ | hout
  · rw [hunits] at hu
    cases hu
  · exact hreported hout hflags

/-- `T(7 / 0)`, the conversion having its type as first operand. -/
def typedConversion : Program where
  tokens := #[
    { text := "T", next := some 1, isName := true, parent := some 1 },
    { text := "(", next := some 2, link := some 5, left := some 0, right := some 3,
      isCast := true },
    { text := "7", next := some 3, isNumber := true, parent := some 3 },
    { text := "/", next := some 4, left := some 2, right := some 4, parent := some 1,
      valueType := some { name := "int" } },
    { text := "0", next := some 5, isNumber := true, parent := some 3 },
    { text := ")", link := some 1 }]

theorem check_typedConversion : ∃ c, typedConversion.check {} = .ok c ∧ c.units = [] ∧
    ¬ c.Examined 3 := by
  have hrun : typedConversion.checksTo {} (fun c => c.units.isEmpty &&
      decide (3 ∉ (Program.outsideTags c.outside).tokens)) = true := by decide
  obtain ⟨c, hc, htest⟩ := Program.exists_of_checksTo hrun
  obtain ⟨hempty, hskipped⟩ := Bool.and_eq_true_iff.1 htest
  have hunits := List.isEmpty_iff.1 hempty
  refine ⟨c, hc, hunits, ?_⟩
  rintro (⟨u, hu, -⟩ | hout)
  · rw [hunits] at hu
    cases hu
  · exact of_decide_eq_true hskipped hout

/-- **A division can be skipped.**  A conversion with two operands passes over the second one. -/
theorem division_skipped_typedConversion : ¬ ∀ (p : Program) (settings : Settings) (c : Checked)
    (t : TokenId), p.FormsTrees → p.check settings = .ok c →
    (∀ u ∈ c.units, u.failed = false) → t ∈ p.tokenIds → p.isDivision t = true →
    c.Examined t := by
  intro hclaim
  obtain ⟨c, hc, hunits, hskipped⟩ := check_typedConversion
  have hsettled : ∀ u ∈ c.units, u.failed = false := by
    rw [hunits]
    exact fun u hu => nomatch hu
  exact hskipped (hclaim typedConversion {} c 3 (by decide) hc hsettled (by decide)
    (by decide))

end DivisorCheck
