/-
  What is reported about a function that could not be analysed.

  A unit fails if its body has no usable graph, if its analysis does not settle, or
  if that takes too long; how time passes is left open.  Every unit that failed gets
  its one note.  Its divisions are not examined for it, and the tokens of its body
  count as accounted for.  That does not silence them: bodies may overlap, as that
  of a local class does with the function around it, and an expression evaluated on
  its own may reach into a body.  These are the two ways in which a division of a
  failed body is still reported (`Checked.reports_on_failed`), and the first of them
  is real.
-/
import DivisorCheck.Proofs.Check.Findings

namespace DivisorCheck

namespace Checked

variable {p : Program} {settings : Settings} {timing : Timing} {c : Checked}

/-- There is one note for each unit that failed, in order. -/
theorem forall₂_unchecked (h : p.check settings timing = .ok c) :
    List.Forall₂ (fun u f => ∃ e, u.outcome = .error e ∧ f = p.uncheckedFinding u.unit e)
      (c.units.filter (·.failed)) (c.findings.filter (·.errorId = uncheckedId)) := by
  rw [filter_unchecked h]
  induction c.units with
  | nil => exact .nil
  | cons u us ih =>
    cases hu : u.outcome with
    | ok r =>
      have hnone : u.error? = none := by simp [UnitOutcome.error?, hu]
      rw [List.filter_cons_of_neg (by simp [UnitOutcome.failed, hnone]),
        Program.uncheckedFindings, List.filterMap_cons_none (by simp [hnone])]
      exact ih
    | error e =>
      have hsome : u.error? = some e := UnitOutcome.error?_eq_some_iff.2 hu
      rw [List.filter_cons_of_pos (by simp [UnitOutcome.failed, hsome]),
        Program.uncheckedFindings, List.filterMap_cons_some (by rw [hsome]; rfl)]
      exact .cons ⟨e, hu, rfl⟩ ih

/-- A failed unit accounts for all tokens of its body. -/
theorem not_mem_outsideDivisions {u : UnitOutcome} (hu : u ∈ c.units) {fault : AnalysisError}
    (hfail : u.outcome = .error fault) {d : TokenId} (hd : d ∈ p.outsideDivisions c.units) :
    d ∉ u.unit.bodyTokens p := by
  have hout := (Program.mem_outsideDivisions.1 hd).2.2 u hu
  rwa [UnitOutcome.covered, hfail] at hout

/-- **A failed body is reported on only as part of something else.**  The unit gets one note.  A
division of its body is reported if another unit was analysed and has the division among its sites,
or if it shares an expression with a division outside the body that no unit accounts for; and in no
other case. -/
theorem reports_on_failed (h : p.check settings timing = .ok c) {u : UnitOutcome}
    (hu : u ∈ c.units) {fault : AnalysisError} (hfail : u.outcome = .error fault) :
    ((c.units.map (·.unit.function)).Nodup ∧
      List.Forall₂ (fun v f => ∃ e, v.outcome = .error e ∧ f = p.uncheckedFinding v.unit e)
        (c.units.filter (·.failed)) (c.findings.filter (·.errorId = uncheckedId))) ∧
    c.findings.filter (·.errorId = divisionId) = (c.events p settings).map p.divisionFinding ∧
    ∀ e ∈ c.events p settings, e.event.token ∈ u.unit.bodyTokens p →
      (∃ v ∈ c.units, v.unit.function ≠ u.unit.function ∧ ∃ r, v.outcome = .ok r ∧
        e.event.token ∈ r.sites ∧ e.function = v.unit.name p) ∨
      (∃ d ∈ p.outsideDivisions c.units, d ∉ u.unit.bodyTokens p ∧
        e.event.token ∈ (p.expr (p.exprRoot d)).tokens) := by
  refine ⟨⟨nodup_functions h, forall₂_unchecked h⟩, filter_division h, fun e he _ => ?_⟩
  rcases Program.mem_events he with ⟨v, hv, hev⟩ | hout
  · obtain ⟨r, hr, hsite, -, hname⟩ := Program.mem_unitEvents hev
    refine .inl ⟨v, hv, fun heq => ?_, r, hr, hsite, hname⟩
    -- Only one unit is made from a function, and this one failed.
    obtain rfl := List.inj_on_of_nodup_map (nodup_functions h) hv hu heq
    rw [hfail] at hr
    cases hr
  · have htag := Program.mem_outsideEvents hout
    rw [(of_check h).2.1] at htag
    obtain ⟨d, hd, hmem⟩ := Program.mem_tokens_outsideExprs htag
    exact .inr ⟨d, hd, not_mem_outsideDivisions hu hfail hd, hmem⟩

end Checked

/-! ### Bodies within a body -/

/-- `struct { { do a / b; } { c / d; } };` as the body of one function, the inner braces being those
of two others: in the first the `while` is missing. -/
def nestedBodies : Program where
  tokens := #[
    { text := "\x7b", next := some 1, link := some 18 },
    { text := "struct", next := some 2, isName := true },
    { text := "\x7b", next := some 3, link := some 16 },
    { text := "\x7b", next := some 4, link := some 9 },
    { text := "do", next := some 5, isName := true },
    { text := "a", next := some 6, isName := true, parent := some 6 },
    { text := "/", next := some 7, left := some 5, right := some 7,
      valueType := some { name := "int" } },
    { text := "b", next := some 8, isName := true, parent := some 6 },
    { text := ";", next := some 9 },
    { text := "\x7d", next := some 10, link := some 3 },
    { text := "\x7b", next := some 11, link := some 15 },
    { text := "c", next := some 12, isName := true, parent := some 12 },
    { text := "/", next := some 13, left := some 11, right := some 13,
      valueType := some { name := "int" } },
    { text := "d", next := some 14, isName := true, parent := some 12 },
    { text := ";", next := some 15 },
    { text := "\x7d", next := some 16, link := some 10 },
    { text := "\x7d", next := some 17, link := some 2 },
    { text := ";", next := some 18 },
    { text := "\x7d", link := some 0 }]
  functions := #[{ name := some "unfinished" }, { name := some "slow" }, { name := some "outer" }]
  scopes := #[
    { kind := "Function", function := some 0, bodyStart := some 3, bodyEnd := some 9 },
    { kind := "Function", function := some 1, bodyStart := some 10, bodyEnd := some 15 },
    { kind := "Function", function := some 2, bodyStart := some 0, bodyEnd := some 18 }]

/-- One second is allowed for each function. -/
def hurried : Settings := { timeout := some (.whole 1) }

/-- The second function takes two. -/
def lingering : Timing := fun f _ => if f = 1 then 2 else 0

/-- How the inner functions fail: for want of a graph the first, for want of time the second. -/
def nestedFaults : List AnalysisError := [
  ⟨some "unfinished", .badBody .noWhile (some ⟨"", 0⟩)⟩,
  ⟨some "slow", .tooSlow (.whole 1) 0⟩]

theorem check_nestedBodies : ∃ c, nestedBodies.check hurried lingering = .ok c ∧
    nestedBodies.outsideDivisions c.units = [] ∧
    ∀ fault ∈ nestedFaults, ∃ u ∈ c.units, u.outcome = .error fault ∧
      ∃ e ∈ c.events nestedBodies hurried, e.event.token ∈ u.unit.bodyTokens nestedBodies := by
  have hrun : nestedBodies.checksTo hurried (fun c =>
      nestedBodies.outsideDivisions c.units = [] &&
        nestedFaults.all fun fault => c.units.any fun u =>
          u.error? = some fault && (c.events nestedBodies hurried).any fun e =>
            e.event.token ∈ u.unit.bodyTokens nestedBodies) lingering = true := by
    decide +kernel
  obtain ⟨c, hc, htest⟩ := Program.exists_of_checksTo hrun
  obtain ⟨hout, hall⟩ := Bool.and_eq_true_iff.1 htest
  refine ⟨c, hc, of_decide_eq_true hout, fun fault hfault => ?_⟩
  obtain ⟨u, hu, htest⟩ := List.any_eq_true.1 (List.all_eq_true.1 hall fault hfault)
  obtain ⟨herror, hany⟩ := Bool.and_eq_true_iff.1 htest
  obtain ⟨e, he, hmem⟩ := List.any_eq_true.1 hany
  exact ⟨u, hu, UnitOutcome.error?_eq_some_iff.1 (of_decide_eq_true herror), e, he,
    of_decide_eq_true hmem⟩

theorem reports_on_failed_nestedBodies : ∃ c, nestedBodies.check hurried lingering = .ok c ∧
    ∀ fault ∈ nestedFaults, ∃ u ∈ c.units, u.outcome = .error fault ∧
      ∃ e ∈ c.events nestedBodies hurried, e.event.token ∈ u.unit.bodyTokens nestedBodies ∧
      ∃ v ∈ c.units, v.unit.function ≠ u.unit.function ∧ ∃ r, v.outcome = .ok r ∧
        e.event.token ∈ r.sites := by
  obtain ⟨c, hc, hout, hfaults⟩ := check_nestedBodies
  refine ⟨c, hc, fun fault hfault => ?_⟩
  obtain ⟨u, hu, hfail, e, he, hmem⟩ := hfaults fault hfault
  obtain ⟨-, -, hreports⟩ := Checked.reports_on_failed hc hu hfail
  refine ⟨u, hu, hfail, e, he, hmem, ?_⟩
  rcases hreports e he hmem with ⟨v, hv, hne, r, hr, hsite, -⟩ | ⟨d, hd, -⟩
  · exact ⟨v, hv, hne, r, hr, hsite⟩
  · rw [hout] at hd
    cases hd

/-- **A failed body need not be silent.**  The divisions of the inner bodies are reported for the
outer one, into whose statement they fall. -/
theorem not_silent_nestedBodies : ¬ ∀ (p : Program) (settings : Settings) (timing : Timing)
    (c : Checked), p.check settings timing = .ok c → ∀ u ∈ c.units, ∀ fault,
      u.outcome = .error fault → ∀ e ∈ c.events p settings,
        e.event.token ∉ u.unit.bodyTokens p := by
  intro hclaim
  obtain ⟨c, hc, -, hfaults⟩ := check_nestedBodies
  obtain ⟨u, hu, hfail, e, he, hmem⟩ := hfaults _ (List.mem_cons_self ..)
  exact hclaim nestedBodies hurried lingering c hc u hu _ hfail e he hmem

end DivisorCheck
