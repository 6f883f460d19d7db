/-
  What an analysed unit says about a division is what is reported.

  If one unit alone has left a tag on a division and finds that its divisor may be
  zero, then that is reported, once and for that unit.  If the unit finds that it
  may not, nothing is reported, as long as no division around it is left over: the
  expression around a division that no unit accounts for is evaluated again as a
  whole, knowing nothing, and what it then says of other divisions counts too.
-/
import DivisorCheck.Proofs.Check.Findings
import DivisorCheck.Proofs.Program.Trees

namespace DivisorCheck

namespace Checked

variable {p : Program} {settings : Settings} {timing : Timing} {c : Checked} {u : UnitOutcome}
  {r : AnalysisResult} {pre post : List UnitOutcome} {t : TokenId}

/-- The first event of the units about a token that only one of them has tagged is the event of that
unit. -/
theorem findSome?_units (h : p.check settings timing = .ok c) (hunits : c.units = pre ++ u :: post)
    (honly : ∀ v ∈ pre ++ post, ∀ r', v.outcome = .ok r' → t ∉ r'.annotations.tokens)
    (rule : DivisionRule) :
    (c.units.findSome? fun v => (p.unitEvents rule v).find? (·.event.token = t)) =
      (p.unitEvents rule u).find? (·.event.token = t) := by
  -- A site has a tag, so the units before and after this one have nothing to say about the token.
  have hother : ∀ v ∈ pre ++ post, (p.unitEvents rule v).find? (·.event.token = t) = none := by
    intro v hv
    refine Program.find?_unitEvents_eq_none fun r' hr' hsite => ?_
    have hmem : v ∈ c.units := by
      rw [hunits]
      exact (List.mem_append.1 hv).elim (List.mem_append_left _)
        fun hpost => List.mem_append_right _ (List.mem_cons_of_mem _ hpost)
    exact honly v hv r' hr' ((mem_sites_iff h hmem hr' t).1 hsite).1
  have hpre : (pre.findSome? fun v => (p.unitEvents rule v).find? (·.event.token = t)) = none :=
    List.findSome?_eq_none_iff.2 fun v hv => hother v (List.mem_append_left _ hv)
  have hpost : (post.findSome? fun v => (p.unitEvents rule v).find? (·.event.token = t)) = none :=
    List.findSome?_eq_none_iff.2 fun v hv => hother v (List.mem_append_right _ hv)
  rw [hunits, List.findSome?_append, hpre, Option.none_or, List.findSome?_cons]
  split
  · rename_i heq
    exact heq.symm
  · rename_i heq
    rw [heq, hpost]

/-- What is evaluated outside does not touch a token if no division around it is left over. -/
theorem not_mem_outsideTags (h : p.check settings timing = .ok c) (trees : p.FormsTrees)
    (hapart : ∀ d ∈ p.outsideDivisions c.units, p.exprRoot d ≠ p.exprRoot t) :
    t ∉ (Program.outsideTags c.outside).tokens := by
  intro htag
  rw [(of_check h).2.1] at htag
  obtain ⟨d, hd, hmem⟩ := Program.mem_tokens_outsideExprs htag
  exact hapart d hd (trees.mem_tokens_exprRoot_iff.1 hmem).symm

/-- **The verdict of the only unit stands.**  Let one analysed unit alone have left a tag on a
token.  If it says that the token is an integer division whose divisor may be zero, then exactly
that is reported, once.  Otherwise nothing is reported about the token, unless a division that no
unit accounts for belongs to the same expression. -/
theorem verdict_stands (trees : p.FormsTrees) (h : p.check settings timing = .ok c)
    (hunits : c.units = pre ++ u :: post) (hr : u.outcome = .ok r)
    (htag : t ∈ r.annotations.tokens)
    (honly : ∀ v ∈ pre ++ post, ∀ r', v.outcome = .ok r' → t ∉ r'.annotations.tokens) :
    c.findings.filter (·.errorId = divisionId) = (c.events p settings).map p.divisionFinding ∧
    (DivisionRule.Flags ⟨settings.integralTypes⟩ p r.tagOf t →
      ∃ e, DivisionRule.check ⟨settings.integralTypes⟩ p r.tagOf t = some e ∧
        (c.events p settings).filter (·.event.token = t) = [⟨e, u.unit.name p⟩]) ∧
    (¬ DivisionRule.Flags ⟨settings.integralTypes⟩ p r.tagOf t →
      (∀ d ∈ p.outsideDivisions c.units, p.exprRoot d ≠ p.exprRoot t) →
        (c.events p settings).filter (·.event.token = t) = []) := by
  have hu : u ∈ c.units := by
    rw [hunits]
    exact List.mem_append_right _ (List.mem_cons_self ..)
  refine ⟨filter_division h, fun hflags => ?_, fun hflags hapart => ?_⟩
  · obtain ⟨e, he⟩ := hflags.exists_check
    have hsite : t ∈ r.sites :=
      (mem_sites_iff h hu hr t).2 ⟨htag, DivisionRule.isDivision_of_flags hflags⟩
    refine ⟨e, he, ?_⟩
    unfold events
    rw [Program.filter_events, findSome?_units h hunits honly, Program.find?_unitEvents hr hsite,
      he]
    rfl
  · have hunit : (p.unitEvents ⟨settings.integralTypes⟩ u).find? (·.event.token = t) = none := by
      by_cases hsite : t ∈ r.sites
      · rw [Program.find?_unitEvents hr hsite, DivisionRule.check_eq_none hflags]
        rfl
      · refine Program.find?_unitEvents_eq_none fun r' hr' => ?_
        rw [hr] at hr'
        cases hr'
        exact hsite
    have hout : (p.outsideEvents ⟨settings.integralTypes⟩
        (Program.outsideTags c.outside)).find? (·.event.token = t) = none := by
      refine List.find?_eq_none.2 fun e he htoken => ?_
      obtain rfl : e.event.token = t := by simpa using htoken
      exact not_mem_outsideTags h trees hapart (Program.mem_outsideEvents he)
    unfold events
    rw [Program.filter_events, findSome?_units h hunits honly, hunit, hout]
    rfl

end Checked

/-! ### Divisions that were proved safe -/

/-- `int g = 7 / 2; void f() { x = 5; a / x; }`, without the words that declare `g` and `f`. -/
def safeQuotient : Program where
  tokens := #[
    { text := "7", next := some 1, isNumber := true, parent := some 1 },
    { text := "/", next := some 2, left := some 0, right := some 2,
      valueType := some { name := "int" } },
    { text := "2", next := some 3, isNumber := true, parent := some 1 },
    { text := "\x7b", next := some 4, link := some 12 },
    { text := "x", next := some 5, isName := true, varId := 1, var := some 0, parent := some 5 },
    { text := "=", next := some 6, left := some 4, right := some 6 },
    { text := "5", next := some 7, isNumber := true, parent := some 5 },
    { text := ";", next := some 8 },
    { text := "a", next := some 9, isName := true, parent := some 9 },
    { text := "/", next := some 10, left := some 8, right := some 10,
      valueType := some { name := "int" } },
    { text := "x", next := some 11, isName := true, varId := 1, var := some 0, parent := some 9 },
    { text := ";", next := some 12 },
    { text := "\x7d", link := some 3 }]
  vars := #[{ id := 1, isLocal := true }]
  functions := #[{ name := some "f" }]
  scopes := #[{ kind := "Function", function := some 0, bodyStart := some 3, bodyEnd := some 12 }]

theorem check_safeQuotient : ∃ c u r, safeQuotient.check {} = .ok c ∧ c.units = [u] ∧
    u.outcome = .ok r ∧ 9 ∈ r.annotations.tokens ∧
    ¬ DivisionRule.Flags {} safeQuotient r.tagOf 9 ∧
    safeQuotient.outsideDivisions c.units = [1] := by
  have hrun : safeQuotient.checksTo {} (fun c => c.units.length = 1 ∧
      (safeQuotient.outsideDivisions c.units = [1] ∧
        c.units.all fun u => u.yields fun r =>
          9 ∈ r.annotations.tokens ∧ ¬ DivisionRule.Flags {} safeQuotient r.tagOf 9)) = true := by
    decide +kernel
  obtain ⟨c, hc, htest⟩ := Program.exists_of_checksTo hrun
  obtain ⟨hlength, hout, hall⟩ := of_decide_eq_true htest
  obtain ⟨u, hunits⟩ := List.length_eq_one_iff.1 hlength
  have hyields := List.all_eq_true.1 hall u (by rw [hunits]; exact List.mem_singleton_self u)
  obtain ⟨r, hr, hverdict⟩ := UnitOutcome.exists_of_yields hyields
  obtain ⟨htag, hflags⟩ := of_decide_eq_true hverdict
  exact ⟨c, u, r, hc, hunits, hr, htag, hflags, hout⟩

theorem verdict_stands_safeQuotient : safeQuotient.FormsTrees ∧ ∃ c,
    safeQuotient.check {} = .ok c ∧ safeQuotient.outsideDivisions c.units = [1] ∧
    (c.events safeQuotient {}).filter (·.event.token = 9) = [] := by
  have htrees : safeQuotient.FormsTrees := by decide
  obtain ⟨c, u, r, hc, hunits, hr, htag, hflags, hout⟩ := check_safeQuotient
  have halone : c.units = [] ++ u :: [] := hunits
  obtain ⟨-, -, hsilent⟩ := Checked.verdict_stands htrees hc halone hr htag
    (fun v hv => nomatch hv)
  refine ⟨htrees, c, hc, hout, hsilent hflags fun d hd => ?_⟩
  rw [hout, List.mem_singleton] at hd
  subst hd
  decide

/-- `x = 5; a / x + T(b / 2);` as the body of a function, the conversion having its type as first
operand. -/
def safeSum : Program where
  tokens := #[
    { text := "\x7b", next := some 1, link := some 16 },
    { text := "x", next := some 2, isName := true, varId := 1, var := some 0, parent := some 2 },
    { text := "=", next := some 3, left := some 1, right := some 3 },
    { text := "5", next := some 4, isNumber := true, parent := some 2 },
    { text := ";", next := some 5 },
    { text := "a", next := some 6, isName := true, parent := some 6 },
    { text := "/", next := some 7, left := some 5, right := some 7, parent := some 8,
      valueType := some { name := "int" } },
    { text := "x", next := some 8, isName := true, varId := 1, var := some 0, parent := some 6 },
    { text := "+", next := some 9, left := some 6, right := some 10 },
    { text := "T", next := some 10, isName := true, parent := some 10 },
    { text := "(", next := some 11, link := some 14, left := some 9, right := some 12,
      parent := some 8, isCast := true },
    { text := "b", next := some 12, isName := true, parent := some 12 },
    { text := "/", next := some 13, left := some 11, right := some 13, parent := some 10,
      valueType := some { name := "int" } },
    { text := "2", next := some 14, isNumber := true, parent := some 12 },
    { text := ")", next := some 15, link := some 10 },
    { text := ";", next := some 16 },
    { text := "\x7d", link := some 0 }]
  vars := #[{ id := 1, isLocal := true }]
  functions := #[{ name := some "f" }]
  scopes := #[{ kind := "Function", function := some 0, bodyStart := some 0, bodyEnd := some 16 }]

theorem check_safeSum : ∃ c u r, safeSum.check {} = .ok c ∧ c.units = [u] ∧
    u.outcome = .ok r ∧ 6 ∈ r.annotations.tokens ∧ ¬ DivisionRule.Flags {} safeSum r.tagOf 6 ∧
    (c.events safeSum {}).filter (·.event.token = 6) ≠ [] := by
  have hrun : safeSum.checksTo {} (fun c => c.units.length = 1 ∧
      ((c.events safeSum {}).filter (·.event.token = 6) ≠ [] ∧
        c.units.all fun u => u.yields fun r =>
          6 ∈ r.annotations.tokens ∧ ¬ DivisionRule.Flags {} safeSum r.tagOf 6)) = true := by
    decide +kernel
  obtain ⟨c, hc, htest⟩ := Program.exists_of_checksTo hrun
  obtain ⟨hlength, hreported, hall⟩ := of_decide_eq_true htest
  obtain ⟨u, hunits⟩ := List.length_eq_one_iff.1 hlength
  have hyields := List.all_eq_true.1 hall u (by rw [hunits]; exact List.mem_singleton_self u)
  obtain ⟨r, hr, hverdict⟩ := UnitOutcome.exists_of_yields hyields
  obtain ⟨htag, hflags⟩ := of_decide_eq_true hverdict
  exact ⟨c, u, r, hc, hunits, hr, htag, hflags, hreported⟩

/-- **A verdict need not stand.**  The body proves `a / x` safe, but the conversion hides `b / 2`
from it, and the sum is evaluated again without knowing `x`. -/
theorem verdict_overruled_safeSum : ¬ ∀ (p : Program) (settings : Settings) (c : Checked)
    (u : UnitOutcome) (r : AnalysisResult) (t : TokenId), p.FormsTrees →
    p.check settings = .ok c → c.units = [u] → u.outcome = .ok r → t ∈ r.annotations.tokens →
    ¬ DivisionRule.Flags ⟨settings.integralTypes⟩ p r.tagOf t →
    (c.events p settings).filter (·.event.token = t) = [] := by
  intro hclaim
  obtain ⟨c, u, r, hc, hunits, hr, htag, hflags, hreported⟩ := check_safeSum
  exact hreported (hclaim safeSum {} c u r 6 (by decide) hc hunits hr htag hflags)

end DivisorCheck
