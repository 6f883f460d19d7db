/-
  A body without a graph concerns its own function.

  The graphs of all bodies are made before any of them is analysed.  If a statement
  lacks something, the body has no graph; its unit fails with that, and the units of
  the other functions are analysed and reported on all the same.

  It is different for a chain that breaks off where a statement is due.  Then there
  are no units at all, and one note about the check is all that is reported
  (`Program.bodies_isolated`).
-/
import DivisorCheck.Proofs.Check.Examined
import DivisorCheck.Proofs.Flow.Ending

namespace DivisorCheck

namespace Program

variable {p : Program} {settings : Settings} {f : FunctionId} {first last : TokenId}

/-! ### Bodies -/

/-- The chains of all bodies are finite, and links on them point forward. -/
def BodiesChained (p : Program) : Prop :=
  ∀ f ∈ p.functionIds, ∀ first last, p.functionBody? f = some (first, last) →
    ∃ ts, p.Chained first ts

/-- It is enough that chain and links lead forward in the order in which the tokens are listed. -/
theorem BodiesChained.of_inOrder (h : p.InOrder p.tokenIds)
    (hfirst : ∀ f ∈ p.functionIds, ∀ body ∈ p.functionBody? f, body.1 ∈ p.tokenIds) :
    p.BodiesChained := fun f hf first last hbody =>
  ⟨p.tokenIds, hfirst f hf (first, last) hbody, fun _ => id, List.nodup_range, h⟩

/-- The chain of some body breaks off where its reader expects a statement. -/
def HasBrokenBody (p : Program) : Prop :=
  ∃ f ∈ p.functionIds, ∃ first last, p.functionBody? f = some (first, last) ∧
    FlowGraph.ofBody p (p.function f).name first last = .error .missingStatement

/-- What reading a body on a finite chain may come to. -/
theorem ofBody_cases {ts : List TokenId} (h : p.Chained first ts) (name : Option String)
    (last : TokenId) :
    (∃ g, FlowGraph.ofBody p name first last = .ok g) ∨
    (∃ fault place, FlowGraph.ofBody p name first last = .error (.malformed fault place)) ∨
    FlowGraph.ofBody p name first last = .error .missingStatement ∧ p.BreaksOff ts := by
  have hends := FlowGraph.ofBody_ends h name last
  rcases hbody : FlowGraph.ofBody p name first last with (⟨fault, place⟩ | _ | _) | g
  · exact .inr (.inl ⟨fault, place, rfl⟩)
  · rw [hbody] at hends
    exact .inr (.inr ⟨rfl, hends.2 rfl⟩)
  · rw [hbody] at hends
    exact absurd rfl hends.1
  · exact .inl ⟨g, rfl⟩

/-- Unless a body is broken, every function can be made a unit of. -/
theorem BodiesChained.exists_unitOf? (h : p.BodiesChained) (hf : f ∈ p.functionIds) :
    (∃ unit, p.unitOf? f = .ok unit) ∨
      p.HasBrokenBody ∧ p.unitOf? f = .error .missingStatement := by
  cases hbody : p.functionBody? f with
  | none => exact .inl ⟨none, unitOf?_of_none hbody⟩
  | some body =>
    obtain ⟨first, last⟩ := body
    obtain ⟨ts, hts⟩ := h f hf first last hbody
    obtain ⟨scope, hunit⟩ := unitOf?_of_some hbody
    rcases ofBody_cases hts (p.function f).name last with ⟨g, hg⟩ | ⟨fault, place, hbad⟩ | ⟨hbad, -⟩
    · rw [hg] at hunit
      exact .inl ⟨_, hunit⟩
    · rw [hbad] at hunit
      exact .inl ⟨_, hunit⟩
    · rw [hbad] at hunit
      exact .inr ⟨⟨f, hf, first, last, hbody, hbad⟩, hunit⟩

/-- A broken body defeats the check, whatever the other bodies are. -/
theorem check_of_broken (h : p.BodiesChained) (hbroken : p.HasBrokenBody) (settings : Settings)
    (timing : Timing) : p.check settings timing = .error .missingStatement := by
  obtain ⟨f, hf, first, last, hbody, hbad⟩ := hbroken
  obtain ⟨scope, hunit⟩ := unitOf?_of_some hbody
  rw [hbad] at hunit
  unfold check units
  cases hunits : p.unitsOf p.functionIds with
  | ok us =>
    obtain ⟨unit, hok⟩ := exists_unitOf?_ok hunits hf
    rw [hunit] at hok
    cases hok
  | error e =>
    -- Another body may be the first to defeat the check, but only by being broken as well.
    obtain ⟨g, hg, herror⟩ := exists_unitOf?_error hunits
    rcases h.exists_unitOf? hg with ⟨unit, hok⟩ | ⟨-, hmissing⟩
    · rw [hok] at herror
      cases herror
    · rw [hmissing] at herror
      rw [← Except.error.inj herror]

/-- Without a broken body the check comes to an end. -/
theorem exists_check (h : p.BodiesChained) (hwhole : ¬ p.HasBrokenBody) (settings : Settings)
    (timing : Timing) : ∃ c, p.check settings timing = .ok c := by
  unfold check units
  cases hunits : p.unitsOf p.functionIds with
  | ok us => exact ⟨_, rfl⟩
  | error e =>
    obtain ⟨f, hf, herror⟩ := exists_unitOf?_error hunits
    rcases h.exists_unitOf? hf with ⟨unit, hok⟩ | ⟨hbroken, -⟩
    · rw [hok] at herror
      cases herror
    · exact absurd hbroken hwhole

end Program

/-! ### The units of a check -/

/-- Each function with a body has a unit of its own.  A body without graph is noted under its
function; any other is analysed, and what the rule flags at its sites is reported. -/
structure Checked.Isolates (p : Program) (settings : Settings) (timing : Timing) (c : Checked) :
    Prop where
  functions : c.units.map (·.unit.function) =
    p.functionIds.filter (fun f => (p.functionBody? f).isSome)
  malformed : ∀ u ∈ c.units, ∀ first last fault place,
    p.functionBody? u.unit.function = some (first, last) →
    FlowGraph.ofBody p (p.function u.unit.function).name first last =
      .error (.malformed fault place) →
    u.outcome = .error ⟨(p.function u.unit.function).name, .badBody fault place⟩ ∧
      p.uncheckedFinding u.unit ⟨(p.function u.unit.function).name, .badBody fault place⟩ ∈
        c.findings
  analyzed : ∀ u ∈ c.units, ∀ first last g, p.functionBody? u.unit.function = some (first, last) →
    FlowGraph.ofBody p (p.function u.unit.function).name first last = .ok g →
    u.outcome =
      g.analyze p settings (p.paramsOf u.unit.function) (timing u.unit.function)
  reported : ∀ u ∈ c.units, ∀ r, u.outcome = .ok r → ∀ t ∈ r.sites,
    DivisionRule.Flags ⟨settings.integralTypes⟩ p r.tagOf t →
    ∃ e ∈ c.events p settings, e.event.token = t ∧ p.divisionFinding e ∈ c.findings
  completed : ∀ f ∈ c.findings, f.errorId ≠ internalId

namespace Checked

variable {p : Program} {settings : Settings} {timing : Timing} {c : Checked}

/-- The units of a check are those of its program. -/
theorem map_unit (h : p.check settings timing = .ok c) : p.units = .ok (c.units.map (·.unit)) := by
  obtain ⟨⟨units, hunits, heq⟩, -⟩ := of_check h
  have hmap : c.units.map (·.unit) = units := by
    rw [heq, Program.analyzeUnits, List.map_map]
    exact List.map_id units
  rw [hmap, hunits]

/-- A check that comes to an end keeps the functions apart. -/
theorem isolates_of_check (h : p.check settings timing = .ok c) : c.Isolates p settings timing := by
  obtain ⟨hfunctions, hfrom⟩ := Program.of_unitsOf (map_unit h)
  obtain ⟨-, -, hfindings⟩ := of_check h
  have hunit : ∀ u ∈ c.units, p.unitOf? u.unit.function = .ok (some u.unit) := fun u hu =>
    hfrom u.unit (List.mem_map_of_mem hu)
  refine ⟨?_, ?_, ?_, ?_, ?_⟩
  · rw [← hfunctions, List.map_map]
    rfl
  · intro u hu first last fault place hbody hbad
    have hgraph := (Program.graph_of_unitOf? (hunit u hu) hbody).2 fault place hbad
    have houtcome : u.outcome =
        .error ⟨(p.function u.unit.function).name, .badBody fault place⟩ := by
      rw [outcome_of_mem h hu, FunctionUnit.analyze, hgraph]
    refine ⟨houtcome, ?_⟩
    rw [hfindings]
    refine List.mem_append_left _ (List.mem_filterMap.2 ⟨u, hu, ?_⟩)
    rw [UnitOutcome.error?, houtcome]
    rfl
  · intro u hu first last g hbody hok
    have hgraph := (Program.graph_of_unitOf? (hunit u hu) hbody).1 g hok
    rw [outcome_of_mem h hu, FunctionUnit.analyze, hgraph]
  · intro u hu r hr t hsite hflags
    obtain ⟨e, he, htoken⟩ := reported_of_site hu hr hsite hflags
    refine ⟨e, he, htoken, ?_⟩
    rw [hfindings]
    exact List.mem_append_right _ (List.mem_map_of_mem he)
  · intro f hf hinternal
    rcases errorId_cases h hf with hid | hid
    · exact absurd (hinternal.symm.trans hid) (by decide)
    · exact absurd (hinternal.symm.trans hid) (by decide)

end Checked

/-- **A bad body concerns its function alone, unless it breaks off.**  Let the chains of all bodies
be finite with forward links.  A body has a graph, or lacks something that is said, or breaks off
where a statement is due.  If none breaks off so, the check comes to an end, and each body is noted
or analysed for itself; if one does, the check is given up and says nothing about any function.
How time passes makes no difference to this. -/
theorem Program.bodies_isolated {p : Program} (h : p.BodiesChained) (settings : Settings)
    (timing : Timing) (ss : Suppressions) :
    (∀ f ∈ p.functionIds, ∀ first last, p.functionBody? f = some (first, last) →
      ∀ ts, p.Chained first ts →
        (∃ g, FlowGraph.ofBody p (p.function f).name first last = .ok g) ∨
        (∃ fault place, FlowGraph.ofBody p (p.function f).name first last =
          .error (.malformed fault place)) ∨
        FlowGraph.ofBody p (p.function f).name first last = .error .missingStatement ∧
          p.BreaksOff ts) ∧
    (¬ p.HasBrokenBody → ∃ c, p.check settings timing = .ok c ∧ c.Isolates p settings timing ∧
      (p.report settings ss timing).1.findings = ss.filter c.findings) ∧
    (p.HasBrokenBody →
      (p.report settings ss timing).1.findings = [internalFinding .missingStatement]) := by
  refine ⟨?_, ?_, ?_⟩
  · exact fun f _ first last _ ts hts => Program.ofBody_cases hts (p.function f).name last
  · intro hwhole
    obtain ⟨c, hc⟩ := Program.exists_check h hwhole settings timing
    refine ⟨c, hc, Checked.isolates_of_check hc, ?_⟩
    unfold Program.report
    rw [hc]
  · intro hbroken
    unfold Program.report
    rw [Program.check_of_broken h hbroken settings timing]

/-! ### An `if` without parentheses -/

/-- `if x;` as the body of `f`, `7 / 0;` as that of `g`. -/
def bareIf : Program where
  tokens := #[
    { text := "\x7b", next := some 1, link := some 4 },
    { text := "if", next := some 2, isName := true },
    { text := "x", next := some 3, isName := true },
    { text := ";", next := some 4 },
    { text := "\x7d", next := some 5, link := some 0 },
    { text := "\x7b", next := some 6, link := some 10 },
    { text := "7", next := some 7, isNumber := true, parent := some 7 },
    { text := "/", next := some 8, left := some 6, right := some 8,
      valueType := some { name := "int" } },
    { text := "0", next := some 9, isNumber := true, parent := some 7 },
    { text := ";", next := some 10 },
    { text := "\x7d", link := some 5 }]
  functions := #[{ name := some "f" }, { name := some "g" }]
  scopes := #[
    { kind := "Function", function := some 0, bodyStart := some 0, bodyEnd := some 4 },
    { kind := "Function", function := some 1, bodyStart := some 5, bodyEnd := some 10 }]

theorem bareIf_chained : bareIf.BodiesChained :=
  .of_inOrder (by decide) (by decide)

theorem ofBody_bareIf : ∃ place, FlowGraph.ofBody bareIf (some "f") 0 4 =
    .error (.malformed (.noParenthesis "if") place) := ⟨_, rfl⟩

theorem check_bareIf : ∃ c, bareIf.check {} = .ok c ∧ ∃ u ∈ c.units, ∃ r, u.outcome = .ok r ∧
    7 ∈ r.sites ∧ DivisionRule.Flags {} bareIf r.tagOf 7 := by
  have hrun : bareIf.checksTo {} (fun c => c.units.any fun u => u.yields fun r =>
      7 ∈ r.sites ∧ DivisionRule.Flags {} bareIf r.tagOf 7) = true := by decide +kernel
  obtain ⟨c, hc, htest⟩ := Program.exists_of_checksTo hrun
  obtain ⟨u, hu, hyields⟩ := List.any_eq_true.1 htest
  obtain ⟨r, hr, hflagged⟩ := UnitOutcome.exists_of_yields hyields
  exact ⟨c, hc, u, hu, r, hr, of_decide_eq_true hflagged⟩

theorem bodies_isolated_bareIf : bareIf.BodiesChained ∧ ∃ c, bareIf.check {} = .ok c ∧
    (∃ u ∈ c.units, ∃ place,
      u.outcome = .error ⟨some "f", .badBody (.noParenthesis "if") place⟩) ∧
    ∃ e ∈ c.events bareIf {}, e.event.token = 7 ∧ bareIf.divisionFinding e ∈ c.findings := by
  obtain ⟨-, hend, -⟩ := Program.bodies_isolated bareIf_chained {} .still []
  obtain ⟨c, hc, u, hu, r, hr, hsite, hflags⟩ := check_bareIf
  have hwhole : ¬ bareIf.HasBrokenBody := fun hbroken => by
    have hmissing := Program.check_of_broken bareIf_chained hbroken {} .still
    rw [hc] at hmissing
    cases hmissing
  obtain ⟨c', hc', hisolates, -⟩ := hend hwhole
  obtain rfl := Except.ok.inj (hc.symm.trans hc')
  refine ⟨bareIf_chained, c, hc, ?_, hisolates.reported u hu r hr 7 hsite hflags⟩
  have hfunction : 0 ∈ c.units.map (·.unit.function) := by
    rw [hisolates.functions]
    decide
  obtain ⟨v, hv, hzero⟩ := List.mem_map.1 hfunction
  obtain ⟨place, hbad⟩ := ofBody_bareIf
  have hbody : bareIf.functionBody? v.unit.function = some (0, 4) := by
    rw [hzero]
    decide
  have hname : (bareIf.function v.unit.function).name = some "f" := by
    rw [hzero]
    rfl
  obtain ⟨houtcome, -⟩ := hisolates.malformed v hv 0 4 (.noParenthesis "if") place hbody
    (by rw [hname]; exact hbad)
  rw [hname] at houtcome
  exact ⟨v, hv, place, houtcome⟩

/-- `if (x)` as the body of `f`, the chain ending there, and `7 / 0;` as that of `g`. -/
def brokenIf : Program where
  tokens := #[
    { text := "\x7b", next := some 1, link := some 5 },
    { text := "if", next := some 2, isName := true },
    { text := "(", next := some 3, link := some 4 },
    { text := "x", next := some 4, isName := true },
    { text := ")", link := some 2 },
    { text := "\x7d", next := some 6, link := some 0 },
    { text := "\x7b", next := some 7, link := some 11 },
    { text := "7", next := some 8, isNumber := true, parent := some 8 },
    { text := "/", next := some 9, left := some 7, right := some 9,
      valueType := some { name := "int" } },
    { text := "0", next := some 10, isNumber := true, parent := some 8 },
    { text := ";", next := some 11 },
    { text := "\x7d", link := some 6 }]
  functions := #[{ name := some "f" }, { name := some "g" }]
  scopes := #[
    { kind := "Function", function := some 0, bodyStart := some 0, bodyEnd := some 5 },
    { kind := "Function", function := some 1, bodyStart := some 6, bodyEnd := some 11 }]

theorem brokenIf_chained : brokenIf.BodiesChained :=
  .of_inOrder (by decide) (by decide)

theorem check_brokenIf : brokenIf.check {} = .error .missingStatement := rfl

/-- **A bad body can take down the whole check.**  The chain of one breaks off after the header of
an `if`, and the division of the other is not reported. -/
theorem bodies_not_isolated_brokenIf : ¬ ∀ (p : Program) (settings : Settings), p.BodiesChained →
    ∃ c, p.check settings = .ok c := by
  intro hclaim
  obtain ⟨c, hc⟩ := hclaim brokenIf {} brokenIf_chained
  rw [check_brokenIf] at hc
  cases hc

end DivisorCheck
