/-
  Where findings come from.

  A check that is not given up leaves one note for each unit that failed, and one
  finding for each event (`Checked.findings_eq`).  An event about a token comes
  from a unit that was analysed and has the token among its sites, or from an
  expression that was evaluated on its own.  Of all events about one token the
  first is reported (`filter_firstPerToken`), those of the units first.
-/
import DivisorCheck.Check
import DivisorCheck.Proofs.Check.Units
import DivisorCheck.Proofs.Expr.Tagging

namespace DivisorCheck

/-! ### One event per token -/

theorem mem_of_mem_firstPerToken {seen : List TokenId} {es : List LocatedEvent} {e : LocatedEvent}
    (h : e ∈ firstPerToken seen es) : e ∈ es := by
  induction es generalizing seen with
  | nil => exact h
  | cons a es ih =>
    rw [firstPerToken] at h
    split_ifs at h
    · exact List.mem_cons_of_mem _ (ih h)
    · rcases List.mem_cons.1 h with rfl | h
      · exact List.mem_cons_self ..
      · exact List.mem_cons_of_mem _ (ih h)

/-- Of the events about a token the first is kept, unless the token was met before. -/
theorem filter_firstPerToken (t : TokenId) (seen : List TokenId) (es : List LocatedEvent) :
    (firstPerToken seen es).filter (·.event.token = t) =
      if t ∈ seen then [] else (es.find? (·.event.token = t)).toList := by
  induction es generalizing seen with
  | nil => simp [firstPerToken]
  | cons a es ih =>
    rw [firstPerToken]
    by_cases ha : a.event.token = t
    · subst ha
      rw [List.find?_cons_of_pos (by simp)]
      by_cases hseen : a.event.token ∈ seen
      · rw [if_pos hseen, ih, if_pos hseen, if_pos hseen]
      · rw [if_neg hseen, if_neg hseen, List.filter_cons_of_pos (by simp), ih,
          if_pos (List.mem_cons_self ..)]
        rfl
    · -- An event about another token is neither found nor kept for this one.
      have hskip : (a :: es).find? (·.event.token = t) = es.find? (·.event.token = t) :=
        List.find?_cons_of_neg (by simpa using ha)
      rw [hskip]
      split_ifs with hseen hmem hmem
      · rw [ih, if_pos hmem]
      · rw [ih, if_neg hmem]
      · rw [List.filter_cons_of_neg (by simpa using ha), ih, if_pos (List.mem_cons_of_mem _ hmem)]
      · rw [List.filter_cons_of_neg (by simpa using ha), ih, if_neg]
        rintro (_ | ⟨_, hmem'⟩)
        · exact ha rfl
        · exact hmem hmem'

/-! ### The rule -/

/-- Is the token an integer division whose divisor may be zero, by the given tags? -/
def DivisionRule.Flags (rule : DivisionRule) (p : Program) (tagOf : TokenId → Tag) (t : TokenId) :
    Prop :=
  rule.appliesTo p t = true ∧ ∃ d, (p.token t).right = some d ∧ (tagOf d).mayBeZero = true

instance (rule : DivisionRule) (p : Program) (tagOf : TokenId → Tag) (t : TokenId) :
    Decidable (rule.Flags p tagOf t) :=
  decidable_of_iff _ (rule.check_isSome_iff p tagOf t)

namespace DivisionRule

variable {rule : DivisionRule} {p : Program} {tagOf : TokenId → Tag} {t : TokenId}

theorem isDivision_of_flags (h : rule.Flags p tagOf t) : p.isDivision t = true :=
  (Bool.and_eq_true_iff.1 h.1).1

theorem Flags.exists_check (h : rule.Flags p tagOf t) : ∃ e, rule.check p tagOf t = some e :=
  Option.isSome_iff_exists.1 ((rule.check_isSome_iff p tagOf t).2 h)

theorem check_eq_none (h : ¬ rule.Flags p tagOf t) : rule.check p tagOf t = none := by
  rw [← Option.not_isSome_iff_eq_none, rule.check_isSome_iff p tagOf t]
  exact h

end DivisionRule

/-! ### Events -/

namespace Program

variable {p : Program} {rule : DivisionRule} {us : List UnitOutcome} {tags : Annotations}
  {e : LocatedEvent} {t : TokenId}

/-- Among the events of examined tokens, the first that is about one of them. -/
theorem find?_checkEvents (ts : List TokenId) (tagOf : TokenId → Tag) (name : String)
    (t : TokenId) :
    ((ts.filterMap (rule.check p tagOf)).map (LocatedEvent.mk · name)).find?
        (·.event.token = t) =
      if t ∈ ts then (rule.check p tagOf t).map (LocatedEvent.mk · name) else none := by
  induction ts with
  | nil => rfl
  | cons a ts ih =>
    cases hcheck : rule.check p tagOf a with
    | none =>
      rw [List.filterMap_cons_none hcheck, ih]
      by_cases ha : t = a
      · subst ha
        simp [hcheck]
      · simp [ha]
    | some e =>
      have htoken := rule.token_of_check p hcheck
      rw [List.filterMap_cons_some hcheck, List.map_cons]
      by_cases ha : t = a
      · subst ha
        rw [List.find?_cons_of_pos (by simpa using htoken), if_pos (List.mem_cons_self ..), hcheck]
        rfl
      · rw [List.find?_cons_of_neg (by simpa [htoken] using fun h => ha h.symm), ih]
        simp [ha]

theorem mem_checkEvents {ts : List TokenId} {tagOf : TokenId → Tag} {name : String}
    (h : e ∈ (ts.filterMap (rule.check p tagOf)).map (LocatedEvent.mk · name)) :
    e.event.token ∈ ts ∧ rule.check p tagOf e.event.token = some e.event ∧ e.function = name := by
  obtain ⟨event, hmem, rfl⟩ := List.mem_map.1 h
  obtain ⟨t, ht, hcheck⟩ := List.mem_filterMap.1 hmem
  obtain rfl := rule.token_of_check p hcheck
  exact ⟨ht, hcheck, rfl⟩

/-- An event of a unit is about one of the sites that its analysis has found. -/
theorem mem_unitEvents {u : UnitOutcome} (h : e ∈ p.unitEvents rule u) :
    ∃ r, u.outcome = .ok r ∧ e.event.token ∈ r.sites ∧
      rule.check p r.tagOf e.event.token = some e.event ∧ e.function = u.unit.name p := by
  unfold unitEvents at h
  split at h
  · cases h
  · rename_i r hr
    exact ⟨r, hr, mem_checkEvents h⟩

theorem mem_outsideEvents (h : e ∈ p.outsideEvents rule tags) : e.event.token ∈ tags.tokens :=
  (mem_checkEvents h).1

/-- An event comes from a unit or from outside. -/
theorem mem_events (h : e ∈ p.events rule us tags) :
    (∃ u ∈ us, e ∈ p.unitEvents rule u) ∨ e ∈ p.outsideEvents rule tags := by
  have hmem := mem_of_mem_firstPerToken h
  rcases List.mem_append.1 hmem with hmem | hmem
  · exact .inl (List.mem_flatMap.1 hmem)
  · exact .inr hmem

/-- What is reported about a token: the first event about it, those of the units coming first. -/
theorem filter_events (t : TokenId) :
    (p.events rule us tags).filter (·.event.token = t) =
      ((us.findSome? fun u => (p.unitEvents rule u).find? (·.event.token = t)).or
        ((p.outsideEvents rule tags).find? (·.event.token = t))).toList := by
  unfold events
  rw [filter_firstPerToken, if_neg List.not_mem_nil, List.find?_append, List.find?_flatMap]

/-- A token about which there is an event gets reported. -/
theorem exists_mem_events (h : e ∈ us.flatMap (p.unitEvents rule) ++ p.outsideEvents rule tags) :
    ∃ e' ∈ p.events rule us tags, e'.event.token = e.event.token := by
  have hsome : ((us.flatMap (p.unitEvents rule) ++ p.outsideEvents rule tags).find?
      (·.event.token = e.event.token)).isSome := List.find?_isSome.2 ⟨e, h, by simp⟩
  obtain ⟨e', he'⟩ := Option.isSome_iff_exists.1 hsome
  have hkept : e' ∈ (p.events rule us tags).filter (·.event.token = e.event.token) := by
    unfold events
    rw [filter_firstPerToken, if_neg List.not_mem_nil, he']
    exact List.mem_singleton.2 rfl
  obtain ⟨hmem, htoken⟩ := List.mem_filter.1 hkept
  exact ⟨e', hmem, by simpa using htoken⟩

/-- About a token that is no site of a unit, the unit has no event. -/
theorem find?_unitEvents_eq_none {u : UnitOutcome}
    (h : ∀ r, u.outcome = .ok r → t ∉ r.sites) :
    (p.unitEvents rule u).find? (·.event.token = t) = none := by
  rw [List.find?_eq_none]
  intro e he htoken
  obtain ⟨r, hr, hsite, -⟩ := mem_unitEvents he
  obtain rfl : e.event.token = t := by simpa using htoken
  exact h r hr hsite

/-- About one of its sites, a unit has the event that the rule sees there. -/
theorem find?_unitEvents {u : UnitOutcome} {r : AnalysisResult} (hr : u.outcome = .ok r)
    (ht : t ∈ r.sites) :
    (p.unitEvents rule u).find? (·.event.token = t) =
      (rule.check p r.tagOf t).map (LocatedEvent.mk · (u.unit.name p)) := by
  unfold unitEvents
  rw [hr]
  exact (find?_checkEvents r.sites r.tagOf (u.unit.name p) t).trans (if_pos ht)

/-! ### Wording -/

theorem errorId_of_unchecked {f : Finding} (hf : f ∈ p.uncheckedFindings us) :
    f.errorId = uncheckedId := by
  obtain ⟨u, -, hu⟩ := List.mem_filterMap.1 hf
  obtain ⟨e, -, rfl⟩ := Option.map_eq_some_iff.1 hu
  rfl

theorem errorId_of_division {es : List LocatedEvent} {f : Finding}
    (hf : f ∈ es.map p.divisionFinding) : f.errorId = divisionId := by
  obtain ⟨e, -, rfl⟩ := List.mem_map.1 hf
  rfl

/-! ### Tags outside -/

theorem mem_outsideTags {es : List OutsideExpr} :
    t ∈ (outsideTags es).tokens ↔ ∃ e ∈ es, t ∈ e.annotations.tokens := by
  have hfold : ∀ a : Annotations, t ∈ (es.foldl (fun tags e => tags.union e.annotations) a).tokens ↔
      t ∈ a.tokens ∨ ∃ e ∈ es, t ∈ e.annotations.tokens := by
    induction es with
    | nil => simp
    | cons e es ih =>
      intro a
      rw [List.foldl_cons, ih, Annotations.mem_tokens_iff, Annotations.contains_union,
        ← Annotations.mem_tokens_iff]
      simp [or_assoc]
  unfold outsideTags
  rw [hfold]
  simp [Annotations.tokens]

/-- What is evaluated outside the units is the expression around a division that none of them
accounts for. -/
theorem mem_tokens_outsideExprs {settings : Settings}
    (h : t ∈ (outsideTags (p.outsideExprs settings us)).tokens) :
    ∃ d ∈ p.outsideDivisions us, t ∈ (p.expr (p.exprRoot d)).tokens := by
  obtain ⟨o, ho, ht⟩ := mem_outsideTags.1 h
  obtain ⟨root, hroot, rfl⟩ := List.mem_map.1 ho
  unfold outsideRoots at hroot
  rw [List.mem_eraseDups] at hroot
  obtain ⟨d, hd, rfl⟩ := List.mem_map.1 hroot
  exact ⟨d, hd, mem_tokens_of_evalStandalone ht⟩

theorem mem_outsideDivisions {d : TokenId} :
    d ∈ p.outsideDivisions us ↔
      d ∈ p.tokenIds ∧ p.isDivision d = true ∧ ∀ u ∈ us, d ∉ u.covered p := by
  unfold outsideDivisions
  simp only [List.mem_filter, Bool.and_eq_true, decide_eq_true_eq, List.mem_flatMap]
  constructor
  · rintro ⟨hd, hout, hdiv⟩
    exact ⟨hd, hdiv, fun u hu hcov => hout ⟨u, hu, hcov⟩⟩
  · rintro ⟨hd, hdiv, hout⟩
    exact ⟨hd, fun ⟨u, hu, hcov⟩ => hout u hu hcov, hdiv⟩

end Program

/-! ### A whole check -/

theorem UnitOutcome.error?_eq_some_iff {u : UnitOutcome} {e : AnalysisError} :
    u.error? = some e ↔ u.outcome = .error e := by
  unfold error?
  cases u.outcome <;> simp

/-- Was the unit analysed, with a result that passes the test? -/
def UnitOutcome.yields (u : UnitOutcome) (test : AnalysisResult → Bool) : Bool :=
  u.result?.any test

theorem UnitOutcome.exists_of_yields {u : UnitOutcome} {test : AnalysisResult → Bool}
    (h : u.yields test = true) : ∃ r, u.outcome = .ok r ∧ test r = true := by
  obtain ⟨r, hr, htest⟩ := (Option.any_eq_true _ _).1 h
  refine ⟨r, ?_, htest⟩
  unfold result? at hr
  split at hr
  · cases hr
  · rename_i houtcome
    rw [houtcome, Option.some.inj hr]

/-- Does the check come to an end, with a result that passes the test? -/
def Program.checksTo (p : Program) (settings : Settings) (test : Checked → Bool)
    (timing : Timing := .still) : Bool :=
  (p.check settings timing).toOption.any test

theorem Program.exists_of_checksTo {p : Program} {settings : Settings} {test : Checked → Bool}
    {timing : Timing} (h : p.checksTo settings test timing = true) :
    ∃ c, p.check settings timing = .ok c ∧ test c = true := by
  obtain ⟨c, hc, htest⟩ := (Option.any_eq_true _ _).1 h
  refine ⟨c, ?_, htest⟩
  cases hcheck : p.check settings timing with
  | error e =>
    rw [hcheck] at hc
    cases hc
  | ok c' =>
    rw [hcheck] at hc
    rw [Option.some.inj hc]

namespace Checked

/-- What a check reports as divisions by zero. -/
def events (p : Program) (settings : Settings) (c : Checked) : List LocatedEvent :=
  p.events ⟨settings.integralTypes⟩ c.units (Program.outsideTags c.outside)

variable {p : Program} {settings : Settings} {timing : Timing} {c : Checked}

/-- What a check consists of that is not given up. -/
theorem of_check (h : p.check settings timing = .ok c) :
    (∃ units, p.units = .ok units ∧ c.units = p.analyzeUnits settings units timing) ∧
      c.outside = p.outsideExprs settings c.units ∧
      c.findings = p.uncheckedFindings c.units ++ (c.events p settings).map p.divisionFinding := by
  unfold Program.check at h
  split at h
  · cases h
  · rename_i units hunits
    cases h
    exact ⟨⟨units, hunits, rfl⟩, rfl, rfl⟩

theorem outcome_of_mem (h : p.check settings timing = .ok c) {u : UnitOutcome}
    (hu : u ∈ c.units) : u.outcome = u.unit.analyze p settings timing := by
  obtain ⟨⟨units, -, heq⟩, -⟩ := of_check h
  rw [heq] at hu
  obtain ⟨unit, -, rfl⟩ := List.mem_map.1 hu
  rfl

theorem nodup_functions (h : p.check settings timing = .ok c) :
    (c.units.map (·.unit.function)).Nodup := by
  obtain ⟨⟨units, hunits, heq⟩, -⟩ := of_check h
  rw [heq, Program.analyzeUnits, List.map_map]
  exact Program.nodup_units hunits

/-- The sites of an analysed unit are the divisions with a tag. -/
theorem mem_sites_iff (h : p.check settings timing = .ok c) {u : UnitOutcome} (hu : u ∈ c.units)
    {r : AnalysisResult} (hr : u.outcome = .ok r) (d : TokenId) :
    d ∈ r.sites ↔ d ∈ r.annotations.tokens ∧ p.isDivision d = true := by
  rw [outcome_of_mem h hu] at hr
  unfold FunctionUnit.analyze at hr
  split at hr
  · cases hr
  · exact FlowGraph.mem_sites_iff hr d

/-- The notes about units are what is found under their identifier. -/
theorem filter_unchecked (h : p.check settings timing = .ok c) :
    c.findings.filter (·.errorId = uncheckedId) = p.uncheckedFindings c.units := by
  obtain ⟨-, -, heq⟩ := of_check h
  have hnotes : (p.uncheckedFindings c.units).filter (·.errorId = uncheckedId) =
      p.uncheckedFindings c.units :=
    List.filter_eq_self.2 fun f hf => by simp [Program.errorId_of_unchecked hf]
  have hrest : ((c.events p settings).map p.divisionFinding).filter (·.errorId = uncheckedId) =
      [] :=
    List.filter_eq_nil_iff.2 fun f hf => by simp [Program.errorId_of_division hf, divisionId,
      uncheckedId]
  rw [heq, List.filter_append, hnotes, hrest, List.append_nil]

/-- The findings of events are what is found under the identifier of divisions by zero. -/
theorem filter_division (h : p.check settings timing = .ok c) :
    c.findings.filter (·.errorId = divisionId) = (c.events p settings).map p.divisionFinding := by
  obtain ⟨-, -, heq⟩ := of_check h
  have hnotes : (p.uncheckedFindings c.units).filter (·.errorId = divisionId) = [] :=
    List.filter_eq_nil_iff.2 fun f hf => by simp [Program.errorId_of_unchecked hf, divisionId,
      uncheckedId]
  have hrest : ((c.events p settings).map p.divisionFinding).filter (·.errorId = divisionId) =
      (c.events p settings).map p.divisionFinding :=
    List.filter_eq_self.2 fun f hf => by simp [Program.errorId_of_division hf]
  rw [heq, List.filter_append, hnotes, hrest, List.nil_append]

/-- There is nothing else to be found. -/
theorem errorId_cases (h : p.check settings timing = .ok c) {f : Finding} (hf : f ∈ c.findings) :
    f.errorId = uncheckedId ∨ f.errorId = divisionId := by
  rw [(of_check h).2.2] at hf
  exact (List.mem_append.1 hf).imp Program.errorId_of_unchecked Program.errorId_of_division

end Checked

end DivisorCheck
