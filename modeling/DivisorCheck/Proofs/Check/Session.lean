/-
  What a session finds in one program after others.

  Each program is checked from scratch; all that the programs of a session share
  are the suppressions.  Those that a program brings stay in force for the programs
  after it, and they are not confined to its own files.  So what a program adds to
  the findings of a session is what a session of its own would find, less what the
  programs before it suppress (`CheckSession.findings_of_programs`).

  How time passes decides about units that have a limit of time.  It is left open,
  for each program by itself, and two sessions are compared with time passing in
  the same way for a program in both.
-/
import Mathlib.Data.List.Infix
import Mathlib.Data.List.TakeWhile
import DivisorCheck.Proofs.Check.Findings

namespace DivisorCheck

/-! ### Suppressions from several sources -/

namespace Suppressions

/-- Do the suppressions leave a finding?  They do not apply to the note that a check was given
up. -/
def spares (ss : Suppressions) (f : Finding) : Bool :=
  f.errorId == internalId || !ss.hide f.errorId f.location

variable (ss ts : Suppressions) (f : Finding)

theorem spares_nil : spares [] f = true := by simp [spares, hide]

theorem spares_append : (ss ++ ts).spares f = (ss.spares f && ts.spares f) := by
  simp only [spares, hide, List.any_append]
  cases f.errorId == internalId <;> simp

/-- Comments add the same suppressions to any that are in force. -/
theorem load_eq (comments : List SuppressionComment) :
    ss.load comments = (ss ++ (load [] comments).1, (load [] comments).2) := by
  induction comments generalizing ss with
  | nil => simp [load]
  | cons c rest ih =>
    simp only [load]
    split
    · simp
    · rename_i found _
      rw [ih (ss ++ found.toList), ih ([] ++ found.toList)]
      simp

end Suppressions

/-! ### One program under suppressions -/

namespace Program

/-- The suppressions that the comments of a program give. -/
def brought (p : Program) : Suppressions := (Suppressions.load [] p.suppressions).1

/-- Can all suppression comments of a program be read? -/
def readable (p : Program) : Bool := (Suppressions.load [] p.suppressions).2.isNone

/-- Suppressions only take findings away, each by itself. -/
theorem findings_report (p : Program) (settings : Settings) (ss : Suppressions)
    (timing : Timing) : (p.report settings ss timing).1.findings =
      (p.report settings [] timing).1.findings.filter ss.spares := by
  unfold report
  cases hcheck : p.check settings timing with
  | error e =>
    have hspared : ss.spares (internalFinding e) = true := by
      simp [Suppressions.spares, internalFinding]
    simp [hspared]
  | ok c =>
    simp only [Suppressions.filter, List.filter_filter]
    refine List.filter_congr fun f hf => ?_
    -- A check that was not given up leaves no note of that kind.
    have hother : (f.errorId == internalId) = false := by
      rcases Checked.errorId_cases hcheck hf with h | h <;> rw [h] <;> decide
    simp [Suppressions.spares, Suppressions.hide, hother]

end Program

/-! ### One program after the other -/

/-- A program with how time passes while it is checked. -/
structure TimedProgram where
  program : Program
  timing : Timing := .still

namespace TimedProgram

/-- Can all suppression comments of the program be read? -/
abbrev readable (p : TimedProgram) : Bool := p.program.readable

/-- The suppressions that the comments of the program give. -/
abbrev brought (p : TimedProgram) : Suppressions := p.program.brought

/-- What is found in the program, before suppression. -/
def found (settings : Settings) (p : TimedProgram) : List Finding :=
  (p.program.report settings [] p.timing).1.findings

/-- How time passes for each of the programs, by its place. -/
def timings (ps : List TimedProgram) (n : Nat) : Timing := (ps.map (·.timing)).getD n .still

end TimedProgram

namespace CheckSession

/-- The session that starts with the given suppressions and nothing else. -/
def start (given : Suppressions) : CheckSession := { suppressions := given }

/-- Checks programs, each with time passing as it says. -/
def runTimed (settings : Settings) (s : CheckSession) (ps : List TimedProgram) :
    CheckSession × Option Text.NumeralError :=
  s.run settings (ps.map (·.program)) (TimedProgram.timings ps)

/-- What a session finds in programs, starting with the given suppressions. -/
def findings (settings : Settings) (given : Suppressions) (ps : List TimedProgram) :
    List Finding :=
  ((start given).runTimed settings ps).1.results.findings

variable (settings : Settings) (given : Suppressions) (s : CheckSession) (p : TimedProgram)
  (ps : List TimedProgram)

theorem runTimed_cons :
    s.runTimed settings (p :: ps) =
      match s.next settings p.program p.timing with
      | (s, some e) => (s, some e)
      | (s, none) => s.runTimed settings ps := rfl

/-- Whatever programs are checked, and however time passes, it is a run of timed programs. -/
theorem run_eq_runTimed (qs : List Program) (timings : Nat → Timing) :
    s.run settings qs timings = s.runTimed settings (qs.mapIdx fun n q => ⟨q, timings n⟩) := by
  induction qs generalizing s timings with
  | nil => rfl
  | cons q qs ih =>
    rw [List.mapIdx_cons, runTimed_cons, run]
    dsimp only
    rcases s.next settings q (timings 0) with ⟨s', _ | e⟩
    · exact ih s' _
    · rfl

/-- A program whose comments can be read adds its findings and its suppressions. -/
theorem next_of_readable (h : p.readable = true) :
    (s.next settings p.program p.timing).2 = none ∧
    (s.next settings p.program p.timing).1.suppressions = s.suppressions ++ p.brought ∧
    (s.next settings p.program p.timing).1.results.findings =
      s.results.findings ++ (p.found settings).filter (s.suppressions ++ p.brought).spares := by
  have hload : s.suppressions.load p.program.suppressions =
      (s.suppressions ++ p.brought, none) := by
    rw [Suppressions.load_eq, Option.isNone_iff_eq_none.1 h]
    rfl
  rw [TimedProgram.found, ← Program.findings_report]
  simp [next, hload, CheckResults.merge]

/-- A program with a comment that cannot be read adds no findings and ends the session. -/
theorem next_of_not_readable (h : p.readable = false) :
    (s.next settings p.program p.timing).2.isNone = false ∧
      (s.next settings p.program p.timing).1.results.findings = s.results.findings := by
  obtain ⟨e, he⟩ := Option.isSome_iff_exists.1 (Option.isNone_eq_false_iff.1 h)
  have hload : s.suppressions.load p.program.suppressions =
      (s.suppressions ++ p.brought, some e) := by
    rw [Suppressions.load_eq, he]
    rfl
  simp [next, hload]

theorem runTimed_cons_of_next (h : (s.next settings p.program p.timing).2 = none) :
    s.runTimed settings (p :: ps) =
      (s.next settings p.program p.timing).1.runTimed settings ps := by
  rw [runTimed_cons]
  split
  · rename_i heq
    rw [heq] at h
    cases h
  · rename_i heq
    rw [heq]

theorem runTimed_cons_of_stop (h : (s.next settings p.program p.timing).2.isNone = false) :
    s.runTimed settings (p :: ps) = s.next settings p.program p.timing := by
  rw [runTimed_cons]
  split
  · rename_i heq
    exact heq.symm
  · rename_i heq
    rw [heq] at h
    cases h

/-- A session comes to the end of its programs exactly if all their comments can be read. -/
theorem isNone_runTimed : (s.runTimed settings ps).2.isNone = ps.all TimedProgram.readable := by
  induction ps generalizing s with
  | nil => rfl
  | cons p ps ih =>
    rw [List.all_cons]
    cases hread : p.readable with
    | false =>
      have hstop := (next_of_not_readable settings s p hread).1
      rw [runTimed_cons_of_stop settings s p ps hstop, hstop, Bool.false_and]
    | true =>
      rw [runTimed_cons_of_next settings s p ps (next_of_readable settings s p hread).1, ih,
        Bool.true_and]

/-- What a session finds, program by program: what the check gives, less what is suppressed by then.
The session goes as far as comments can be read. -/
theorem findings_runTimed :
    (s.runTimed settings ps).1.results.findings = s.results.findings ++
      (List.zipWith
        (fun p earlier => (p.found settings).filter
          (s.suppressions ++ earlier.flatMap TimedProgram.brought ++ p.brought).spares)
        (ps.takeWhile TimedProgram.readable)
        (ps.takeWhile TimedProgram.readable).inits).flatten := by
  induction ps generalizing s with
  | nil => simp [runTimed, run]
  | cons p ps ih =>
    cases hread : p.readable with
    | false =>
      obtain ⟨hstop, hsame⟩ := next_of_not_readable settings s p hread
      have hempty : (p :: ps).takeWhile TimedProgram.readable = [] :=
        List.takeWhile_cons_of_neg (by simp [hread])
      rw [runTimed_cons_of_stop settings s p ps hstop, hsame, hempty]
      simp
    | true =>
      obtain ⟨hgo, hsuppressions, hfindings⟩ := next_of_readable settings s p hread
      rw [runTimed_cons_of_next settings s p ps hgo, ih, hsuppressions, hfindings,
        List.takeWhile_cons_of_pos hread, List.inits_cons, List.zipWith_cons_cons,
        List.zipWith_map_right]
      simp [List.append_assoc]

/-- What a session of its own finds in a program whose comments can be read. -/
theorem findings_singleton (h : p.readable = true) :
    findings settings given [p] = (p.found settings).filter (given ++ p.brought).spares := by
  simp [findings, start, findings_runTimed, List.takeWhile_cons_of_pos h]

theorem spares_flatMap {qs : List TimedProgram} {f : Finding}
    (h : ∀ q ∈ qs, q.brought.spares f = true) :
    Suppressions.spares (qs.flatMap TimedProgram.brought) f = true := by
  induction qs with
  | nil => exact Suppressions.spares_nil f
  | cons q qs ih =>
    obtain ⟨hq, hqs⟩ := List.forall_mem_cons.1 h
    rw [List.flatMap_cons, Suppressions.spares_append, hq, ih hqs]
    rfl

/-- Each program adds what a session of its own finds in it, less what is suppressed by the programs
before it. -/
theorem findings_eq_flatten :
    findings settings given ps =
      (List.zipWith
        (fun p earlier => (findings settings given [p]).filter
          (Suppressions.spares (earlier.flatMap TimedProgram.brought)))
        (ps.takeWhile TimedProgram.readable)
        (ps.takeWhile TimedProgram.readable).inits).flatten := by
  rw [findings, findings_runTimed, ← List.map_uncurry_zip_eq_zipWith,
    ← List.map_uncurry_zip_eq_zipWith]
  refine (List.nil_append _).trans (congrArg List.flatten (List.map_congr_left ?_))
  rintro ⟨p, earlier⟩ hmem
  have hread : p.readable = true := List.mem_takeWhile_imp (List.of_mem_zip hmem).1
  rw [Function.uncurry_apply_pair, Function.uncurry_apply_pair,
    findings_singleton settings given p hread, List.filter_filter]
  refine List.filter_congr fun f _ => ?_
  simp only [start, Suppressions.spares_append]
  cases given.spares f <;> simp [Bool.and_comm]

/-- If no program suppresses what a session of its own finds in another, a session finds in each
program what one of its own does. -/
theorem findings_eq_flatMap (hread : ∀ p ∈ ps, p.readable = true)
    (hapart : ∀ p ∈ ps, ∀ q ∈ ps, ∀ f ∈ findings settings given [p], q.brought.spares f = true) :
    findings settings given ps = ps.flatMap fun p => findings settings given [p] := by
  have hall : ps.takeWhile TimedProgram.readable = ps := List.takeWhile_eq_self_iff.2 hread
  rw [findings_eq_flatten, hall, ← List.map_uncurry_zip_eq_zipWith, List.flatMap_def]
  have hwhole : ∀ x ∈ ps.zip ps.inits, Function.uncurry (fun p earlier =>
      (findings settings given [p]).filter
        (Suppressions.spares (earlier.flatMap TimedProgram.brought))) x =
      findings settings given [x.1] := by
    rintro ⟨p, earlier⟩ hmem
    obtain ⟨hp, hearlier⟩ := List.of_mem_zip hmem
    have hsub := ((List.mem_inits _ _).1 hearlier).subset
    exact List.filter_eq_self.2 fun f hf =>
      spares_flatMap fun q hq => hapart p hp q (hsub hq) f hf
  have hfst : (ps.zip ps.inits).map Prod.fst = ps := List.map_fst_zip (by simp)
  refine congrArg List.flatten ((List.map_congr_left hwhole).trans ?_)
  conv_rhs => rw [← hfst, List.map_map]
  rfl

/-- **What a program adds to a session** is what a session of its own finds in it, less what is
suppressed by the programs before it; the session goes as far as comments can be read.  So if all
can, and no program suppresses what is found in another, then a session finds in each program what
one of its own does, and another order of the programs changes the order of the findings only.
Time passes for each program as it may, and in the same way in all sessions. -/
theorem findings_of_programs :
    ((start given).runTimed settings ps).2.isNone = ps.all TimedProgram.readable ∧
    findings settings given ps =
      (List.zipWith
        (fun p earlier => (findings settings given [p]).filter
          (Suppressions.spares (earlier.flatMap TimedProgram.brought)))
        (ps.takeWhile TimedProgram.readable)
        (ps.takeWhile TimedProgram.readable).inits).flatten ∧
    ((∀ p ∈ ps, p.readable = true) →
      (∀ p ∈ ps, ∀ q ∈ ps, ∀ f ∈ findings settings given [p], q.brought.spares f = true) →
      (findings settings given ps = ps.flatMap fun p => findings settings given [p]) ∧
      ∀ qs, qs.Perm ps → (findings settings given qs).Perm (findings settings given ps)) := by
  refine ⟨isNone_runTimed settings (start given) ps, findings_eq_flatten settings given ps,
    fun hread hapart => ?_⟩
  have heq := findings_eq_flatMap settings given ps hread hapart
  refine ⟨heq, fun qs hperm => ?_⟩
  have hqs : findings settings given qs = qs.flatMap fun p => findings settings given [p] :=
    findings_eq_flatMap settings given qs (fun p hp => hread p (hperm.mem_iff.1 hp))
      fun p hp q hq => hapart p (hperm.mem_iff.1 hp) q (hperm.mem_iff.1 hq)
  rw [heq, hqs]
  exact hperm.flatMap fun p _ => List.Perm.refl _

end CheckSession

/-! ### A suppression that reaches too far -/

/-- `7 / 0` in a file, with suppression comments. -/
def quotientIn (file : String) (comments : List SuppressionComment) : TimedProgram where
  program.tokens := #[
    { text := "7", file, next := some 1, isNumber := true, parent := some 1 },
    { text := "/", file, next := some 2, left := some 0, right := some 2,
      valueType := some { name := "int" } },
    { text := "0", file, next := some 3, isNumber := true, parent := some 1 },
    { text := ";", file }]
  program.suppressions := comments

/-- `7 / 0` in the file `calc.c`, with a comment that suppresses divisions by zero there. -/
def hushedQuotient : TimedProgram :=
  quotientIn "calc.c" [{ errorId := some "divide-by-zero", file := some "calc.c" }]

/-- Two programs in whose files nothing else is suppressed. -/
theorem findings_of_programs_apart :
    CheckSession.findings {} [] [quotientIn "main.c" [], hushedQuotient] =
      CheckSession.findings {} [] [quotientIn "main.c" []] ∧
    (CheckSession.findings {} [] [hushedQuotient, quotientIn "main.c" []]).Perm
      (CheckSession.findings {} [] [quotientIn "main.c" [], hushedQuotient]) ∧
    (CheckSession.findings {} [] [quotientIn "main.c" []]).length = 1 := by
  obtain ⟨hwhole, horder⟩ := (CheckSession.findings_of_programs {} []
    [quotientIn "main.c" [], hushedQuotient]).2.2 (by decide) (by decide)
  have hnone : CheckSession.findings {} [] [hushedQuotient] = [] := by decide
  refine ⟨?_, horder _ (List.Perm.swap ..), by decide⟩
  rw [hwhole]
  simp [hnone]

/-- **Programs of a session are not apart.**  A comment about the file `calc.c` hides the division in
`lib/calc.c` from a session that checks this file later, but not from one that checks it first. -/
theorem findings_depend_on_order :
    (¬ ∀ settings given ps, (∀ p ∈ ps, p.readable = true) →
      CheckSession.findings settings given ps =
        ps.flatMap fun p => CheckSession.findings settings given [p]) ∧
    ¬ ∀ settings given ps qs, (∀ p ∈ ps, p.readable = true) → qs.Perm ps →
      (CheckSession.findings settings given qs).Perm
        (CheckSession.findings settings given ps) := by
  have hlater : CheckSession.findings {} [] [hushedQuotient, quotientIn "lib/calc.c" []] = [] := by
    decide
  have hfirst :
      (CheckSession.findings {} [] [quotientIn "lib/calc.c" [], hushedQuotient]).length = 1 := by
    decide
  have halone : (CheckSession.findings {} [] [quotientIn "lib/calc.c" []]).length = 1 := by decide
  constructor
  · intro hclaim
    have hboth := hclaim {} [] [hushedQuotient, quotientIn "lib/calc.c" []] (by decide)
    have hlength := congrArg List.length hboth
    simp [hlater, halone] at hlength
  · intro hclaim
    have hperm := hclaim {} [] [hushedQuotient, quotientIn "lib/calc.c" []]
      [quotientIn "lib/calc.c" [], hushedQuotient] (by decide) (List.Perm.swap ..)
    have hlength := hperm.length_eq
    rw [hlater, hfirst] at hlength
    cases hlength

end DivisorCheck
