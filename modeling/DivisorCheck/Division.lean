/-
  `DivisionRule` — which divisions are reported.

  An integer division or remainder is reported unless its divisor is known not to
  be zero, or no path gets there.  The rule asks for the tag of the divisor and
  does not care where it comes from.
-/
import DivisorCheck.Finding
import DivisorCheck.Program.Operator
import DivisorCheck.Settings

namespace DivisorCheck

/-- The rule, for a choice of integral types. -/
structure DivisionRule where
  integralTypes : List String := ({} : Settings).integralTypes

/-- A division whose divisor may be zero. -/
structure DivisionEvent where
  token : TokenId
  divisor : TokenId
  tag : Tag
  operator : String
  location : Location
deriving Repr, DecidableEq

/-- Is the divisor zero on every path? -/
def DivisionEvent.isCertain (e : DivisionEvent) : Bool := e.tag == .zero

namespace DivisionRule

variable (rule : DivisionRule) (p : Program)

/-- Is the token an integer division?  With assignment it is if its divisor is an integer, since
its own type is that of the target. -/
def appliesTo (t : TokenId) : Bool :=
  p.isDivision t &&
    if p.text t ∈ Program.divisionAssignments then
      match (p.token t).right with
      | some divisor => p.isIntegral divisor rule.integralTypes
      | none => false
    else p.isIntegral t rule.integralTypes

/-- Examines a token, given the tags of tokens. -/
def check (tagOf : TokenId → Tag) (t : TokenId) : Option DivisionEvent :=
  if rule.appliesTo p t then
    match (p.token t).right with
    | none => none
    | some divisor =>
      if (tagOf divisor).mayBeZero then
        some {
          token := t, divisor, tag := tagOf divisor
          operator := p.text t, location := p.locationOf t }
      else none
  else none

/-- **What is reported:** an integer division whose divisor has a tag that admits zero. -/
theorem check_isSome_iff (tagOf : TokenId → Tag) (t : TokenId) :
    (rule.check p tagOf t).isSome = true ↔
      rule.appliesTo p t = true ∧ ∃ d, (p.token t).right = some d ∧ (tagOf d).mayBeZero = true := by
  unfold check
  split
  · next h =>
    split
    · next hr => simp [hr]
    · next d hr => by_cases hz : (tagOf d).mayBeZero = true <;> simp [h, hr, hz]
  · next h => simp [h]

/-- An event is about the token that was examined. -/
theorem token_of_check {tagOf : TokenId → Tag} {t : TokenId} {e : DivisionEvent}
    (h : rule.check p tagOf t = some e) : e.token = t := by
  unfold check at h
  split at h
  · split at h
    · simp at h
    · split at h
      · simp only [Option.some.injEq] at h; rw [← h]
      · simp at h
  · simp at h

end DivisionRule

end DivisorCheck
