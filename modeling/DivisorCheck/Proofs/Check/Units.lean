/-
  The units of a program.

  A function has a unit exactly if it has a body, whether or not the body has a
  graph.  The units stand in the order of their functions, and there is one for
  each, unless reading some body defeats the check of the whole program.
-/
import DivisorCheck.Check.FunctionUnit
import Mathlib.Data.List.Nodup

namespace DivisorCheck

namespace Program

variable {p : Program} {f : FunctionId} {fs : List FunctionId} {first last : TokenId}
  {units : List FunctionUnit} {e : CheckFailure}

/-! ### One function -/

/-- A function without body has no unit. -/
theorem unitOf?_of_none (h : p.functionBody? f = none) : p.unitOf? f = .ok none := by
  unfold functionBody? at h
  unfold unitOf?
  cases hscope : p.functionScope? f with
  | none => rfl
  | some scope =>
    rw [hscope] at h
    dsimp only
    split
    · rename_i first last hfirst hlast
      simp [hfirst, hlast] at h
    · rfl

/-- A function with a body has a unit, unless reading the body defeats the whole check. -/
theorem unitOf?_of_some (h : p.functionBody? f = some (first, last)) :
    ∃ scope, p.unitOf? f =
      match FlowGraph.ofBody p (p.function f).name first last with
      | .ok g => .ok (some ⟨f, scope, first, last, .ok g⟩)
      | .error (.malformed fault place) =>
        .ok (some ⟨f, scope, first, last, .error ⟨(p.function f).name, .badBody fault place⟩⟩)
      | .error .missingStatement => .error .missingStatement
      | .error .endless => .error .endless := by
  unfold functionBody? at h
  unfold unitOf?
  cases hscope : p.functionScope? f with
  | none => simp [hscope] at h
  | some scope =>
    refine ⟨scope, ?_⟩
    rw [hscope] at h
    dsimp only
    split
    · rename_i first' last' hfirst hlast
      simp only [Option.bind_eq_bind, Option.bind_some, hfirst, hlast, Option.pure_def,
        Option.some.injEq, Prod.mk.injEq] at h
      obtain ⟨rfl, rfl⟩ := h
      rcases FlowGraph.ofBody p (p.function f).name first' last' with (_ | _ | _) | g <;> rfl
    · rename_i hmissing
      cases hfirst : (p.scope scope).bodyStart with
      | none => simp [hfirst] at h
      | some first' =>
        cases hlast : (p.scope scope).bodyEnd with
        | none => simp [hfirst, hlast] at h
        | some last' => exact absurd hlast (hmissing first' last' hfirst)

/-- What is made of a function is a unit exactly if it has a body. -/
theorem isSome_unitOf? {unit : Option FunctionUnit} (h : p.unitOf? f = .ok unit) :
    unit.isSome = (p.functionBody? f).isSome := by
  cases hbody : p.functionBody? f with
  | none =>
    rw [unitOf?_of_none hbody] at h
    cases h
    rfl
  | some body =>
    obtain ⟨scope, hunit⟩ := unitOf?_of_some hbody
    rw [h] at hunit
    split at hunit
    · cases hunit
      rfl
    · cases hunit
      rfl
    · cases hunit
    · cases hunit

/-- A unit stands for the function that it was made from. -/
theorem function_of_unitOf? {u : FunctionUnit} (h : p.unitOf? f = .ok (some u)) :
    u.function = f := by
  cases hbody : p.functionBody? f with
  | none =>
    rw [unitOf?_of_none hbody] at h
    cases h
  | some body =>
    obtain ⟨scope, hunit⟩ := unitOf?_of_some hbody
    rw [h] at hunit
    split at hunit <;> cases hunit <;> rfl

/-- A unit has the graph of the body, or what the body lacks. -/
theorem graph_of_unitOf? {u : FunctionUnit} (h : p.unitOf? f = .ok (some u))
    (hbody : p.functionBody? f = some (first, last)) :
    (∀ g, FlowGraph.ofBody p (p.function f).name first last = .ok g → u.graph = .ok g) ∧
    ∀ fault place,
      FlowGraph.ofBody p (p.function f).name first last = .error (.malformed fault place) →
      u.graph = .error ⟨(p.function f).name, .badBody fault place⟩ := by
  obtain ⟨scope, hunit⟩ := unitOf?_of_some hbody
  rw [h] at hunit
  constructor
  · intro g hg
    rw [hg] at hunit
    cases hunit
    rfl
  · intro fault place hbad
    rw [hbad] at hunit
    cases hunit
    rfl

/-! ### All functions -/

/-- The units are made from the functions that have a body, in order. -/
theorem of_unitsOf (h : p.unitsOf fs = .ok units) :
    units.map (·.function) = fs.filter (fun f => (p.functionBody? f).isSome) ∧
      ∀ u ∈ units, p.unitOf? u.function = .ok (some u) := by
  induction fs generalizing units with
  | nil =>
    cases h
    exact ⟨rfl, nofun⟩
  | cons f fs ih =>
    rw [unitsOf] at h
    split at h
    · cases h
    · rename_i unit hunit
      have hbody := isSome_unitOf? hunit
      split at h
      · cases h
      · rename_i rest hrest
        cases h
        obtain ⟨hfunctions, hfrom⟩ := ih hrest
        cases unit with
        | none =>
          rw [List.filter_cons_of_neg (by simp [← hbody])]
          exact ⟨hfunctions, hfrom⟩
        | some u =>
          have hfunction := function_of_unitOf? hunit
          rw [List.filter_cons_of_pos (by simp [← hbody]), ← hfunctions, ← hfunction]
          refine ⟨rfl, fun v hv => ?_⟩
          rcases List.mem_cons.1 hv with rfl | hv
          · rw [hfunction, hunit]
          · exact hfrom v hv

/-- There are no units if there is a function that they cannot be made from. -/
theorem exists_unitOf?_ok (h : p.unitsOf fs = .ok units) (hf : f ∈ fs) :
    ∃ unit, p.unitOf? f = .ok unit := by
  induction fs generalizing units with
  | nil => cases hf
  | cons g fs ih =>
    rw [unitsOf] at h
    split at h
    · cases h
    · rename_i unit hunit
      split at h
      · cases h
      · rename_i rest hrest
        rcases List.mem_cons.1 hf with rfl | hf
        · exact ⟨unit, hunit⟩
        · exact ih hrest hf

/-- Only because of a function are there no units. -/
theorem exists_unitOf?_error (h : p.unitsOf fs = .error e) : ∃ f ∈ fs, p.unitOf? f = .error e := by
  induction fs with
  | nil => cases h
  | cons f fs ih =>
    rw [unitsOf] at h
    split at h
    · rename_i e' hunit
      obtain rfl := Except.error.inj h
      exact ⟨f, List.mem_cons_self .., hunit⟩
    · split at h
      · rename_i e' hrest
        obtain rfl := Except.error.inj h
        obtain ⟨g, hg, hunit⟩ := ih hrest
        exact ⟨g, List.mem_cons_of_mem f hg, hunit⟩
      · cases h

theorem nodup_units (h : p.units = .ok units) : (units.map (·.function)).Nodup := by
  rw [(of_unitsOf h).1]
  exact List.nodup_range.filter _

end Program

end DivisorCheck
