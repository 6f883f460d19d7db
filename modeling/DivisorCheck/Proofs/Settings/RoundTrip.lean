/-
  Settings that are written and read again.

  Each part of the settings object is read by its own reader, and each reader undoes
  its own way of writing: names of types (`typesOf_list`), names of tags
  (`Tag.ofValue_name`) and the contracts made of them (`contractsOf_object`), seconds
  (`timeoutOf_secondsValue`).  Seconds that are a whole number come back as the fraction
  nearest to them, so only settings without these are read back as they were; settings
  that were read from anywhere have none (`timeout_of_ofFields`).
-/
import DivisorCheck.Proofs.Settings.Reading

namespace DivisorCheck

open DivisorCheck.Decimal DivisorCheck.Json

/-- The name of a tag spells it. -/
theorem Tag.ofValue_name (tag : Tag) : Tag.ofValue (.string tag.name) = .ok tag := by
  cases tag <;> rfl

namespace Settings

theorem namesOf?_map_string (names : List String) : namesOf? (names.map .string) = some names := by
  induction names with
  | nil => rfl
  | cons name names ih => rw [List.map_cons, namesOf?, ih, Option.map_some]

theorem typesOf_list (names : List String) : typesOf (.list (names.map .string)) = .ok names := by
  rw [typesOf, namesOf?_map_string]

/-- A contract as the fields of an object. -/
def contractFields (contract : List (String × Tag)) : List (String × Value) :=
  contract.map (fun (param, tag) => (param, .string tag.name))

theorem contractOf_contractFields (function : String) (contract : List (String × Tag)) :
    contractOf function (contractFields contract) = .ok contract := by
  induction contract with
  | nil => rfl
  | cons entry contract ih =>
    obtain ⟨param, tag⟩ := entry
    unfold contractFields at ih ⊢
    rw [List.map_cons, contractOf.eq_def]
    simp only [Tag.ofValue_name, ih]
    rfl

theorem contractsOf_object (contracts : Contracts) :
    contractsOf (.object (contracts.map fun (f, params) => (f, .object (contractFields params)))) =
      .ok contracts := by
  rw [contractsOf]
  induction contracts with
  | nil => rfl
  | cons entry contracts ih =>
    obtain ⟨function, contract⟩ := entry
    rw [List.map_cons, contractsOfFields, contractOf_contractFields, ih]
    rfl

theorem timeoutOf_secondsValue {timeout : Option Seconds} (h : ∀ n, timeout ≠ some (.whole n)) :
    timeoutOf (secondsValue timeout) = .ok timeout := by
  match timeout with
  | none => rfl
  | some (.whole n) => exact absurd rfl (h n)
  | some (.fraction x) => rfl

/-- Settings that can be used are read back as they were written, unless the time limit is a whole
number. -/
theorem ofValue_toValue_of_isUsable {s : Settings} (husable : s.IsUsable)
    (htimeout : ∀ n, s.timeout ≠ some (.whole n)) : ofValue s.toValue = .ok s := by
  refine ofValue_eq_ok_iff.2 ⟨_, rfl, by simp [knownKeys], ?_, husable⟩
  -- One step for each key, in the order in which they are read.
  refine bind_eq_ok_iff.2 ⟨s.maxIterations, rfl, ?_⟩
  refine bind_eq_ok_iff.2 ⟨s.timeout, timeoutOf_secondsValue htimeout, ?_⟩
  refine bind_eq_ok_iff.2 ⟨s.jobs, rfl, ?_⟩
  refine bind_eq_ok_iff.2 ⟨s.useFlowValues, rfl, ?_⟩
  refine bind_eq_ok_iff.2 ⟨s.integralTypes, typesOf_list s.integralTypes, ?_⟩
  exact bind_eq_ok_iff.2 ⟨s.contracts, contractsOf_object s.contracts, rfl⟩

/-- **Settings survive being written and read.**  Settings that validation accepts are read back as
they were written, if the time limit is given in the form in which it is read; and settings that
were read from anything are read back as they are. -/
theorem ofValue_toValue :
    (∀ s : Settings, (∃ warnings, s.validate = .ok warnings) →
      (∀ n, s.timeout ≠ some (.whole n)) → ofValue s.toValue = .ok s) ∧
    ∀ v s, ofValue v = .ok s → ofValue s.toValue = .ok s := by
  refine ⟨fun s hvalid htimeout => ?_, fun v s hread => ?_⟩
  · exact ofValue_toValue_of_isUsable (validate_eq_ok_iff.1 hvalid) htimeout
  · obtain ⟨fields, -, -, hfields, husable⟩ := ofValue_eq_ok_iff.1 hread
    exact ofValue_toValue_of_isUsable husable (timeout_of_ofFields hfields)

/-- Settings with contracts, and settings read from text and from other spellings. -/
theorem ofValue_toValue_contracts :
    (let s : Settings := {
      maxIterations := 500, timeout := some (.fraction (.finite false 3 (-1))),
      integralTypes := ["int", "short"], useFlowValues := true,
      contracts := [("f", [("n", .nonZero), ("m", .bottom)]), ("g", [])], jobs := 4 }
    ofValue s.toValue = .ok s) ∧
    (let s : Settings := { maxIterations := 7, contracts := [("f", [("n", .nonZero)])] }
    ofValue (.object [("max_iterations", .string "7"),
      ("parameter_contracts", .object [("f", .object [("n", .string " Non-Zero ")])])]) = .ok s ∧
    ofValue s.toValue = .ok s) := by
  have hread : ofValue (.object [("max_iterations", .string "7"),
      ("parameter_contracts", .object [("f", .object [("n", .string " Non-Zero ")])])]) =
      .ok { maxIterations := 7, contracts := [("f", [("n", .nonZero)])] } := by rfl
  exact ⟨ofValue_toValue.1 _ ⟨_, rfl⟩ (by simp), hread, ofValue_toValue.2 _ _ hread⟩

end Settings

end DivisorCheck
