/-
  What reading settings comes to, for every value.

  Settings that are read can be used (`Settings.IsUsable`): that is what validation
  tests (`error?_eq_none_iff`), but for a time limit that is not a number, which
  passes.

  Settings that are refused are refused with an error that the command reports, with
  few exceptions (`Settings.Surprises`): an infinite number of iterations or jobs, a
  number of seconds beyond all fractions, a value in place of type names that lists
  nothing, and a number that is too long for the message about it.  The keys are read
  in a fixed order, so each of these comes to light only if what is read before it is
  in order (`ofFields_eq_error_iff`).
-/
import DivisorCheck.Settings.Reader
import DivisorCheck.Proofs.Decimal.Integers

namespace DivisorCheck

open DivisorCheck.Decimal DivisorCheck.Text DivisorCheck.Json

/-! ### Failing computations -/

theorem bind_eq_error_iff {ε α β : Type} {x : Except ε α} {f : α → Except ε β} {e : ε} :
    (x >>= f) = .error e ↔ x = .error e ∨ ∃ a, x = .ok a ∧ f a = .error e := by
  cases x <;> simp [bind, Except.bind]

theorem bind_eq_ok_iff {ε α β : Type} {x : Except ε α} {f : α → Except ε β} {b : β} :
    (x >>= f) = .ok b ↔ ∃ a, x = .ok a ∧ f a = .ok b := by
  cases x <;> simp [bind, Except.bind]

/-! ### Positive limits -/

/-- The number is greater than zero. -/
def Decimal.Binary64.IsPositive : Binary64 → Prop
  | .nan => False
  | .infinite negative => negative = false
  | .finite negative s _ => negative = false ∧ 0 < s

/-- The time limit is greater than zero. -/
def Seconds.IsPositive : Seconds → Prop
  | .whole n => 0 < n
  | .fraction x => x.IsPositive

theorem Seconds.nonPositive_eq_false_iff (t : Seconds) :
    t.nonPositive = false ↔ t.IsPositive ∨ t = .fraction .nan := by
  cases t with
  | whole n => simp [nonPositive, IsPositive]
  | fraction x =>
    cases x <;>
      simp [nonPositive, IsPositive, Binary64.nonPositive, Binary64.IsPositive, Nat.pos_iff_ne_zero]

namespace Settings

/-! ### Validation -/

/-- Settings with which an analysis can run.  A time limit that is not a number is none. -/
structure IsUsable (s : Settings) : Prop where
  maxIterations_pos : 1 ≤ s.maxIterations
  jobs_pos : 1 ≤ s.jobs
  timeout_pos : ∀ t, s.timeout = some t → t.IsPositive ∨ t = .fraction .nan
  integralTypes_ne_nil : s.integralTypes ≠ []

theorem filter_nonPositive_eq_none_iff {timeout : Option Seconds} :
    timeout.filter Seconds.nonPositive = none ↔
      ∀ t, timeout = some t → t.IsPositive ∨ t = .fraction .nan := by
  cases timeout with
  | none => simp
  | some t => simp [Option.filter, Seconds.nonPositive_eq_false_iff]

/-- Validation accepts exactly the settings that can be used. -/
theorem error?_eq_none_iff (s : Settings) : s.error? = none ↔ s.IsUsable := by
  unfold error?
  constructor
  · intro h
    split at h
    · cases h
    · rename_i hiterations
      split at h
      · cases h
      · rename_i htimeout
        split at h
        · cases h
        · rename_i hjobs
          split at h
          · cases h
          · rename_i htypes
            exact ⟨by omega, by omega, filter_nonPositive_eq_none_iff.1 htimeout, by simpa using htypes⟩
  · rintro ⟨hiterations, hjobs, htimeout, htypes⟩
    rw [if_neg (by omega), filter_nonPositive_eq_none_iff.2 htimeout]
    simp only [if_neg (show ¬ s.jobs < 1 by omega)]
    simp [htypes]

/-! ### One value -/

/-- Only an infinite number is refused as an integer with an unexpected error. -/
theorem integerOf_eq_error_iff {v : Value} {e : SettingsError} (he : e.isExpected = false) :
    integerOf v = .error e ↔ (∃ b, v = .real (.infinite b)) ∧ e = .integerFromInfinity := by
  constructor
  · intro h
    unfold integerOf at h
    split at h
    · cases h
    · cases h
    · cases h
      cases he
    · rename_i x hnan
      cases x with
      | nan => exact absurd rfl hnan
      | infinite b =>
        cases h
        exact ⟨⟨b, rfl⟩, rfl⟩
      | finite negative s exponent => cases h
    · split at h
      · cases h
      · cases h
        cases he
    · cases h
      cases he
  · rintro ⟨⟨b, rfl⟩, rfl⟩
    rfl

/-- Only an integer beyond all fractions is refused as a time limit with an unexpected error. -/
theorem timeoutOf_eq_error_iff {v : Value} {e : SettingsError} (he : e.isExpected = false) :
    timeoutOf v = .error e ↔
      (∃ n, v = .int n ∧ Binary64.leastOverflow ≤ n.natAbs) ∧ e = .secondsTooLarge := by
  have hseconds : secondsOf v = .error e ↔
      (∃ n, v = .int n ∧ Binary64.leastOverflow ≤ n.natAbs) ∧ e = .secondsTooLarge := by
    constructor
    · intro h
      unfold secondsOf at h
      split at h
      · rename_i n
        split at h
        · cases h
        · rename_i hnone
          cases h
          exact ⟨⟨n, rfl, (Binary64.ofInt?_eq_none_iff n).1 hnone⟩, rfl⟩
      · cases h
      · cases h
      · split at h
        · cases h
        · cases h
          cases he
      · cases h
        cases he
    · rintro ⟨⟨n, rfl, hn⟩, rfl⟩
      rw [secondsOf, (Binary64.ofInt?_eq_none_iff n).2 hn]
  rw [← hseconds]
  unfold timeoutOf
  split
  · exact iff_of_false (by simp) fun h => by
      cases h
      cases he
  · cases secondsOf v <;> simp [Except.map]

theorem flowValuesOf_ne_error {v : Value} {e : SettingsError} (he : e.isExpected = false) :
    flowValuesOf v ≠ .error e := by
  unfold flowValuesOf
  split
  · simp
  · intro h
    cases h
    cases he

/-- The value is neither a list nor an object, which list names, nor a string. -/
def ListsNothing : Value → Prop
  | .null | .bool _ | .int _ | .real _ => True
  | .string _ | .list _ | .object _ => False

theorem typesOf_eq_error_iff {v : Value} {e : SettingsError} (he : e.isExpected = false) :
    typesOf v = .error e ↔ ListsNothing v ∧ e = .typesNotListed v.kindName := by
  constructor
  · intro h
    cases v with
    | null | bool | int | real =>
      cases h
      exact ⟨trivial, rfl⟩
    | string s =>
      cases h
      cases he
    | list items =>
      simp only [typesOf] at h
      split at h
      · cases h
      · cases h
        cases he
    | object fields => cases h
  · rintro ⟨hv, rfl⟩
    cases v with
    | null | bool | int | real => rfl
    | string | list | object => exact hv.elim

theorem contractOf_ne_error {function : String} {fields : List (String × Value)} {e : SettingsError}
    (he : e.isExpected = false) : contractOf function fields ≠ .error e := by
  induction fields with
  | nil =>
    intro h
    cases h
  | cons field rest ih =>
    unfold contractOf
    split
    · intro h
      cases h
      cases he
    · rw [Ne, bind_eq_error_iff]
      rintro (h | ⟨tags, -, h⟩)
      · exact ih h
      · cases h

theorem contractsOf_ne_error {v : Value} {e : SettingsError} (he : e.isExpected = false) :
    contractsOf v ≠ .error e := by
  have hfields (fields : List (String × Value)) : contractsOfFields fields ≠ .error e := by
    induction fields with
    | nil => simp [contractsOfFields]
    | cons field rest ih =>
      obtain ⟨function, v⟩ := field
      unfold contractsOfFields
      split
      · rename_i heq
        cases heq
      · rename_i heq
        cases heq
        rw [Ne, bind_eq_error_iff]
        rintro (h | ⟨contract, -, h⟩)
        · exact contractOf_ne_error he h
        · rcases bind_eq_error_iff.1 h with h | ⟨contracts, -, h⟩
          · exact ih h
          · cases h
      · intro h
        cases h
        cases he
  unfold contractsOf
  split
  · exact hfields _
  · intro h
    cases h
    cases he

/-! ### All keys -/

section Fields

variable {fields : List (String × Value)} {e : SettingsError}

/-- The key is missing, or its value can be read. -/
def Reads {α : Type} (fields : List (String × Value)) (key : String)
    (read : Value → Except SettingsError α) : Prop :=
  ∀ v, field? key fields = some v → ∃ a, read v = .ok a

theorem readKey_eq_error_iff {α : Type} {key : String} {default : α}
    {read : Value → Except SettingsError α} :
    readKey fields key default read = .error e ↔
      ∃ v, field? key fields = some v ∧ read v = .error e := by
  unfold readKey
  cases field? key fields <;> simp

theorem readKey_eq_ok_iff {α : Type} {key : String} {default : α}
    {read : Value → Except SettingsError α} :
    (∃ a, readKey fields key default read = .ok a) ↔ Reads fields key read := by
  unfold readKey Reads
  cases field? key fields <;> simp

/-- Where reading the keys ends with an unexpected error: at the first key that cannot be read. -/
theorem ofFields_eq_error_iff (he : e.isExpected = false) :
    ofFields fields = .error e ↔
      ((∃ b, field? "max_iterations" fields = some (.real (.infinite b))) ∧
        e = .integerFromInfinity) ∨
      Reads fields "max_iterations" integerOf ∧
        (((∃ n, field? "timeout_seconds" fields = some (.int n) ∧
            Binary64.leastOverflow ≤ n.natAbs) ∧ e = .secondsTooLarge) ∨
        Reads fields "timeout_seconds" timeoutOf ∧
          (((∃ b, field? "jobs" fields = some (.real (.infinite b))) ∧ e = .integerFromInfinity) ∨
          Reads fields "jobs" integerOf ∧ Reads fields "use_valueflow" flowValuesOf ∧
            ∃ v, field? "integral_types" fields = some v ∧ ListsNothing v ∧
              e = .typesNotListed v.kindName)) := by
  have hinteger (key : String) (default : Int) : readKey fields key default integerOf = .error e ↔
      (∃ b, field? key fields = some (.real (.infinite b))) ∧ e = .integerFromInfinity := by
    simp only [readKey_eq_error_iff, integerOf_eq_error_iff he]
    constructor
    · rintro ⟨v, hv, ⟨b, rfl⟩, rfl⟩
      exact ⟨⟨b, hv⟩, rfl⟩
    · rintro ⟨⟨b, hb⟩, rfl⟩
      exact ⟨_, hb, ⟨b, rfl⟩, rfl⟩
  have htimeout (default : Option Seconds) :
      readKey fields "timeout_seconds" default timeoutOf = .error e ↔
        (∃ n, field? "timeout_seconds" fields = some (.int n) ∧
          Binary64.leastOverflow ≤ n.natAbs) ∧ e = .secondsTooLarge := by
    simp only [readKey_eq_error_iff, timeoutOf_eq_error_iff he]
    constructor
    · rintro ⟨v, hv, ⟨n, rfl, hn⟩, rfl⟩
      exact ⟨⟨n, hv, hn⟩, rfl⟩
    · rintro ⟨⟨n, hv, hn⟩, rfl⟩
      exact ⟨_, hv, ⟨n, rfl, hn⟩, rfl⟩
  have hflow (default : Bool) : ¬ readKey fields "use_valueflow" default flowValuesOf = .error e := by
    rw [readKey_eq_error_iff]
    rintro ⟨v, -, h⟩
    exact flowValuesOf_ne_error he h
  have hcontracts (default : Contracts) :
      ¬ readKey fields "parameter_contracts" default contractsOf = .error e := by
    rw [readKey_eq_error_iff]
    rintro ⟨v, -, h⟩
    exact contractsOf_ne_error he h
  have htypes (default : List String) :
      readKey fields "integral_types" default typesOf = .error e ↔
        ∃ v, field? "integral_types" fields = some v ∧ ListsNothing v ∧
          e = .typesNotListed v.kindName := by
    simp only [readKey_eq_error_iff, typesOf_eq_error_iff he]
  have hdone (s : Settings) : ¬ (pure s : Except SettingsError Settings) = .error e := by
    intro h
    cases h
  unfold ofFields
  simp only [bind_eq_error_iff, hinteger, htimeout, hflow, hcontracts, htypes, hdone, and_false,
    exists_false, or_false, false_or, exists_and_right, readKey_eq_ok_iff]

/-- The least number with more digits than a message can show. -/
def leastNotShown : Nat := Binary64.tenPow digitLimit

/-- The first in order of what makes reading settings fail with an error that the command does not
report as one about settings. -/
inductive Surprises (fields : List (String × Value)) : SettingsError → Prop where
  | infiniteIterations {b : Bool}
    (h : field? "max_iterations" fields = some (.real (.infinite b))) :
    Surprises fields .integerFromInfinity
  | longTimeout {n : Int} (hiterations : Reads fields "max_iterations" integerOf)
    (h : field? "timeout_seconds" fields = some (.int n))
    (hn : Binary64.leastOverflow ≤ n.natAbs) :
    Surprises fields .secondsTooLarge
  | infiniteJobs {b : Bool} (hiterations : Reads fields "max_iterations" integerOf)
    (htimeout : Reads fields "timeout_seconds" timeoutOf)
    (h : field? "jobs" fields = some (.real (.infinite b))) :
    Surprises fields .integerFromInfinity
  | unlistedTypes {v : Value} (hiterations : Reads fields "max_iterations" integerOf)
    (htimeout : Reads fields "timeout_seconds" timeoutOf) (hjobs : Reads fields "jobs" integerOf)
    (hflow : Reads fields "use_valueflow" flowValuesOf)
    (h : field? "integral_types" fields = some v) (hv : ListsNothing v) :
    Surprises fields (.typesNotListed v.kindName)
  /-- the number of iterations is refused, but too long for the message -/
  | longIterations {s : Settings} (hread : ofFields fields = .ok s)
    (hn : s.maxIterations ≤ -leastNotShown) :
    Surprises fields .numberNotShown
  /-- the number of jobs is refused, but too long for the message -/
  | longJobs {s : Settings} (hread : ofFields fields = .ok s) (hiterations : 1 ≤ s.maxIterations)
    (htimeout : ∀ t, s.timeout = some t → t.IsPositive ∨ t = .fraction .nan)
    (hn : s.jobs ≤ -leastNotShown) :
    Surprises fields .numberNotShown

/-- A time limit that was read is a fraction, also where it was given as a whole number. -/
theorem timeout_of_ofFields {s : Settings} (h : ofFields fields = .ok s) (n : Int) :
    s.timeout ≠ some (.whole n) := by
  have hseconds {v : Value} {t : Seconds} (hv : secondsOf v = .ok t) : t ≠ .whole n := by
    unfold secondsOf at hv
    split at hv
    · split at hv <;> cases hv
      exact Seconds.noConfusion
    · cases hv
      exact Seconds.noConfusion
    · cases hv
      exact Seconds.noConfusion
    · split at hv <;> cases hv
      exact Seconds.noConfusion
    · cases hv
  unfold ofFields at h
  simp only [bind_eq_ok_iff] at h
  obtain ⟨iterations, -, timeout, htimeout, jobs, -, flow, -, types, -, contracts, -, hs⟩ := h
  cases hs
  unfold readKey at htimeout
  split at htimeout
  · cases htimeout
    simp
  · rename_i v _
    unfold timeoutOf at htimeout
    split at htimeout
    · cases htimeout
      simp
    · cases ht : secondsOf v with
      | error e =>
        rw [ht] at htimeout
        cases htimeout
      | ok t =>
        rw [ht] at htimeout
        cases htimeout
        exact fun h => hseconds ht (Option.some.inj h)

theorem leastNotShown_pos : 0 < leastNotShown := Binary64.tenPow_pos digitLimit

/-- A refused number is shown unless it has too many digits. -/
theorem showing_eq_iff {n : Int} {refused : SettingsError} (hn : n < 1)
    (hrefused : refused.isExpected = true) (he : e.isExpected = false) :
    SettingsError.showing n refused = e ↔ n ≤ -leastNotShown ∧ e = .numberNotShown := by
  have hlong : ¬ n.natAbs < leastNotShown ↔ n ≤ -leastNotShown := by
    have := leastNotShown_pos
    omega
  rw [← hlong, SettingsError.showing]
  change (if n.natAbs < leastNotShown then refused else _) = e ↔ _
  split
  · rename_i hshort
    refine iff_of_false ?_ fun h => h.1 hshort
    rintro rfl
    rw [hrefused] at he
    cases he
  · rename_i hnot
    simp [hnot, eq_comm]

/-- Validation ends with an unexpected error where a refused number is too long to be shown. -/
theorem error?_eq_some_iff {s : Settings} (hwhole : ∀ n, s.timeout ≠ some (.whole n))
    (he : e.isExpected = false) :
    s.error? = some e ↔
      (s.maxIterations ≤ -leastNotShown ∨ 1 ≤ s.maxIterations ∧
        (∀ t, s.timeout = some t → t.IsPositive ∨ t = .fraction .nan) ∧
        s.jobs ≤ -leastNotShown) ∧ e = .numberNotShown := by
  have hlimit := leastNotShown_pos
  unfold error?
  rw [← filter_nonPositive_eq_none_iff]
  split
  · rename_i hiterations
    rw [Option.some.injEq, showing_eq_iff hiterations rfl he]
    refine and_congr_left' ⟨.inl, fun h => h.resolve_right fun h => ?_⟩
    omega
  · rename_i hiterations
    have hnot : ¬ s.maxIterations ≤ -leastNotShown := by omega
    split
    · rename_i t ht
      refine iff_of_false (fun h => ?_) ?_
      · cases t with
        | whole n => exact hwhole n (Option.filter_eq_some_iff.1 ht).1
        | fraction x =>
          cases h
          cases he
      · rintro ⟨hlong | ⟨-, htimeout, -⟩, -⟩
        · exact hnot hlong
        · rw [ht] at htimeout
          cases htimeout
    · rename_i htimeout
      split
      · rename_i hjobs
        rw [Option.some.injEq, showing_eq_iff hjobs rfl he]
        have hpositive : 1 ≤ s.maxIterations := by omega
        exact and_congr_left' ⟨fun h => .inr ⟨hpositive, htimeout, h⟩,
          fun h => (h.resolve_left hnot).2.2⟩
      · rename_i hjobs
        have hjobs' : ¬ s.jobs ≤ -leastNotShown := by omega
        refine iff_of_false (fun h => ?_) fun h => h.1.elim hnot fun h => hjobs' h.2.2
        split at h
        · cases h
          cases he
        · cases h

theorem Surprises.isExpected (h : Surprises fields e) : e.isExpected = false := by
  cases h <;> rfl

/-- Reading known fields fails with an unexpected error, at once or in validation, exactly where
something surprises. -/
theorem surprises_iff (he : e.isExpected = false) :
    (ofFields fields = .error e ∨ ∃ s, ofFields fields = .ok s ∧ s.error? = some e) ↔
      Surprises fields e := by
  rw [ofFields_eq_error_iff he]
  constructor
  · rintro ((⟨⟨b, h⟩, rfl⟩ | ⟨hiterations, ⟨⟨n, h, hn⟩, rfl⟩ | ⟨htimeout, ⟨⟨b, h⟩, rfl⟩ |
      ⟨hjobs, hflow, v, h, hv, rfl⟩⟩⟩) | ⟨s, hread, herror⟩)
    · exact .infiniteIterations h
    · exact .longTimeout hiterations h hn
    · exact .infiniteJobs hiterations htimeout h
    · exact .unlistedTypes hiterations htimeout hjobs hflow h hv
    · obtain ⟨hn | ⟨hiterations, htimeout, hn⟩, rfl⟩ :=
        (error?_eq_some_iff (timeout_of_ofFields hread) he).1 herror
      · exact .longIterations hread hn
      · exact .longJobs hread hiterations htimeout hn
  · intro h
    cases h with
    | infiniteIterations h => exact .inl (.inl ⟨⟨_, h⟩, rfl⟩)
    | longTimeout hiterations h hn => exact .inl (.inr ⟨hiterations, .inl ⟨⟨_, h, hn⟩, rfl⟩⟩)
    | infiniteJobs hiterations htimeout h =>
      exact .inl (.inr ⟨hiterations, .inr ⟨htimeout, .inl ⟨⟨_, h⟩, rfl⟩⟩⟩)
    | unlistedTypes hiterations htimeout hjobs hflow h hv =>
      exact .inl (.inr ⟨hiterations, .inr ⟨htimeout, .inr ⟨hjobs, hflow, _, h, hv, rfl⟩⟩⟩)
    | longIterations hread hn =>
      exact .inr ⟨_, hread, (error?_eq_some_iff (timeout_of_ofFields hread) he).2 ⟨.inl hn, rfl⟩⟩
    | longJobs hread hiterations htimeout hn =>
      exact .inr ⟨_, hread, (error?_eq_some_iff (timeout_of_ofFields hread) he).2
        ⟨.inr ⟨hiterations, htimeout, hn⟩, rfl⟩⟩

/-- Validation fails with the error that it finds. -/
theorem validate_eq_error_iff {s : Settings} : s.validate = .error e ↔ s.error? = some e := by
  unfold validate
  cases s.error? <;> simp

theorem validate_eq_ok_iff {s : Settings} : (∃ warnings, s.validate = .ok warnings) ↔ s.IsUsable := by
  rw [← error?_eq_none_iff]
  unfold validate
  cases s.error? <;> simp

/-- Reading an object once its keys have been looked at. -/
theorem ofValue_object (hkeys : ∀ field ∈ fields, field.1 ∈ knownKeys) :
    ofValue (.object fields) = (do
      let settings ← ofFields fields
      let _ ← settings.validate
      return settings) := by
  have hunknown : (fields.map (·.1)).filter (· ∉ knownKeys) = [] := by
    simpa [List.filter_eq_nil_iff] using fun key v h => hkeys (key, v) h
  simp only [ofValue, hunknown]
  rfl

theorem ofValue_object_unknown (hkeys : ¬ ∀ field ∈ fields, field.1 ∈ knownKeys) :
    ∃ keys, ofValue (.object fields) = .error (.unknownKeys keys) := by
  have hunknown : (fields.map (·.1)).filter (· ∉ knownKeys) ≠ [] := by
    intro h
    refine hkeys fun field hfield => ?_
    simpa using List.filter_eq_nil_iff.1 h field.1 (List.mem_map_of_mem hfield)
  exact ⟨_, if_pos hunknown⟩

end Fields

/-! ### Outcomes -/

/-- Settings are read from an object with known keys that can all be read. -/
theorem ofValue_eq_ok_iff {v : Value} {s : Settings} :
    ofValue v = .ok s ↔ ∃ fields, v = .object fields ∧
      (∀ field ∈ fields, field.1 ∈ knownKeys) ∧ ofFields fields = .ok s ∧ s.IsUsable := by
  constructor
  · intro h
    cases v with
    | object fields =>
      by_cases hkeys : ∀ field ∈ fields, field.1 ∈ knownKeys
      · rw [ofValue_object hkeys, bind_eq_ok_iff] at h
        obtain ⟨settings, hread, h⟩ := h
        obtain ⟨warnings, hvalid, h⟩ := bind_eq_ok_iff.1 h
        cases h
        exact ⟨fields, rfl, hkeys, hread, validate_eq_ok_iff.1 ⟨warnings, hvalid⟩⟩
      · obtain ⟨keys, hunknown⟩ := ofValue_object_unknown hkeys
        rw [hunknown] at h
        cases h
    | null | bool | int | real | string | list => cases h
  · rintro ⟨fields, rfl, hkeys, hread, husable⟩
    obtain ⟨warnings, hvalid⟩ := validate_eq_ok_iff.2 husable
    rw [ofValue_object hkeys, hread]
    exact bind_eq_ok_iff.2 ⟨s, rfl, bind_eq_ok_iff.2 ⟨warnings, hvalid, rfl⟩⟩

/-- **What reading settings comes to.**  What is read can be used.  An error is one that the command
reports, unless something in an object with known keys surprises; the error is then about what comes
first. -/
theorem ofValue_outcome (v : Value) :
    (∀ s, ofValue v = .ok s → s.IsUsable) ∧
    ∀ e, (ofValue v = .error e ∧ e.isExpected = false) ↔
      ∃ fields, v = .object fields ∧ (∀ field ∈ fields, field.1 ∈ knownKeys) ∧
        Surprises fields e := by
  refine ⟨fun s h => ?_, fun e => ⟨?_, ?_⟩⟩
  · obtain ⟨-, -, -, -, husable⟩ := ofValue_eq_ok_iff.1 h
    exact husable
  · rintro ⟨h, he⟩
    cases v with
    | object fields =>
      by_cases hkeys : ∀ field ∈ fields, field.1 ∈ knownKeys
      · rw [ofValue_object hkeys, bind_eq_error_iff] at h
        refine ⟨fields, rfl, hkeys, (surprises_iff he).1 (h.imp_right ?_)⟩
        rintro ⟨s, hread, h⟩
        rcases bind_eq_error_iff.1 h with hinvalid | ⟨_, -, h⟩
        · exact ⟨s, hread, validate_eq_error_iff.1 hinvalid⟩
        · cases h
      · obtain ⟨keys, hunknown⟩ := ofValue_object_unknown hkeys
        rw [hunknown] at h
        cases h
        cases he
    | null | bool | int | real | string | list =>
      cases h
      cases he
  · rintro ⟨fields, rfl, hkeys, hsurprise⟩
    have he := hsurprise.isExpected
    refine ⟨?_, he⟩
    rw [ofValue_object hkeys, bind_eq_error_iff]
    refine ((surprises_iff he).2 hsurprise).imp_right ?_
    rintro ⟨s, hread, herror⟩
    exact ⟨s, hread, bind_eq_error_iff.2 (.inl (validate_eq_error_iff.2 herror))⟩

/-- Numbers given as text and as a truth value, and type names that are not there. -/
theorem ofValue_outcome_givenOtherwise :
    (∃ s, ofValue (.object [("max_iterations", .string " 7 "), ("jobs", .bool true)]) = .ok s ∧
      s.IsUsable) ∧
    ofValue (.object [("jobs", .int 2), ("integral_types", .null)]) =
      .error (.typesNotListed "NoneType") := by
  have hread : ofValue (.object [("max_iterations", .string " 7 "), ("jobs", .bool true)]) =
      .ok { maxIterations := 7 } := by rfl
  refine ⟨⟨_, hread, (ofValue_outcome _).1 _ hread⟩, ?_⟩
  have hjobs : Reads [("jobs", .int 2), ("integral_types", .null)] "jobs" integerOf := by
    rintro v ⟨⟩
    exact ⟨2, rfl⟩
  refine (((ofValue_outcome _).2 _).2 ⟨_, rfl, by decide, .unlistedTypes (v := .null) ?_ ?_ hjobs ?_
    rfl trivial⟩).1 <;>
    exact nofun

/-- **Not all settings that are refused are reported**: type names that are not there, an infinite
number of iterations and too many seconds end in other errors.  And a time limit that is no number is
accepted. -/
theorem ofValue_unreported :
    (ofValue (.object [("integral_types", .null)]) = .error (.typesNotListed "NoneType") ∧
      ofValue (.object [("max_iterations", .real (.infinite false))]) =
        .error .integerFromInfinity ∧
      ofValue (.object [("timeout_seconds", .int Binary64.leastOverflow)]) =
        .error .secondsTooLarge) ∧
    ¬ (∀ v e, ofValue v = .error e → e.isExpected = true) ∧
    ¬ ∀ v s t, ofValue v = .ok s → s.timeout = some t → t.IsPositive := by
  have hnull : ofValue (.object [("integral_types", .null)]) =
      .error (.typesNotListed "NoneType") := rfl
  have hseconds : ofValue (.object [("timeout_seconds", .int Binary64.leastOverflow)]) =
      .error .secondsTooLarge := by
    have hlarge : Binary64.leastOverflow ≤ (Binary64.leastOverflow : Int).natAbs :=
      Nat.le_of_eq (Int.natAbs_natCast _).symm
    rw [ofValue_object (by decide), bind_eq_error_iff]
    exact .inl ((ofFields_eq_error_iff rfl).2 (.inr ⟨nofun, .inl ⟨⟨_, rfl, hlarge⟩, rfl⟩⟩))
  refine ⟨⟨hnull, rfl, hseconds⟩, fun hclaim => ?_, fun hclaim => ?_⟩
  · exact absurd (hclaim _ _ hnull) (by decide)
  · exact hclaim (.object [("timeout_seconds", .string "nan")]) _ (.fraction .nan) rfl rfl

end Settings

end DivisorCheck
