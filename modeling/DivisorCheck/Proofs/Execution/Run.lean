/-
  `Run` — what a piece of the analysed program does, as a relation.

  A state gives every variable an integer of any size.  A run starts in a state
  and ends in one of three ways: with a value and a new state, with a division by
  zero, or with an exception, whose handler finds the state as it was when the
  exception was raised.  Since inputs, calls and unmodelled operators may give
  anything, a piece of program is not a function but the relation between a state
  and the outcomes that are possible from it.
-/
import DivisorCheck.Store
import DivisorCheck.Program

namespace DivisorCheck

/-- The values of all variables. -/
abbrev State := VarId → Int

/-- The state in which one variable has another value. -/
def State.update (σ : State) (v : VarId) (n : Int) : State := fun w => if v = w then n else σ w

/-- What is known of every variable is true of its value. -/
def Store.Describes (s : Store) (σ : State) : Prop := ∀ v, (s.get v).Holds (σ v)

/-- How a run may end. -/
inductive Outcome (α : Type) where
  | value (a : α) (σ : State)
  /-- the division at the token had zero as its divisor -/
  | divisionByZero (site : TokenId)
  | raised (σ : State)

/-- The outcomes that are possible from each state. -/
def Run (α : Type) : Type := State → Outcome α → Prop

namespace Run

variable {α β : Type}

/-- One run after another, unless the first does not end with a value. -/
inductive Bind (m : Run α) (f : α → Run β) : State → Outcome β → Prop where
  | value {σ σ' : State} {a : α} {o : Outcome β} :
    m σ (.value a σ') → f a σ' o → Bind m f σ o
  | divisionByZero {σ : State} {d : TokenId} :
    m σ (.divisionByZero d) → Bind m f σ (.divisionByZero d)
  | raised {σ σ' : State} : m σ (.raised σ') → Bind m f σ (.raised σ')

instance : Monad Run where
  pure a := fun σ o => o = .value a σ
  bind m f := Bind m f

/-- Some value. -/
def any : Run α := fun σ o => ∃ a, o = .value a σ

/-- The value of a variable. -/
def read (v : VarId) : Run Int := fun σ o => o = .value (σ v) σ

/-- Gives a variable a value. -/
def assign (v : VarId) (n : Int) : Run Unit := fun σ o => o = .value () (σ.update v n)

/-- Gives any of the variables any values. -/
def change (vs : List VarId) : Run Unit := fun σ o =>
  ∃ σ' : State, (∀ v, v ∉ vs → σ' v = σ v) ∧ o = .value () σ'

/-- Ends with a division by zero. -/
def divideByZero (site : TokenId) : Run α := fun _ o => o = .divisionByZero site

/-- Only those runs whose value has a property. -/
def only (P : α → Prop) (m : Run α) : Run α := fun σ o =>
  m σ o ∧ ∀ a σ', o = .value a σ' → P a

/-- The same runs, save that an exception may cut them short at either end. -/
def mayRaise (m : Run α) : Run α := fun σ o =>
  m σ o ∨ o = .raised σ ∨ ∃ a σ', m σ (.value a σ') ∧ o = .raised σ'

theorem bind_pure (m : Run α) : (m >>= fun a => pure a) = m := by
  funext σ o
  refine propext ⟨?_, fun h => ?_⟩
  · rintro (⟨h, rfl⟩ | h | h)
    · exact h
    · exact h
    · exact h
  · cases o with
    | value a σ' => exact .value h rfl
    | divisionByZero d => exact .divisionByZero h
    | raised σ' => exact .raised h

/-! ### Runs that end with a value -/

@[simp] theorem pure_iff {a : α} {σ : State} {o : Outcome α} :
    (pure a : Run α) σ o ↔ o = .value a σ := Iff.rfl

@[simp] theorem bind_value_iff {m : Run α} {f : α → Run β} {b : β} {σ σ' : State} :
    (m >>= f) σ (.value b σ') ↔ ∃ a σ₁, m σ (.value a σ₁) ∧ f a σ₁ (.value b σ') := by
  constructor
  · rintro ⟨hm, hf⟩
    exact ⟨_, _, hm, hf⟩
  · rintro ⟨a, σ₁, hm, hf⟩
    exact .value hm hf

@[simp] theorem any_value_iff {a : α} {σ σ' : State} :
    (any : Run α) σ (.value a σ') ↔ σ' = σ := by
  simp [any, eq_comm]

@[simp] theorem read_value_iff {v : VarId} {n : Int} {σ σ' : State} :
    read v σ (.value n σ') ↔ n = σ v ∧ σ' = σ := by
  simp [read]

@[simp] theorem assign_value_iff {v : VarId} {n : Int} {u : Unit} {σ σ' : State} :
    assign v n σ (.value u σ') ↔ σ' = σ.update v n := by
  simp [assign]

@[simp] theorem change_value_iff {vs : List VarId} {u : Unit} {σ σ' : State} :
    change vs σ (.value u σ') ↔ ∀ v, v ∉ vs → σ' v = σ v := by
  simp [change]

@[simp] theorem not_divideByZero_value {d : TokenId} {a : α} {σ σ' : State} :
    ¬ (divideByZero d : Run α) σ (.value a σ') := by
  simp [divideByZero]

@[simp] theorem only_value_iff {P : α → Prop} {m : Run α} {a : α} {σ σ' : State} :
    only P m σ (.value a σ') ↔ m σ (.value a σ') ∧ P a := by
  simp [only]

@[simp] theorem mayRaise_value_iff {m : Run α} {a : α} {σ σ' : State} :
    mayRaise m σ (.value a σ') ↔ m σ (.value a σ') := by
  simp [mayRaise]

/-- Changing variables and giving any value always ends with a value. -/
theorem change_any_iff {vs : List VarId} {σ : State} {o : Outcome α} :
    (do change vs; any : Run α) σ o ↔
      ∃ a σ', (∀ v, v ∉ vs → σ' v = σ v) ∧ o = .value a σ' := by
  constructor
  · rintro (⟨hchange, a, rfl⟩ | ⟨_, -, heq⟩ | ⟨_, -, heq⟩)
    · exact ⟨a, _, change_value_iff.1 hchange, rfl⟩
    · cases heq
    · cases heq
  · rintro ⟨a, σ', hσ', rfl⟩
    exact bind_value_iff.2 ⟨(), σ', change_value_iff.2 hσ', any_value_iff.2 rfl⟩

end Run

end DivisorCheck
