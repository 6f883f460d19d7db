/-
  `Tag` — what is known about one integer: nothing reaches it (`bottom`), it is
  `zero`, it is `nonZero`, or it may be either (`top`).

  The four tags form a lattice of height two,

                 top
                /   \
             zero   nonZero
                \   /
                bottom

  so a fixpoint over tags needs no widening.  `Tag.Holds` is the meaning of a
  tag, the set of integers that it describes; `join`, `meet` and `le` are the
  union, intersection and inclusion of those sets.  `narrow` refines a known tag
  by an asserted one and never climbs above the known tag.
-/
namespace DivisorCheck

/-- What the analysis knows about an integer. -/
inductive Tag where
  | bottom
  | zero
  | nonZero
  | top
deriving DecidableEq, Repr, Inhabited

namespace Tag

/-- The integers that a tag describes. -/
def Holds : Tag → Int → Prop
  | bottom, _ => False
  | zero, n => n = 0
  | nonZero, n => n ≠ 0
  | top, _ => True

/-- The least tag that describes `n`. -/
def ofInt (n : Int) : Tag := if n = 0 then zero else nonZero

/-! ### Order and bounds -/

/-- Least upper bound. -/
def join : Tag → Tag → Tag
  | bottom, b => b
  | a, bottom => a
  | zero, zero => zero
  | nonZero, nonZero => nonZero
  | _, _ => top

/-- Greatest lower bound. -/
def meet : Tag → Tag → Tag
  | top, b => b
  | a, top => a
  | zero, zero => zero
  | nonZero, nonZero => nonZero
  | _, _ => bottom

/-- The order of the lattice, as a test. -/
def le : Tag → Tag → Bool
  | bottom, _ => true
  | _, top => true
  | a, b => a == b

/-- The least upper bound of a list; `bottom` for the empty one. -/
def joinAll (tags : List Tag) : Tag := tags.foldl join bottom

/-- Refines `old` by a tag that a branch condition asserts.  An unknown value takes the
asserted tag; a definite one keeps its tag, whether the assertion agrees or contradicts. -/
def narrow (old asserted : Tag) : Tag :=
  match old, asserted with
  | bottom, _ => bottom
  | top, a => a
  | o, top => o
  | o, a => if meet o a = bottom then o else a

/-- The tags that a divisor must not have. -/
def mayBeZero : Tag → Bool
  | zero | top => true
  | bottom | nonZero => false

/-! ### Spelling -/

/-- The mathematical symbol of a tag. -/
def symbol : Tag → String
  | bottom => "⊥"
  | zero => "0"
  | nonZero => "≠0"
  | top => "⊤"

/-- The name of a tag in reports and settings. -/
def name : Tag → String
  | bottom => "bottom"
  | zero => "zero"
  | nonZero => "non_zero"
  | top => "top"

instance : ToString Tag := ⟨name⟩

/-- The tags by every spelling that settings may use, blanks trimmed, letters lowered and
hyphens written as underscores beforehand. -/
def ofSpelling? : String → Option Tag
  | "bottom" | "⊥" | "unreachable" => some bottom
  | "zero" | "0" => some zero
  | "non_zero" | "nonzero" | "!=0" | "≠0" => some nonZero
  | "top" | "⊤" | "unknown" => some top
  | _ => none

/-! ### Laws of the order -/

theorem le_iff {a b : Tag} : le a b = true ↔ ∀ n, a.Holds n → b.Holds n := by
  constructor
  · cases a <;> cases b <;> simp_all [le, Holds]
  · intro h
    have h0 := h 0
    have h1 := h 1
    cases a <;> cases b <;> simp [le, Holds] at h0 h1 ⊢

theorem holds_ofInt (n : Int) : (ofInt n).Holds n := by
  unfold ofInt; split <;> simp_all [Holds]

theorem join_comm (a b : Tag) : join a b = join b a := by cases a <;> cases b <;> rfl

theorem join_assoc (a b c : Tag) : join (join a b) c = join a (join b c) := by
  cases a <;> cases b <;> cases c <;> rfl

@[simp] theorem join_self (a : Tag) : join a a = a := by cases a <;> rfl

@[simp] theorem join_top (a : Tag) : join a top = top := by cases a <;> rfl

@[simp] theorem top_join (a : Tag) : join top a = top := by cases a <;> rfl

theorem narrow_le (old asserted : Tag) : le (narrow old asserted) old = true := by
  cases old <;> cases asserted <;> rfl

end Tag

end DivisorCheck
