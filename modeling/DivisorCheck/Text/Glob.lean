/-
  Glob patterns for file names.

  `*` stands for any characters, slashes included, `?` for any one character, and
  a bracket for one character of a set, as in `[abc]` or `[a-z]`; with an
  exclamation mark in front, for any other.  A closing bracket that comes first is
  part of the set, a bracket that is never closed is an ordinary character, and so
  is everything else.

  Within a bracket a hyphen makes a range unless it is the first or the last
  character or an end of a range itself.  A range that would run backwards is
  dropped with both its ends.
-/
namespace DivisorCheck.Text

/-! ### Sets of characters -/

/-- A set of characters: those in some range, or all others. -/
structure CharSet where
  negated : Bool := false
  ranges : List (Char × Char) := []
deriving Repr, DecidableEq

namespace CharSet

/-- Is the character in the set? -/
def contains (s : CharSet) (c : Char) : Bool :=
  s.ranges.any (fun r => r.1 ≤ c && c ≤ r.2) != s.negated

/-- Every character. -/
def all : CharSet := { negated := true }

/-- One character. -/
def single (c : Char) : CharSet := { ranges := [(c, c)] }

end CharSet

/-! ### Brackets -/

/-- Cuts the inside of a bracket at the hyphens that make ranges.  `ends` is the number of
characters yet to come that may be ends of a range, and so no such hyphens. -/
def rangeParts (ends : Nat) : List Char → List (List Char)
  | [] => [[]]
  | c :: rest =>
    if c = '-' ∧ ends = 0 then [] :: rangeParts 2 rest
    else match rangeParts (ends - 1) rest with
      | part :: parts => (c :: part) :: parts
      | [] => [[c]]

/-- Gives a last hyphen, after which nothing comes, back to the part before it. -/
def keepLastHyphen : List (List Char) → List (List Char)
  | [] => []
  | [part, []] => [part ++ ['-']]
  | part :: parts => part :: keepLastHyphen parts

/-- Does the range from the end of one part to the start of the next run backwards? -/
def isBackwards (a b : List Char) : Bool :=
  match a.getLast?, b.head? with
  | some lo, some hi => hi < lo
  | _, _ => false

/-- Drops the ranges that run backwards, with both their ends. -/
def dropBackwards : List (List Char) → List (List Char)
  | [] => []
  | part :: parts =>
    match dropBackwards parts with
    | [] => [part]
    | next :: more =>
      if isBackwards part next then (part.dropLast ++ next.drop 1) :: more
      else part :: next :: more

/-- The characters of all parts, and the ranges between each part and the next.  A part without
characters starts no range, and the hyphen after it stands for itself. -/
def rangesOf : List (List Char) → List (Char × Char)
  | [] => []
  | part :: parts =>
    let between := match part.getLast?, parts with
      | _, [] => []
      | none, _ => [('-', '-')]
      | some lo, next :: _ => (next.head?.map (fun hi => (lo, hi))).toList
    part.map (fun c => (c, c)) ++ between ++ rangesOf parts

/-- The set that a bracket stands for, given what is inside. -/
def bracketSet (inside : List Char) : CharSet :=
  let ends := if inside.head? = some '!' then 2 else 1
  match dropBackwards (keepLastHyphen (rangeParts ends inside)) with
  | ('!' :: part) :: parts => { negated := true, ranges := rangesOf (part :: parts) }
  | parts => { ranges := rangesOf parts }

/-- What comes before the first closing bracket, if there is one. -/
def beforeClose? : List Char → Option (List Char)
  | [] => none
  | c :: rest => if c = ']' then some [] else (beforeClose? rest).map (c :: ·)

/-- The inside of a bracket, given what comes after it opens. -/
def bracketInside? : List Char → Option (List Char)
  | '!' :: ']' :: rest => (beforeClose? rest).map (fun cs => '!' :: ']' :: cs)
  | ']' :: rest => (beforeClose? rest).map (']' :: ·)
  | rest => beforeClose? rest

/-! ### Patterns -/

/-- A piece of a pattern: any characters, or one of a set. -/
inductive GlobPiece where
  | star
  | one (set : CharSet)
deriving Repr, DecidableEq

/-- The pieces of a pattern, after leaving out some characters. -/
def globPieces : Nat → List Char → List GlobPiece
  | _, [] => []
  | skip + 1, _ :: rest => globPieces skip rest
  | 0, c :: rest =>
    if c = '*' then .star :: globPieces 0 rest
    else if c = '?' then .one .all :: globPieces 0 rest
    else if c = '[' then
      match bracketInside? rest with
      | some inside => .one (bracketSet inside) :: globPieces (inside.length + 1) rest
      | none => .one (.single c) :: globPieces 0 rest
    else .one (.single c) :: globPieces 0 rest

/-- Does the test hold of some end of the text, the whole included? -/
def anySuffix (test : List Char → Bool) : List Char → Bool
  | [] => test []
  | c :: rest => test (c :: rest) || anySuffix test rest

/-- Do the pieces together make up the whole text? -/
def piecesMatch : List GlobPiece → List Char → Bool
  | [], cs => cs.isEmpty
  | .star :: pieces, cs => anySuffix (piecesMatch pieces) cs
  | .one _ :: _, [] => false
  | .one set :: pieces, c :: cs => set.contains c && piecesMatch pieces cs

theorem anySuffix_iff (test : List Char → Bool) (cs : List Char) :
    anySuffix test cs = true ↔ ∃ front back, cs = front ++ back ∧ test back = true := by
  induction cs with
  | nil =>
    constructor
    · intro h
      exact ⟨[], [], rfl, h⟩
    · rintro ⟨front, back, h, hb⟩
      rw [(List.append_eq_nil_iff.mp h.symm).2] at hb
      exact hb
  | cons c rest ih =>
    rw [anySuffix, Bool.or_eq_true, ih]
    constructor
    · rintro (h | ⟨front, back, rfl, h⟩)
      · exact ⟨[], c :: rest, rfl, h⟩
      · exact ⟨c :: front, back, rfl, h⟩
    · rintro ⟨front, back, h, hb⟩
      cases front with
      | nil => exact .inl (by rw [h]; exact hb)
      | cons d front =>
        rw [List.cons_append, List.cons.injEq] at h
        exact .inr ⟨front, back, h.2, hb⟩

/-- **A star stands for any characters:** it takes some front of the text, and the pieces after it
the rest. -/
theorem piecesMatch_star_iff (pieces : List GlobPiece) (cs : List Char) :
    piecesMatch (.star :: pieces) cs = true ↔
      ∃ front back, cs = front ++ back ∧ piecesMatch pieces back = true :=
  anySuffix_iff (piecesMatch pieces) cs

/-- Does the pattern match the whole text? -/
def globMatches (pattern text : String) : Bool :=
  piecesMatch (globPieces 0 pattern.toList) text.toList

end DivisorCheck.Text
