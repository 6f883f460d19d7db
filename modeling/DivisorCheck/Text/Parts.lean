/-
  Text in parts: cutting at every occurrence of a character, and joining again.
-/
namespace DivisorCheck.Text

/-- The parts between the occurrences of a character; there is always at least one. -/
def splitOn (sep : Char) : List Char → List (List Char)
  | [] => [[]]
  | c :: rest =>
    if c = sep then [] :: splitOn sep rest
    else match splitOn sep rest with
      | part :: parts => (c :: part) :: parts
      | [] => [[c]]

/-- The parts with a character between them. -/
def joinWith (sep : Char) : List (List Char) → List Char
  | [] => []
  | [part] => part
  | part :: parts => part ++ sep :: joinWith sep parts

theorem splitOn_ne_nil (sep : Char) (cs : List Char) : splitOn sep cs ≠ [] := by
  cases cs with
  | nil => simp [splitOn]
  | cons c rest =>
    simp only [splitOn]
    split
    · simp
    · split <;> simp

/-- **Cutting loses nothing:** the parts join to the text that was cut. -/
theorem joinWith_splitOn (sep : Char) (cs : List Char) : joinWith sep (splitOn sep cs) = cs := by
  induction cs with
  | nil => rfl
  | cons c rest ih =>
    have hne := splitOn_ne_nil sep rest
    by_cases h : c = sep
    · cases hs : splitOn sep rest with
      | nil => exact absurd hs hne
      | cons part parts => rw [hs] at ih; simp [splitOn, h, hs, joinWith, ih]
    · cases hs : splitOn sep rest with
      | nil => exact absurd hs hne
      | cons part parts =>
        rw [hs] at ih
        cases parts with
        | nil => simpa [splitOn, h, hs, joinWith] using ih
        | cons q qs => simpa [splitOn, h, hs, joinWith] using ih

end DivisorCheck.Text
