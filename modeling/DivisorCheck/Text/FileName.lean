/-
  File names: the extension of a path, and the short form in which messages show
  one.
-/
import DivisorCheck.Text.Parts

namespace DivisorCheck.Text

/-- What comes after the last slash of a path. -/
def baseName (path : List Char) : List Char := (path.reverse.takeWhile (· ≠ '/')).reverse

/-- The extension of a path, point included: what starts at the last point of the base name, save
that points at its front are part of the name. -/
def extension (path : List Char) : List Char :=
  let name := (baseName path).dropWhile (· = '.')
  if '.' ∈ name then '.' :: (name.reverse.takeWhile (· ≠ '.')).reverse else []

/-- The slashes at the front of the short form: two stay two, and any other number becomes one. -/
def rootOf : List Char → List Char
  | '/' :: '/' :: '/' :: _ => ['/']
  | '/' :: '/' :: _ => ['/', '/']
  | '/' :: _ => ['/']
  | _ => []

/-- The steps of a path: the parts between slashes that are neither empty nor a single point.  A
step up stays, for where it leads depends on the files. -/
def stepsOf (path : List Char) : List (List Char) :=
  (splitOn '/' path).filter (fun step => step ≠ [] ∧ step ≠ ['.'])

/-- The path with the given front and steps, a single point if it has neither. -/
def pathOf (root : List Char) (steps : List (List Char)) : List Char :=
  match root ++ joinWith '/' steps with
  | [] => ['.']
  | path => path

/-- The short form of a path: without empty steps, steps in place and a slash at the end. -/
def shortPath (path : String) : String :=
  let cs := path.toList
  String.ofList (pathOf (rootOf cs) (stepsOf cs))

/-- The short form of a path with a first step `~` or `~user` replaced by the home directory;
`none` if there is no such user. -/
def expandHome (home : String → Option String) (path : String) : Option String :=
  let cs := path.toList
  match rootOf cs, stepsOf cs with
  | [], first :: steps =>
    match first with
    | '~' :: user =>
      (home (String.ofList user)).map (fun dir =>
        let dir := dir.toList
        String.ofList (pathOf (rootOf dir) (stepsOf dir ++ steps)))
    | _ => some (shortPath path)
  | _, _ => some (shortPath path)

end DivisorCheck.Text
