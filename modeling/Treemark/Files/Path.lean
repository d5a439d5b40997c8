import Treemark.Files.Error

/-!
# File paths

The text of a path, taken apart at its slashes. Some texts lead nowhere, whatever files there are.
-/

namespace Treemark

def splitSlashes : List Char → List (List Char)
  | [] => [[]]
  | c :: s =>
    if c = '/' then [] :: splitSlashes s
    else
      match splitSlashes s with
      | [] => [[c]]
      | name :: names => (c :: name) :: names

/-- A path that is not empty. -/
structure FilePath where
  absolute : Bool
  /-- The names on the way; several slashes in a row are as good as one. -/
  names : List String
  /-- Whether the path ends in a slash, as only the path of a directory may. -/
  slash : Bool
  deriving DecidableEq, Repr

namespace FilePath

def maxBytes : Nat := 4095

def maxNameBytes : Nat := 255

/-- The path of a text. A NUL is reported before any other reason why a text is no path. How long the
names are does not matter here: a name that is too long fails only when it is looked up. -/
def ofString (s : String) : Except FileError FilePath :=
  let chars := s.toList
  if '\x00' ∈ chars then .error .nulInPath
  else if chars = [] then .error .notFound
  else if maxBytes < s.utf8ByteSize then .error .nameTooLong
  else
    .ok
      { absolute := chars.head? = some '/'
        names := ((splitSlashes chars).filter (· ≠ [])).map String.ofList
        slash := chars.getLast? = some '/' }

end FilePath

end Treemark
