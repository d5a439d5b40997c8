import Treemark.Files.Path

/-!
# File trees

Directories and files by their position below the root. Paths lead to positions: relative ones from the
working directory, `.` staying and `..` going up. Every name on the way must be a directory. The names are
looked up one after the other, and the first one that cannot be passed is the cause of a failure.
-/

namespace Treemark

/-- The names from the root down to a directory or a file. -/
abbrev Position := List String

inductive Entry where
  | directory
  | file (content : ByteArray)
  /-- A device on which only nothing can be written. -/
  | fullDevice

structure FileTree where
  entries : List (Position × Entry)
  home : Position

/-- Where a path leads: to a name in a directory, which has not been looked up yet. -/
structure Located where
  directory : Position
  name : String
  slash : Bool

namespace FileTree

def fresh : FileTree where
  entries :=
    [([], .directory), (["dev"], .directory), (["dev", "full"], .fullDevice), (["work"], .directory)]
  home := ["work"]

def find? (t : FileTree) (p : Position) : Option Entry := t.entries.lookup p

def insert (t : FileTree) (p : Position) (e : Entry) : FileTree :=
  { t with entries := (p, e) :: t.entries.filter fun q => q.1 ≠ p }

/-- The two names that lead from a directory to a directory without naming one. -/
def isDots (name : String) : Bool := name = "." || name = ".."

/-- Where a name leads from a directory, whatever is there. -/
def child (dir : Position) (name : String) : Position :=
  if name = "." then dir else if name = ".." then dir.dropLast else dir ++ [name]

def look (t : FileTree) (dir : Position) (name : String) : Except FileError (Option Entry) :=
  if isDots name then .ok (some .directory)
  else if FilePath.maxNameBytes < name.utf8ByteSize then .error .nameTooLong
  else .ok (t.find? (child dir name))

def walk (t : FileTree) (dir : Position) : List String → Except FileError Position
  | [] => .ok dir
  | name :: names =>
    match t.look dir name with
    | .error e => .error e
    | .ok none => .error .notFound
    | .ok (some .directory) => t.walk (child dir name) names
    | .ok (some _) => .error .notDirectory

def start (t : FileTree) (path : FilePath) : Position := if path.absolute then [] else t.home

/-- Where a path leads, which is known once the names before the last one are passed. A path without names
leads to the directory where it starts. -/
def locate (t : FileTree) (path : String) : Except FileError Located :=
  match FilePath.ofString path with
  | .error e => .error e
  | .ok path =>
    match t.walk (t.start path) path.names.dropLast with
    | .error e => .error e
    | .ok directory =>
      .ok { directory, name := path.names.getLast?.getD ".", slash := path.slash }

def lookAt (t : FileTree) (l : Located) : Except FileError (Option Entry) := t.look l.directory l.name

/-- The content of a file. The full device reads as an empty file here, which is short of the truth: the
system never comes to the end of reading it. -/
def read (t : FileTree) (path : String) : Except FileError ByteArray :=
  match t.locate path with
  | .error e => .error e
  | .ok l =>
    match t.lookAt l with
    | .error e => .error e
    | .ok none => .error .notFound
    | .ok (some .directory) => .error .isDirectory
    | .ok (some (.file content)) => if l.slash then .error .notDirectory else .ok content
    | .ok (some .fullDevice) => if l.slash then .error .notDirectory else .ok .empty

/-- The position of the file at a path that is opened to be written anew, or that does not exist yet. A
path that claims to lead to a directory is refused before its last name is looked up. -/
def create (t : FileTree) (path : String) : Except FileError Position :=
  match t.locate path with
  | .error e => .error e
  | .ok l =>
    if l.slash then .error .isDirectory
    else
      match t.lookAt l with
      | .error e => .error e
      | .ok (some .directory) => .error .isDirectory
      | .ok _ => .ok (child l.directory l.name)

def write (t : FileTree) (p : Position) (content : ByteArray) : Except FileError FileTree :=
  match t.find? p with
  | some .fullDevice => if content.isEmpty then .ok t else .error .deviceFull
  | _ => .ok (t.insert p (.file content))

def emit (t : FileTree) (content destination : String) : Except SinkError FileTree :=
  match t.create destination with
  | .error cause => .error (.cannotOpen destination cause)
  | .ok p =>
    match t.write p content.toUTF8 with
    | .error cause => .error (.cannotWrite destination cause)
    | .ok t => .ok t

def load (t : FileTree) (path : String) : Except LoadError Node := loadTree path (t.read path)

def readText? (t : FileTree) (path : String) : Option String :=
  match t.read path >>= decodeText with
  | .ok text => some text
  | .error _ => none

/-- Puts a file at a path; where that is not possible nothing happens. -/
def put (t : FileTree) (path : String) (content : ByteArray) : FileTree :=
  match t.create path with
  | .error _ => t
  | .ok p =>
    match t.write p content with
    | .error _ => t
    | .ok t => t

/-- Makes directories on the way from a directory, as far as no file and no name is in the way. -/
def makeDirectoriesFrom (t : FileTree) (dir : Position) : List String → FileTree
  | [] => t
  | name :: names =>
    match t.look dir name with
    | .ok none => (t.insert (child dir name) .directory).makeDirectoriesFrom (child dir name) names
    | .ok (some .directory) => t.makeDirectoriesFrom (child dir name) names
    | _ => t

def makeDirectories (t : FileTree) (path : String) : FileTree :=
  match FilePath.ofString path with
  | .error _ => t
  | .ok path => t.makeDirectoriesFrom (t.start path) path.names

end FileTree

end Treemark
