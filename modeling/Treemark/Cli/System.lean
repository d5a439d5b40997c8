import Treemark.Files.Tree

/-!
# The system below the program

What a run asks of the system, in any monad that brings the answers. A run in memory works on a file tree
and on the texts that it has put out.
-/

namespace Treemark.Cli

structure System (m : Type → Type) where
  read (path : String) : m (Except FileError ByteArray)
  /-- Puts text on the standard output. -/
  print (text : String) : m (Except FileError Unit)
  emit (content destination : String) : m (Except SinkError Unit)
  /-- Puts text on the standard error. -/
  tell (text : String) : m Unit

structure Memory where
  files : FileTree
  stdout : String := ""
  stderr : String := ""

/-- Prints to a standard output that may be on a full device. -/
def print (full : Bool) (text : String) : Except FileError Unit :=
  if full ∧ text ≠ "" then .error .deviceFull else .ok ()

def System.inMemory (full : Bool) : System (StateM Memory) where
  read path w := (w.files.read path, w)
  print text w :=
    match Cli.print full text with
    | .error e => (.error e, w)
    | .ok () => (.ok (), { w with stdout := w.stdout ++ text })
  emit content destination w :=
    match w.files.emit content destination with
    | .error e => (.error e, w)
    | .ok t => (.ok (), { w with files := t })
  tell text w := ((), { w with stderr := w.stderr ++ text })

end Treemark.Cli
