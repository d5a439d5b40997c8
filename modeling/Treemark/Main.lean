import Treemark.Cli.Convert

/-!
# The program

The operations of the real system. What is asked of them, and in which order, is decided by the library
alone.
-/

namespace Treemark.Cli

def systemCause : IO.Error → FileError
  | .noFileOrDirectory .. => .notFound
  | .inappropriateType _ 20 _ => .notDirectory
  | .inappropriateType .. => .isDirectory
  | .invalidArgument _ 36 _ => .nameTooLong
  | .resourceExhausted .. => .deviceFull
  | e => .other (toString e)

def attempt {α : Type} (action : IO α) : IO (Except FileError α) := do
  try
    return .ok (← action)
  catch e =>
    return .error (systemCause e)

/-- The system that the program really runs on. -/
def System.real : System IO where
  read path := attempt (IO.FS.readBinFile path)
  print text := attempt do
    let stdout ← IO.getStdout
    stdout.putStr text
    stdout.flush
  emit content destination := do
    match ← attempt (IO.FS.Handle.mk destination .write) with
    | .error cause => return .error (.cannotOpen destination cause)
    | .ok handle =>
      let written ← attempt do
        handle.write content.toUTF8
        handle.flush
      return written.mapError (.cannotWrite destination)
  tell text := IO.eprint text

end Treemark.Cli

open Treemark.Cli in
def main (args : List String) : IO UInt32 := do
  let exit ← System.real.perform args (← IO.getEnv "RUST_LOG")
  return exit.toUInt32
