import Treemark.Node.Parser

/-!
# Errors of files

Why a file cannot be read or written, and what that means for a tree that was to be loaded and for
Markdown that was to be emitted.
-/

namespace Treemark

inductive FileError where
  | notFound
  | notDirectory
  | isDirectory
  | deviceFull
  | nameTooLong
  /-- A path with a NUL in it, which ends a path for the system. -/
  | nulInPath
  | notText
  | other (description : String)
  deriving DecidableEq, Repr

def FileError.message : FileError → String
  | notFound => "No such file or directory (os error 2)"
  | notDirectory => "Not a directory (os error 20)"
  | isDirectory => "Is a directory (os error 21)"
  | deviceFull => "No space left on device (os error 28)"
  | nameTooLong => "File name too long (os error 36)"
  | nulInPath => "file name contained an unexpected NUL byte"
  | notText => "stream did not contain valid UTF-8"
  | other description => description

inductive LoadError where
  | unreadable (path : String) (cause : FileError)
  | tree (error : TreeError)
  deriving DecidableEq, Repr

def LoadError.message : LoadError → String
  | unreadable path cause => "cannot read " ++ path ++ ": " ++ cause.message
  | tree error => error.message

def LoadError.causes (e : LoadError) : List String :=
  match e with
  | unreadable _ cause => [e.message, cause.message]
  | tree (.malformed fault) => [e.message, fault.message]
  | tree (.unknownKind _) => [e.message]

inductive SinkError where
  | cannotOpen (destination : String) (cause : FileError)
  | cannotWrite (destination : String) (cause : FileError)
  deriving DecidableEq, Repr

def SinkError.cause : SinkError → FileError
  | cannotOpen _ cause => cause
  | cannotWrite _ cause => cause

def SinkError.message : SinkError → String
  | cannotOpen destination _ => "Unable to open file: " ++ destination
  | cannotWrite destination _ => "Unable to write to " ++ destination

def SinkError.causes (e : SinkError) : List String := [e.message, e.cause.message]

def decodeText (bytes : ByteArray) : Except FileError String :=
  match String.fromUTF8? bytes with
  | some text => .ok text
  | none => .error .notText

def loadTree (path : String) (content : Except FileError ByteArray) : Except LoadError Node :=
  match content >>= decodeText with
  | .error cause => .error (.unreadable path cause)
  | .ok text => (Node.parse text).mapError .tree

end Treemark
