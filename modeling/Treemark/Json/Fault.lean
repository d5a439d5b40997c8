import Treemark.Text.Visible

/-!
# What can be wrong with the text of a tree

A tree is read in one pass, and the first fault in text order ends it. Faults are of three categories:
the text breaks the grammar, it does not describe a node, or it ends too early.
-/

namespace Treemark.Json

inductive Bracket where
  | list
  | object
  deriving DecidableEq, Repr

def Bracket.closing : Bracket → Char
  | list => ']'
  | object => '}'

/-- The members of a node that mean something; members of other names are skipped. -/
inductive Field where
  | kind
  | text
  | attributes
  | children
  deriving DecidableEq, Repr

def Field.name : Field → String
  | kind => "kind"
  | text => "text"
  | attributes => "attributes"
  | children => "children"

def Field.all : List Field := [kind, text, attributes, children]

def Field.ofName? (s : String) : Option Field := all.find? fun f => f.name = s

inductive Wanted where
  | string
  | sequence
  | node
  deriving DecidableEq, Repr

inductive Found where
  | null
  | boolean (b : Bool)
  | integer (i : Int)
  /-- A number that is no integer of 64 bits, by the shortest decimal that reads back as it. -/
  | real (shortest : String)
  | string (s : String)
  | sequence
  | map
  deriving DecidableEq, Repr

inductive Fault where
  | endOfValue
  | endOfString
  | endOfBracket (b : Bracket)
  | valueExpected
  | wordExpected
  | colonExpected
  | separatorExpected (b : Bracket)
  | keyExpected
  | trailingComma
  | trailingCharacters
  | invalidNumber
  | numberOutOfRange
  | invalidEscape
  | controlCharacter
  | loneSurrogate
  | brokenPair
  | tooDeep
  | wrongType (found : Found) (wanted : Wanted)
  | emptyNode
  | repeatedField (field : Field)
  | missingKind
  deriving DecidableEq, Repr

inductive Category where
  | grammar
  | data
  | endOfText
  deriving DecidableEq, Repr

def Category.name : Category → String
  | grammar => "syntax"
  | data => "data"
  | endOfText => "eof"

def Fault.category : Fault → Category
  | endOfValue | endOfString | endOfBracket _ => .endOfText
  | wrongType .. | emptyNode | repeatedField _ | missingKind => .data
  | _ => .grammar

def Wanted.describe : Wanted → String
  | string => "a string"
  | sequence => "a sequence"
  | node => "struct RawNode"

def Found.describe : Found → String
  | null => "null"
  | boolean true => "boolean `true`"
  | boolean false => "boolean `false`"
  | integer i => "integer `" ++ toString i ++ "`"
  | real shortest => "floating point `" ++ shortest ++ "`"
  | string s => "string " ++ Text.visible s
  | sequence => "sequence"
  | map => "map"

def Fault.message : Fault → String
  | endOfValue => "EOF while parsing a value"
  | endOfString => "EOF while parsing a string"
  | endOfBracket .list => "EOF while parsing a list"
  | endOfBracket .object => "EOF while parsing an object"
  | valueExpected => "expected value"
  | wordExpected => "expected ident"
  | colonExpected => "expected `:`"
  | separatorExpected .list => "expected `,` or `]`"
  | separatorExpected .object => "expected `,` or `\x7d`"
  | keyExpected => "key must be a string"
  | trailingComma => "trailing comma"
  | trailingCharacters => "trailing characters"
  | invalidNumber => "invalid number"
  | numberOutOfRange => "number out of range"
  | invalidEscape => "invalid escape"
  | controlCharacter => "control character (\\u0000-\\u001F) found while parsing a string"
  | loneSurrogate => "lone leading surrogate in hex escape"
  | brokenPair => "unexpected end of hex escape"
  | tooDeep => "recursion limit exceeded"
  | wrongType found wanted => "invalid type: " ++ found.describe ++ ", expected " ++ wanted.describe
  | emptyNode => "invalid length 0, expected struct RawNode with 4 elements"
  | repeatedField field => "duplicate field `" ++ field.name ++ "`"
  | missingKind => "missing field `kind`"

end Treemark.Json
