import Courier.Json.Printer
import Courier.Text.Quoted

/-! Reading JSON from bytes: the cursor, what can go wrong, and where.

A failing reader leaves the cursor where it stopped, since the place of a failure that says only
what was wrong is the place at which the surrounding value was given up. -/
namespace Courier.Json

inductive Found where
  | null
  | bool (b : Bool)
  | number (n : Number)
  | string (s : String)
  | list
  | object

def Found.describe : Found → String
  | .null => "null"
  | .bool b => "boolean `" ++ (if b then "true" else "false") ++ "`"
  | .number (.int n) => "integer `" ++ String.ofList (printInt n) ++ "`"
  | .number (.float x) => "floating point `" ++ Decimal.write floatStyle x ++ "`"
  | .string s => "string " ++ Text.quoted s
  | .list => "sequence"
  | .object => "map"

inductive Cause where
  | endInValue
  | endInString
  | endInList
  | endInObject
  | expectedColon
  | expectedListEnd
  | expectedObjectEnd
  | expectedWord
  | expectedValue
  | invalidEscape
  | invalidNumber
  | numberOutOfRange
  | invalidCodePoint
  | controlCharacter
  | nameNotString
  | loneSurrogate
  | unfinishedSurrogate
  | trailingComma
  | trailingCharacters
  | tooDeep
  | wrongType (found : Found) (expected : String)
  | outOfRange (n : Int) (expected : String)
  | wrongLength (length : Nat) (expected : String)
  | missingField (name : String)
  | duplicateField (name : String)

def Cause.message : Cause → String
  | .endInValue => "EOF while parsing a value"
  | .endInString => "EOF while parsing a string"
  | .endInList => "EOF while parsing a list"
  | .endInObject => "EOF while parsing an object"
  | .expectedColon => "expected `:`"
  | .expectedListEnd => "expected `,` or `]`"
  | .expectedObjectEnd => "expected `,` or `\x7d`"
  | .expectedWord => "expected ident"
  | .expectedValue => "expected value"
  | .invalidEscape => "invalid escape"
  | .invalidNumber => "invalid number"
  | .numberOutOfRange => "number out of range"
  | .invalidCodePoint => "invalid unicode code point"
  | .controlCharacter => "control character (\\u0000-\\u001F) found while parsing a string"
  | .nameNotString => "key must be a string"
  | .loneSurrogate => "lone leading surrogate in hex escape"
  | .unfinishedSurrogate => "unexpected end of hex escape"
  | .trailingComma => "trailing comma"
  | .trailingCharacters => "trailing characters"
  | .tooDeep => "recursion limit exceeded"
  | .wrongType found expected => "invalid type: " ++ found.describe ++ ", expected " ++ expected
  | .outOfRange n expected =>
    "invalid value: integer `" ++ String.ofList (printInt n) ++ "`, expected " ++ expected
  | .wrongLength length expected =>
    "invalid length " ++ toString length ++ ", expected " ++ expected
  | .missingField name => "missing field `" ++ name ++ "`"
  | .duplicateField name => "duplicate field `" ++ name ++ "`"

/-- A cause, with the number of bytes read when it was found, if it is known already. -/
structure Failure where
  cause : Cause
  index : Option Nat

/-- What is left to read, and how much has been read. -/
structure Cursor where
  rest : Bytes
  index : Nat

abbrev Reader := ExceptT Failure (StateM Cursor)

namespace Reader

/-- The byte just read is at fault. -/
def fail (cause : Cause) : Reader α := fun c => (.error ⟨cause, some c.index⟩, c)

/-- The byte to be read next is at fault, or the end of the text. -/
def failAhead (cause : Cause) : Reader α := fun c =>
  (.error ⟨cause, some (if c.rest.isEmpty then c.index else c.index + 1)⟩, c)

/-- The value being read is at fault; it is placed by the reader around it. -/
def reject (cause : Cause) : Reader α := fun c => (.error ⟨cause, none⟩, c)

/-- A failure of `r` without a place is placed where `r` stopped. -/
def anchored (r : Reader α) : Reader α := fun c =>
  match r c with
  | (.ok a, c) => (.ok a, c)
  | (.error e, c) => (.error ⟨e.cause, some (e.index.getD c.index)⟩, c)

def peek : Reader (Option UInt8) := fun c => (.ok c.rest.head?, c)

def next : Reader (Option UInt8) := fun c =>
  match c.rest with
  | [] => (.ok none, c)
  | b :: rest => (.ok (some b), ⟨rest, c.index + 1⟩)

def eat : Reader Unit := fun c => (.ok (), ⟨c.rest.tail, c.index + 1⟩)

def remaining : Reader Nat := fun c => (.ok c.rest.length, c)

def isBlankByte (b : UInt8) : Bool := b == 0x20 || b == 0x0A || b == 0x09 || b == 0x0D

def skipBlanks : Reader Unit := fun c =>
  let rest := c.rest.dropWhile isBlankByte
  (.ok (), ⟨rest, c.index + (c.rest.length - rest.length)⟩)

/-- The first byte after blanks, not yet read. -/
def peekToken : Reader (Option UInt8) := do
  skipBlanks
  peek

/-- Reads `body`, then `close`. A failure of `body` is the one reported, but `close` still
moves the cursor on. -/
def closing (body : Reader α) (close : Reader Unit) : Reader α := fun c =>
  match body c with
  | (.ok a, c) =>
    match close c with
    | (.ok (), c) => (.ok a, c)
    | (.error e, c) => (.error e, c)
  | (.error e, c) => (.error e, (close c).2)

def word : Bytes → Reader Unit
  | [] => pure ()
  | b :: rest => do
    match ← next with
    | none => fail .endInValue
    | some c => if c == b then word rest else fail .expectedWord

end Reader

/-- Line, from one, and column of the place before which `index` bytes of `text` stand. -/
def place (text : Bytes) (index : Nat) : Nat × Nat :=
  let before := text.take index
  (before.count 0x0A + 1, (before.reverse.takeWhile (· != 0x0A)).length)

/-- The failure in words, with its place in `text`. -/
def Failure.message (text : Bytes) (f : Failure) : String :=
  match f.index with
  | none => f.cause.message
  | some index =>
    let (line, column) := place text index
    f.cause.message ++ " at line " ++ toString line ++ " column " ++ toString column

/-- Reads the whole of `text`: after the value nothing but blanks may follow. -/
def readAll (r : Reader α) (text : Bytes) : Except Failure α :=
  (do
    let a ← r
    match ← Reader.peekToken with
    | none => pure a
    | some _ => Reader.failAhead .trailingCharacters : Reader α) ⟨text, 0⟩ |>.1

end Courier.Json
