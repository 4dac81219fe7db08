import Courier.Json.Reader.Number
import Courier.Json.Reader.Text

/-! Reading past a value that nobody asked for. Its syntax is checked, but neither its depth nor
the size of its numbers nor what its strings spell. -/
namespace Courier.Json.Reader

inductive Frame where
  | list
  | object

def Frame.close : Frame → UInt8
  | .list => 0x5D
  | .object => 0x7D

def skipExponent : Reader Unit := do
  eat
  match ← peek with
  | some b => if b == 0x2B || b == 0x2D then eat
  | none => pure ()
  match ← next with
  | some b => if isDigit b then let _ ← skipDigits else fail .invalidNumber
  | none => fail .invalidNumber

def skipFraction : Reader Unit := do
  eat
  if (← skipDigits) = 0 then failAhead .invalidNumber
  match ← peek with
  | some b => if isExponentMark b then skipExponent
  | none => pure ()

def skipNumber : Reader Unit := do
  match ← next with
  | some b =>
    if b == 0x30 then
      match ← peek with
      | some d => if isDigit d then failAhead .invalidNumber
      | none => pure ()
    else if isDigit b then let _ ← skipDigits
    else fail .invalidNumber
  | none => fail .invalidNumber
  match ← peek with
  | some b =>
    if b == 0x2E then skipFraction
    else if isExponentMark b then skipExponent
  | none => pure ()

def skipText : Reader Unit := do
  skipString ((← remaining) + 1)

/-- Reads past the start of a value: all of it, or the bracket that opens it. -/
def skipStart : Reader (Option Frame) := do
  match ← peekToken with
  | none => failAhead .endInValue
  | some b =>
    if b == 0x6E then do eat; word [0x75, 0x6C, 0x6C]; pure none
    else if b == 0x74 then do eat; word [0x72, 0x75, 0x65]; pure none
    else if b == 0x66 then do eat; word [0x61, 0x6C, 0x73, 0x65]; pure none
    else if b == 0x2D then do eat; skipNumber; pure none
    else if isDigit b then do skipNumber; pure none
    else if b == 0x22 then do eat; skipText; pure none
    else if b == 0x5B then do eat; pure (some .list)
    else if b == 0x7B then do eat; pure (some .object)
    else failAhead .expectedValue

/-- Inside an object a name and a colon come before the value. -/
def skipName (frame : Frame) : Reader Unit :=
  match frame with
  | .list => pure ()
  | .object => do
    match ← peekToken with
    | some 0x22 => eat
    | some _ => failAhead .nameNotString
    | none => failAhead .endInObject
    skipText
    match ← peekToken with
    | some 0x3A => eat
    | some _ => failAhead .expectedColon
    | none => failAhead .endInObject

/-- Closes containers until another value has to come. `comma` says that a value went before in
the innermost one. Answers the containers still open. -/
def skipEnd (comma : Bool) : List Frame → Reader (List Frame)
  | [] => pure []
  | frame :: outer => do
    match ← peekToken with
    | none => failAhead (match frame with | .list => .endInList | .object => .endInObject)
    | some b =>
      if b == 0x2C && comma then do
        eat
        skipName frame
        pure (frame :: outer)
      else if b == frame.close then do
        eat
        skipEnd true outer
      else if comma then
        failAhead (match frame with | .list => .expectedListEnd | .object => .expectedObjectEnd)
      else do
        skipName frame
        pure (frame :: outer)

/-- Every round reads at least one byte. -/
def skipRounds (stack : List Frame) : Nat → Reader Unit
  | 0 => fail .endInValue
  | steps + 1 => do
    let stack ← match ← skipStart with
      | some frame => skipEnd false (frame :: stack)
      | none => skipEnd true stack
    if stack.isEmpty then pure () else skipRounds stack steps

def skipValue : Reader Unit := do
  skipRounds [] ((← remaining) + 1)

end Courier.Json.Reader
