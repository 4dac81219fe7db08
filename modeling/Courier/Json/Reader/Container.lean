import Courier.Json.Reader.Number
import Courier.Json.Reader.Text

/-! Reading the brackets, commas and names of lists and objects. -/
namespace Courier.Json.Reader

/-- Whether another item follows; the comma before it is read. -/
def nextItem (first : Bool) : Reader Bool := do
  match ← peekToken with
  | none => failAhead .endInList
  | some b =>
    if b == 0x5D then pure false
    else if first then pure true
    else if b == 0x2C then do
      eat
      match ← peekToken with
      | none => failAhead .endInValue
      | some 0x5D => failAhead .trailingComma
      | some _ => pure true
    else failAhead .expectedListEnd

/-- The name of the next member, if there is one; the colon is left for the value. -/
def nextName (first : Bool) : Reader (Option String) := do
  match ← peekToken with
  | none => failAhead .endInObject
  | some b =>
    if b == 0x7D then pure none
    else if first then
      if b == 0x22 then some <$> name else failAhead .nameNotString
    else if b == 0x2C then do
      eat
      match ← peekToken with
      | none => failAhead .endInValue
      | some 0x22 => some <$> name
      | some 0x7D => failAhead .trailingComma
      | some _ => failAhead .nameNotString
    else failAhead .expectedObjectEnd
where
  name : Reader String := do
    eat
    string

def colon : Reader Unit := do
  match ← peekToken with
  | none => failAhead .endInObject
  | some 0x3A => eat
  | some _ => failAhead .expectedColon

def endList : Reader Unit := do
  match ← peekToken with
  | none => failAhead .endInList
  | some 0x5D => eat
  | some 0x2C => do
    eat
    match ← peekToken with
    | some 0x5D => failAhead .trailingComma
    | _ => failAhead .trailingCharacters
  | some _ => failAhead .trailingCharacters

def endObject : Reader Unit := do
  match ← peekToken with
  | none => failAhead .endInObject
  | some 0x7D => eat
  | some 0x2C => failAhead .trailingComma
  | some _ => failAhead .trailingCharacters

/-- What a reader may still do inside containers: `levels` more of them may be opened. -/
def opened (levels : Nat) (body : Nat → Reader α) (close : Reader Unit) : Reader α :=
  match levels with
  | 0 => failAhead .tooDeep
  | levels + 1 => do
    eat
    closing (body levels) close

/-- Reads items until the list ends. Every item takes at least one byte. -/
def items (item : Reader α) (first : Bool) : Nat → Reader (List α)
  | 0 => fail .endInList
  | steps + 1 => do
    if ← nextItem first then do
      let a ← item
      let more ← items item false steps
      pure (a :: more)
    else pure []

def members (value : Reader α) (first : Bool) : Nat → Reader (List (String × α))
  | 0 => fail .endInObject
  | steps + 1 => do
    match ← nextName first with
    | none => pure []
    | some name => do
      colon
      let a ← value
      let more ← members value false steps
      pure ((name, a) :: more)

def allItems (item : Reader α) : Reader (List α) := do
  items item true ((← remaining) + 1)

def allMembers (value : Reader α) : Reader (List (String × α)) := do
  members value true ((← remaining) + 1)

end Courier.Json.Reader
