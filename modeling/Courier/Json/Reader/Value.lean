import Courier.Json.Reader.Container

/-! Reading any JSON value. -/
namespace Courier.Json.Reader

/-- Lists and objects may be nested this deep. -/
def maxDepth : Nat := 127

/-- A value that is neither list nor object, whose first byte `b` is still to be read. -/
def scalar (b : UInt8) : Reader Json :=
  if b == 0x6E then do eat; word [0x75, 0x6C, 0x6C]; pure .null
  else if b == 0x74 then do eat; word [0x72, 0x75, 0x65]; pure (.bool true)
  else if b == 0x66 then do eat; word [0x61, 0x6C, 0x73, 0x65]; pure (.bool false)
  else if b == 0x2D then do eat; .num <$> number false
  else if isDigit b then .num <$> number true
  else if b == 0x22 then do eat; .str <$> string
  else failAhead .expectedValue

/-- A value in which `levels` more containers may be opened. -/
def value (levels : Nat) : Reader Json := anchored do
  match ← peekToken with
  | none => failAhead .endInValue
  | some b =>
    if b == 0x5B then
      match levels with
      | 0 => failAhead .tooDeep
      | levels + 1 => do
        eat
        closing (.arr <$> allItems (value levels)) endList
    else if b == 0x7B then
      match levels with
      | 0 => failAhead .tooDeep
      | levels + 1 => do
        eat
        closing (ofMembers <$> allMembers (value levels)) endObject
    else scalar b

end Courier.Json.Reader

namespace Courier.Json

def parse (text : Bytes) : Except Failure Json := readAll (Reader.value Reader.maxDepth) text

end Courier.Json
