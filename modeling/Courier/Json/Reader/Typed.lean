import Courier.Json.Reader.Skip
import Courier.Json.Reader.Value

/-! Reading JSON values of a known type. A value of another type is refused with both named; its
syntax is read first where it is short, so a fault in it comes before the refusal. -/
namespace Courier.Json.Reader

def mismatch (expected : String) : Reader α := do
  match ← peek with
  | none => failAhead .endInValue
  | some b =>
    if b == 0x5B then reject (.wrongType .list expected)
    else if b == 0x7B then reject (.wrongType .object expected)
    else
      match ← scalar b with
      | .null => reject (.wrongType .null expected)
      | .bool b => reject (.wrongType (.bool b) expected)
      | .num n => reject (.wrongType (.number n) expected)
      | .str s => reject (.wrongType (.string s) expected)
      | .arr _ => reject (.wrongType .list expected)
      | .obj _ => reject (.wrongType .object expected)

/-- Integers between two bounds, under the name messages use for them. -/
structure Range where
  low : Int
  high : Int
  name : String

def Range.u32 : Range := ⟨0, 0xFFFFFFFF, "u32"⟩
def Range.u64 : Range := ⟨0, 0xFFFFFFFFFFFFFFFF, "u64"⟩
def Range.i32 : Range := ⟨-0x80000000, 0x7FFFFFFF, "i32"⟩
def Range.i64 : Range := ⟨-0x8000000000000000, 0x7FFFFFFFFFFFFFFF, "i64"⟩

def integer (range : Range) : Reader Int := anchored do
  match ← peekToken with
  | none => failAhead .endInValue
  | some b =>
    if b == 0x2D then do
      eat
      accept (← number false)
    else if isDigit b then do accept (← number true)
    else mismatch range.name
where
  accept : Number → Reader Int
    | .int n =>
      if range.low ≤ n && n ≤ range.high then pure n else reject (.outOfRange n range.name)
    | .float x => reject (.wrongType (.number (.float x)) range.name)

def boolean : Reader Bool := anchored do
  match ← peekToken with
  | none => failAhead .endInValue
  | some b =>
    if b == 0x74 then do eat; word [0x72, 0x75, 0x65]; pure true
    else if b == 0x66 then do eat; word [0x61, 0x6C, 0x73, 0x65]; pure false
    else mismatch "a boolean"

def text : Reader String := anchored do
  match ← peekToken with
  | none => failAhead .endInValue
  | some b => if b == 0x22 then do eat; string else mismatch "a string"

def listOf (levels : Nat) (item : Nat → Reader α) : Reader (List α) := anchored do
  match ← peekToken with
  | none => failAhead .endInValue
  | some b =>
    if b == 0x5B then opened levels (fun levels => allItems (item levels)) endList
    else mismatch "a sequence"

/-- Null stands for no value. -/
def optional (value : Reader α) : Reader (Option α) := do
  match ← peekToken with
  | some 0x6E => do eat; word [0x75, 0x6C, 0x6C]; pure none
  | _ => some <$> value

/-- One field of a record that is read into `σ`, which holds the fields read so far. -/
structure Field (σ : Type) where
  name : String
  present : σ → Bool
  read : Nat → σ → Reader σ
  /-- A list may end before this field. -/
  optional : Bool

/-- A record: its fields in order, and the record made of them unless one is missing. -/
structure Record (σ α : Type) where
  name : String
  start : σ
  fields : List (Field σ)
  finish : σ → Except Cause α

namespace Record

variable {σ α : Type} (record : Record σ α)

def finished (s : σ) : Reader α :=
  match record.finish s with
  | .ok a => pure a
  | .error cause => reject cause

/-- Reads the members of an object. A name that is no field is passed over with its value. -/
def named (levels : Nat) (s : σ) (first : Bool) : Nat → Reader α
  | 0 => fail .endInObject
  | steps + 1 => do
    match ← nextName first with
    | none => record.finished s
    | some name =>
      match record.fields.find? (·.name == name) with
      | none => do
        colon
        skipValue
        named levels s false steps
      | some field =>
        if field.present s then reject (.duplicateField name)
        else do
          colon
          named levels (← field.read levels s) false steps

/-- Reads the items of a list, one for each field. -/
def ordered (levels : Nat) (s : σ) (read : Nat) : List (Field σ) → Reader α
  | [] => record.finished s
  | field :: rest => do
    if ← nextItem (read == 0) then ordered levels (← field.read levels s) (read + 1) rest
    else if field.optional then record.finished s
    else
      reject (.wrongLength read
        ("struct " ++ record.name ++ " with " ++ toString record.fields.length ++ " elements"))

/-- A record is an object of its fields or a list of them in order. -/
def read (levels : Nat) : Reader α := anchored do
  match ← peekToken with
  | none => failAhead .endInValue
  | some b =>
    if b == 0x5B then opened levels (fun n => record.ordered n record.start 0 record.fields) endList
    else if b == 0x7B then
      opened levels (fun n => do record.named n record.start true ((← remaining) + 1)) endObject
    else mismatch ("struct " ++ record.name)

end Record

end Courier.Json.Reader
