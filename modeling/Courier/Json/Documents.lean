import Courier.Json.Reader.Typed

/-! Two record types that are exchanged as JSON. -/
namespace Courier.Json

structure Order where
  id : Nat
  item : String
  deriving DecidableEq, Repr

structure Rich where
  id : Nat
  delta : Int
  tags : List String
  note : Option String
  flag : Bool
  deriving DecidableEq, Repr

def required (name : String) (field : Option α) : Except Cause α :=
  match field with
  | some a => .ok a
  | none => .error (.missingField name)

namespace Order

def toJson (o : Order) : Json := .obj [("id", .nat o.id), ("item", .str o.item)]

structure Draft where
  id : Option Nat := none
  item : Option String := none

open Reader in
def record : Record Draft Order where
  name := "Order"
  start := {}
  fields := [
    ⟨"id", (·.id.isSome), fun _ d => do return { d with id := (← integer .u32).toNat }, false⟩,
    ⟨"item", (·.item.isSome), fun _ d => do return { d with item := ← text }, false⟩]
  finish d := do return ⟨← required "id" d.id, ← required "item" d.item⟩

end Order

namespace Rich

def toJson (r : Rich) : Json := .obj [
  ("id", .nat r.id), ("delta", .int r.delta), ("tags", .arr (r.tags.map .str)),
  ("note", match r.note with | some s => .str s | none => .null), ("flag", .bool r.flag)]

structure Draft where
  id : Option Nat := none
  delta : Option Int := none
  tags : Option (List String) := none
  note : Option (Option String) := none
  flag : Option Bool := none

open Reader in
def record : Record Draft Rich where
  name := "Rich"
  start := {}
  fields := [
    ⟨"id", (·.id.isSome), fun _ d => do return { d with id := (← integer .u64).toNat }, false⟩,
    ⟨"delta", (·.delta.isSome), fun _ d => do return { d with delta := ← integer .i64 }, false⟩,
    ⟨"tags", (·.tags.isSome),
      fun levels d => do return { d with tags := ← listOf levels fun _ => text }, false⟩,
    ⟨"note", (·.note.isSome), fun _ d => do return { d with note := some (← optional text) },
      false⟩,
    ⟨"flag", (·.flag.isSome), fun _ d => do return { d with flag := ← boolean }, true⟩]
  finish d := do
    return ⟨← required "id" d.id, ← required "delta" d.delta, ← required "tags" d.tags,
      d.note.getD none, d.flag.getD false⟩

end Rich

end Courier.Json
