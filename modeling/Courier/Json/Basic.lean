import Courier.Text.Utf8

/-! JSON values. -/
namespace Courier

/-- A number is an integer of 64 bits, with or without sign, or a finite floating-point number. -/
inductive Json.Number where
  | int (n : Int)
  | float (x : Float)

inductive Json where
  | null
  | bool (b : Bool)
  | num (n : Json.Number)
  | str (s : String)
  | arr (items : List Json)
  | obj (members : List (String × Json))

namespace Json

/-- Names are ordered by their bytes, a name before its extensions. -/
def nameLt (a b : String) : Bool := decide (Utf8.encode a < Utf8.encode b)

/-- Members stay sorted by name; a name that is there already gets the later value. -/
def insertMember (name : String) (value : Json) : List (String × Json) → List (String × Json)
  | [] => [(name, value)]
  | (n, v) :: rest =>
    if name == n then (n, value) :: rest
    else if nameLt name n then (name, value) :: (n, v) :: rest
    else (n, v) :: insertMember name value rest

def ofMembers (members : List (String × Json)) : Json :=
  .obj (members.foldl (fun sorted (name, value) => insertMember name value sorted) [])

def nat (n : Nat) : Json := .num (.int n)

def int (n : Int) : Json := .num (.int n)

end Json

end Courier
