import Courier.Decimal.Notation
import Courier.Text.Quoted

/-! What settings are made of before it is known which settings they are. -/
namespace Courier.Settings

/-- A table holds each key once; its order has no meaning. -/
inductive Data where
  | bool (b : Bool)
  | signed (n : Int)
  | unsigned (n : Nat)
  | float (x : Float)
  | text (s : String)
  | list (items : List Data)
  | table (entries : List (String × Data))

abbrev Table := List (String × Data)

/-- Floats are written in full, whole ones without a point. -/
def floatStyle : Decimal.Style := ⟨none, none, false, false⟩

def renderFloat (x : Float) : String :=
  if x.isNaN then "NaN"
  else if x.isInf then (if x < 0.0 then "-inf" else "inf")
  else Decimal.write floatStyle x

def Data.describe : Data → String
  | .bool b => "bool " ++ (if b then "true" else "false")
  | .signed n => "signed int `" ++ toString n ++ "`"
  | .unsigned n => "unsigned int `" ++ toString n ++ "`"
  | .float x => "float `" ++ renderFloat x ++ "`"
  | .text s => "string " ++ Text.quoted s
  | .list _ => "sequence"
  | .table _ => "map"

/-- Sets a key, in the place of an older value if there is one. -/
def Table.set (key : String) (value : Data) : Table → Table
  | [] => [(key, value)]
  | (k, v) :: rest => if k == key then (k, value) :: rest else (k, v) :: Table.set key value rest

def Table.get? (table : Table) (key : String) : Option Data := table.lookup key

theorem Table.get?_set (table : Table) (key other : String) (value : Data) :
    (table.set key value).get? other = if other = key then some value else table.get? other := by
  induction table with
  | nil => grind [set, get?]
  | cons entry rest ih => grind [set, get?]

end Courier.Settings
