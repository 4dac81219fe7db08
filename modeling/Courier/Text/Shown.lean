import Courier.Text.Quoted

/-! The shape in which diagnostics show records, lists and optional values. -/
namespace Courier.Text

def shownRecord (name : String) (fields : List (String × String)) : String :=
  name ++ " \x7b " ++ ", ".intercalate (fields.map fun (k, v) => k ++ ": " ++ v) ++ " \x7d"

def shownList (items : List String) : String := "[" ++ ", ".intercalate items ++ "]"

def shownOption : Option String → String
  | none => "None"
  | some s => "Some(" ++ s ++ ")"

def shownBool (b : Bool) : String := if b then "true" else "false"

/-- A secret is shown without a trace of what it is. -/
def shownSecret (_ : String) : String := "Secret([REDACTED alloc::string::String])"

end Courier.Text
