import Courier.Error

/-! Log lines and their fields. -/
namespace Courier.Log

inductive Level where
  | debug
  | info
  | warn
  | error
  deriving DecidableEq, Repr

def Level.name : Level → String
  | .debug => "debug"
  | .info => "info"
  | .warn => "warn"
  | .error => "error"

structure Field where
  key : String
  value : String
  deriving DecidableEq, Repr

namespace Field

def int (key : String) (n : Int) : Field := ⟨key, toString n⟩

def error (e : Error) : Field := ⟨"error", e.message⟩

def render (f : Field) : String := f.key ++ "=" ++ f.value

end Field

/-- Fields in one line, a space between any two. -/
def renderFields (fields : List Field) : String := " ".intercalate (fields.map Field.render)

structure Line where
  level : Level
  message : String
  fields : List Field
  deriving DecidableEq, Repr

end Courier.Log
