import Courier.Subscriber

/-! Listeners that answer by a simple rule. -/
namespace Courier.Rehearsal

/-- The first calls are rejected. Afterwards the usual answer is given, and its opposite to the
texts listed. -/
structure Conduct where
  rejectFirst : Nat := 0
  usual : Bool := true
  opposite : List String := []
  /-- The listener fails on this text, at once. -/
  failsOn : Option String := none
  delay : Nat := 0

namespace Conduct

def accepts (c : Conduct) (calls : Nat) (text : String) : Bool :=
  if calls < c.rejectFirst then false else c.usual != c.opposite.contains text

def listener (c : Conduct) (text : β → String) : Listener β where
  decide calls b :=
    let fails := c.failsOn == some (text b)
    { accept := c.accepts calls (text b), fails, delay := if fails then 0 else c.delay }

end Conduct

end Courier.Rehearsal
