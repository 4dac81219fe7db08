/-! What goes wrong with a queue, by kind, and what the kind says about trying again. -/
namespace Courier

inductive Error.Kind where
  | configuration
  | connectivity
  | serialization
  | delivery
  | commit
  | fetch
  | streamClosed
  | invalidMessage
  | internal
  deriving DecidableEq, Repr

structure Error where
  kind : Error.Kind
  reason : String
  deriving DecidableEq, Repr

namespace Error

namespace Kind

def all : List Kind :=
  [configuration, connectivity, serialization, delivery, commit, fetch, streamClosed,
    invalidMessage, internal]

def name : Kind → String
  | configuration => "configuration"
  | connectivity => "connectivity"
  | serialization => "serialization"
  | delivery => "delivery"
  | commit => "commit"
  | fetch => "fetch"
  | streamClosed => "stream_closed"
  | invalidMessage => "invalid_message"
  | internal => "internal"

def title : Kind → String
  | configuration => "Configuration error"
  | connectivity => "Connectivity error"
  | serialization => "Serialization error"
  | delivery => "Delivery error"
  | commit => "Commit error"
  | fetch => "Fetch error"
  | streamClosed => "Stream closed"
  | invalidMessage => "Invalid message"
  | internal => "Internal error"

def ofName? (s : String) : Option Kind := all.find? (·.name == s)

end Kind

/-- The kind comes first, then the reason. -/
def message (e : Error) : String := e.kind.title ++ ": " ++ e.reason

/-- Nothing can be done about it while the program runs. -/
def isFatal (e : Error) : Bool := e.kind == .configuration || e.kind == .streamClosed

/-- The same call may succeed later. -/
def isTransient (e : Error) : Bool :=
  e.kind == .connectivity || e.kind == .fetch || e.kind == .delivery || e.kind == .commit

theorem not_fatal_of_transient (e : Error) (h : e.isTransient = true) : e.isFatal = false := by
  obtain ⟨kind, reason⟩ := e
  cases kind <;> simp_all [isTransient, isFatal]

end Error

end Courier
