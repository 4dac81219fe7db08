import Courier.Error
import Courier.Text.Blank
import Courier.Text.Utf8

/-! Topics and subscription numbers. -/
namespace Courier

/-- A topic's name is kept as it was given, but it may not be blank. -/
structure Topic where
  name : String
  not_blank : Text.blank name = false
  deriving DecidableEq

namespace Topic

def emptyName : Error := ⟨.configuration, "topic name is empty"⟩

def ofName (name : String) : Except Error Topic :=
  if h : Text.blank name then .error emptyName
  else .ok ⟨name, by simpa using h⟩

theorem name_inj {t u : Topic} : t.name = u.name ↔ t = u := by
  obtain ⟨name, _⟩ := t
  obtain ⟨name', _⟩ := u
  simp

theorem ofName_name (t : Topic) : ofName t.name = .ok t := by
  simp [ofName, t.not_blank]

/-- Topics are ordered by the bytes of their names. -/
def before (a b : Topic) : Bool := decide (Utf8.encode a.name < Utf8.encode b.name)

/-- Puts a topic into its place; one that is there already is not put in again. -/
def insert (t : Topic) : List Topic → List Topic
  | [] => [t]
  | u :: rest =>
    if t = u then u :: rest else if t.before u then t :: u :: rest else u :: insert t rest

/-- In order and without repetitions. -/
def sorted (topics : List Topic) : List Topic := topics.foldr insert []

end Topic

/-- The number of a subscription within its queue. -/
structure SubscriptionId where
  number : Nat
  deriving DecidableEq, Repr

def SubscriptionId.render (id : SubscriptionId) : String := "sub-" ++ toString id.number

end Courier
