import Courier.Message

/-! What a queue needs from a broker: a probe, writers, and readers of one topic in one group. -/
namespace Courier.Broker

inductive Fetched where
  | message (m : Message)
  /-- A later fetch may succeed. -/
  | transient (e : Error)
  /-- No later fetch will succeed. -/
  | closed (e : Error)
  /-- Nothing is there yet. -/
  | nothing

/-- A broker with state `T`. Every operation answers at once; a fetch that finds nothing is made
again when something was written. -/
class Transport (T : Type) where
  Writer : Type
  Reader : Type
  /-- What can be done to the broker from outside. -/
  Control : Type
  probe : T → Except Error Unit × T
  openWriter : T → Except Error Writer × T
  /-- `now` is the time the record is stamped with. -/
  write (now : Nat) : Writer → Record → T → Except Error Unit × T
  closeWriter : Writer → T → Except Error Unit × Writer × T
  openReader : Topic → String → T → Except Error Reader × T
  fetch : Reader → T → Fetched × Reader × T
  /-- The message has been dealt with. -/
  commit : Reader → Message → T → Except Error Unit × Reader × T
  /-- The message is to be delivered again. -/
  withhold : Reader → Message → T → Except Error Unit × Reader × T
  closeReader : Reader → T → Reader × T
  control : Control → T → T
  /-- Fetches that found nothing are made again after this. -/
  wakes : Control → Bool

end Courier.Broker
