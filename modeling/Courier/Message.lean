import Courier.Topic
import Courier.Text.Quoted

/-! What is published and what is received. -/
namespace Courier

/-- A message as a subscriber gets it. -/
structure Message where
  topic : String
  payload : Bytes
  partition : Int := 0
  offset : Int := 0
  key : Option Bytes := none
  timestamp : Option Int := none
  deriving DecidableEq, Repr

def Message.text (m : Message) : String := Utf8.decodeLossy m.payload

/-- What a broker is given to store. -/
structure Record where
  topic : Topic
  key : Option Bytes
  value : Bytes
  deriving DecidableEq

/-- What a publisher hands over. The data of a keyed payload may fail to be produced. -/
inductive Payload where
  | text (s : String)
  | bytes (data : Bytes)
  | keyed (key : Bytes) (data : Except Error Bytes)

namespace Payload

def emptyMessage (topic : Topic) : Error :=
  ⟨.invalidMessage, "message for topic '" ++ topic.name ++ "' is empty"⟩

def key : Payload → Option Bytes
  | .keyed key _ => if key.isEmpty then none else some key
  | _ => none

def data : Payload → Except Error Bytes
  | .text s => .ok (Utf8.encode s)
  | .bytes data => .ok data
  | .keyed _ data => data

/-- An empty key is no key, and an empty message is refused. -/
def toRecord (p : Payload) (topic : Topic) : Except Error Record :=
  match p.data with
  | .error e => .error e
  | .ok [] => .error (emptyMessage topic)
  | .ok value => .ok ⟨topic, p.key, value⟩

/-- A text in full, bytes by their number, a keyed message by its key. -/
def render : Payload → String
  | .text s => "Text(" ++ Text.quoted s ++ ")"
  | .bytes data => "Bytes(" ++ toString data.length ++ ")"
  | .keyed key _ => "Keyed \x7b key: " ++ Text.quoted (Utf8.decodeLossy key) ++ " \x7d"

theorem toRecord_value_ne_nil {p : Payload} {topic : Topic} {r : Record}
    (h : p.toRecord topic = .ok r) : r.value ≠ [] := by
  unfold toRecord at h
  split at h <;> simp_all
  rcases h with rfl
  assumption

end Payload

end Courier
