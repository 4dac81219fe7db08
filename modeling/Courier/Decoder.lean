import Courier.Error
import Courier.Json.Reader.Typed

/-! Decoders from payloads to values. -/
namespace Courier

structure Decoder (α : Type) where
  kind : String
  decode : Bytes → Except Error α

namespace Decoder

def unreadable (text : Bytes) (f : Json.Failure) : Error :=
  ⟨.serialization, "failed to unmarshal message: " ++ f.message text⟩

/-- Every payload is a text. -/
def text : Decoder String where
  kind := "text"
  decode data := .ok (Utf8.decodeLossy data)

def json (reader : Json.Reader α) : Decoder α where
  kind := "json"
  decode data :=
    match Json.readAll reader data with
    | .ok a => .ok a
    | .error f => .error (unreadable data f)

def custom (decode : Bytes → Except Error α) : Decoder α := ⟨"custom", decode⟩

def map (f : α → β) (d : Decoder α) : Decoder β where
  kind := d.kind
  decode data := (d.decode data).map f

def render (d : Decoder α) : String := "Decoder(" ++ Text.quoted d.kind ++ ")"

end Decoder

end Courier
