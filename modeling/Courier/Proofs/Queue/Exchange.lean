import Courier.Proofs.Json.Records
import Courier.Proofs.Queue.Run
import Courier.Proofs.Queue.Writers

/-!
# Values published and received

A value goes through its text, the bytes of a record and the log, and comes out
as it went in:

* `publishJson_open`: an open queue puts the text of a value into the log;
* `receive_decoded`: a typed subscriber is asked about the value it decodes;
* `order_round_trip`: every order is received as it was published.
-/

namespace Courier.Queue

open Broker (Ledger)

namespace World

variable {α : Type}

/-- The text of a value becomes one record, without a key. -/
theorem publishJson_open {w : World Ledger α} {q : Nat} {writer : Ledger.Writer} (topic : Topic)
    {json : Json} (isOpen : w.writer q = .ok writer) (unclosed : writer.closed = false)
    (writes : w.broker.failWrites = false) (text : Utf8.bytes json.print ≠ []) :
    w.publishJson q topic (.ok json) =
      (.ok (), w.appended ⟨topic, none, Utf8.bytes json.print⟩) := by
  have made : (Payload.text json.compact).toRecord topic =
      .ok ⟨topic, none, Utf8.bytes json.print⟩ := by
    unfold Payload.toRecord
    rw [Payload.data, Json.compact, Utf8.bytes_ofList]
    cases bytes : Utf8.bytes json.print with
    | nil => exact absurd bytes text
    | cons b rest => rfl
  rw [publishJson, publish_eq]
  simp only [made, isOpen]
  exact put_open isOpen unclosed writes _

end World

/-- A typed subscriber is asked about the value it decodes, and its answer is the listener's. -/
theorem receive_decoded {β : Type} {decoder : Decoder β} {m : Message} {value : β}
    (decoded : decoder.decode m.payload = .ok value) (listener : Listener β) (calls : Nat) :
    (Subscriber.typed decoder listener).receive calls m =
      (Subscriber.reception (listener.decide calls value),
        [.event (.value value (listener.decide calls value).accept)], calls + 1) := by
  simp [Subscriber.receive, decoded]

theorem decode_of_reads {β : Type} {reader : Json.Reader β} {text : Bytes} {value : β}
    (reads : Json.Reads reader text value []) : (Decoder.json reader).decode text = .ok value := by
  simp [Decoder.json, Json.readAll_of_reads reads]

def orderDecoder : Decoder Json.Order := .json (Json.Order.record.read Json.Reader.maxDepth)

theorem decode_order {o : Json.Order} (u32 : o.id ≤ 0xFFFFFFFF) :
    orderDecoder.decode (Utf8.bytes o.toJson.print) = .ok o := by
  apply decode_of_reads
  exact Json.Order.reads u32 []

namespace World

variable {α : Type} [DecidableEq α]

/-- **An order is received as it was published**, whatever its item spells. -/
theorem order_round_trip {w : World Ledger α} {q : Nat} {writer : Ledger.Writer}
    (reach : Reachable {} w) (isOpen : w.writer q = .ok writer)
    (writes : w.broker.failWrites = false) (topic : Topic) (o : Json.Order)
    (u32 : o.id ≤ 0xFFFFFFFF) :
    ∃ v m, w.publishJson q topic (.ok o.toJson) = (.ok (), v) ∧
      (∀ t, v.broker.log t = w.broker.log t ++ if t = topic.name then [m] else []) ∧
      orderDecoder.decode m.payload = .ok o ∧
      ∀ listener calls, (Subscriber.typed orderDecoder listener).receive calls m =
        (Subscriber.reception (listener.decide calls o),
          [.event (.value o (listener.decide calls o).accept)], calls + 1) := by
  have text : Utf8.bytes o.toJson.print ≠ [] := by
    rw [Json.Order.bytes_print]
    exact List.cons_ne_nil _ _
  have published := publishJson_open topic isOpen (writer_open reach isOpen) writes text
  let m := w.broker.entry w.now ⟨topic, none, Utf8.bytes o.toJson.print⟩
  have decoded : orderDecoder.decode m.payload = .ok o := decode_order u32
  exact ⟨_, m, published, fun t => Ledger.log_append .., decoded, receive_decoded decoded⟩

/-- An item with a quote, a backslash, a line break, a control and a character of four bytes. -/
theorem order_round_trip_escaped :
    let o : Json.Order := ⟨4294967295, "\"a\\\n\x01😀"⟩
    ∃ v m, opened.publishJson 0 orders (.ok o.toJson) = (.ok (), v) ∧
      (∀ t, v.broker.log t = opened.broker.log t ++ if t = "orders" then [m] else []) ∧
      orderDecoder.decode m.payload = .ok o ∧
      ∀ listener calls, (Subscriber.typed orderDecoder listener).receive calls m =
        (Subscriber.reception (listener.decide calls o),
          [.event (.value o (listener.decide calls o).accept)], calls + 1) :=
  order_round_trip reachable_opened (show opened.writer 0 = .ok {} from rfl) rfl
    orders _ (by decide)

end World

end Courier.Queue
