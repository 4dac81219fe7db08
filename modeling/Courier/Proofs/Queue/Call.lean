import Courier.Broker.Ledger
import Courier.Queue.Step

/-!
# Calls to publish

A call makes its record first and writes it then, and others may come in
between:

* `World.draft` and `World.put`: the two halves;
* `World.publish_eq`, `World.call_eq`: a call is its two halves with nothing in
  between;
* `World.put_eq`: a record is appended, or refused and only noted.
-/

namespace Courier

namespace Payload

theorem toRecord_eq_ok {p : Payload} {topic : Topic} {r : Record} (h : p.toRecord topic = .ok r) :
    r.topic = topic ∧ r.key = p.key ∧ p.data = .ok r.value := by
  unfold toRecord at h
  split at h
  · cases h
  · cases h
  · next value data =>
    obtain rfl := Except.ok.inj h
    exact ⟨rfl, rfl, data⟩

/-- A key is absent or it is not empty. -/
theorem key_ne_empty (p : Payload) : p.key ≠ some [] := by
  cases p with
  | text | bytes => nofun
  | keyed key data =>
    unfold Payload.key
    split
    · simp
    · next full => simp_all

end Payload

namespace Queue

open Broker (Ledger)

/-- What a publisher hands over: a payload, or a value whose text is the payload. -/
inductive Content where
  | payload (p : Payload)
  | value (v : Except String Json)

def Content.toPayload : Content → Except Error Payload
  | .payload p => .ok p
  | .value (.ok json) => .ok (.text json.compact)
  | .value (.error reason) => .error (unwritable reason)

structure Call (ι : Type) where
  publisher : ι
  queue : Nat
  topic : Topic
  content : Content

namespace Call

variable {ι : Type}

def record (c : Call ι) : Except Error Record :=
  match c.content.toPayload with
  | .error e => .error e
  | .ok payload => payload.toRecord c.topic

theorem record_eq_ok {c : Call ι} {r : Record} (h : c.record = .ok r) :
    r.topic = c.topic ∧ r.value ≠ [] ∧ r.key ≠ some [] := by
  unfold record at h
  split at h
  · cases h
  · next payload _ =>
    obtain ⟨topic, key, -⟩ := Payload.toRecord_eq_ok h
    exact ⟨topic, Payload.toRecord_value_ne_nil h, key ▸ payload.key_ne_empty⟩

end Call

namespace World

variable {α ι : Type}

/-- The first half of a publication: its record, if the queue is open. -/
def draft (w : World Ledger α) (c : Call ι) : Except Error Record :=
  match c.record with
  | .error e => .error e
  | .ok r => (w.writer c.queue).map fun _ => r

/-- The writer that was in hand when the record was made. It is closed with its queue. -/
def inHand (w : World Ledger α) (q : Nat) : Ledger.Writer :=
  match w.writer q with
  | .ok writer => writer
  | .error _ => { closed := true }

def appended (w : World Ledger α) (r : Record) : World Ledger α :=
  ({ w with broker := w.broker.append r.topic.name (w.broker.entry w.now r) }.note
    (.published r true)).wake

/-- The second half of a publication. -/
def put (w : World Ledger α) (q : Nat) (r : Record) : Except Error Unit × World Ledger α :=
  let (result, broker) := Ledger.write w.now (w.inHand q) r w.broker
  match result with
  | .ok () => (.ok (), ({ w with broker }.note (.published r true)).wake)
  | .error e => (.error e, { w with broker }.note (.published r false))

theorem put_eq (w : World Ledger α) (q : Nat) (r : Record) :
    w.put q r = (.ok (), w.appended r) ∨
      ∃ e, w.put q r = (.error e, w.note (.published r false)) := by
  unfold put Ledger.write
  cases (w.inHand q).closed with
  | true => exact .inr ⟨_, rfl⟩
  | false =>
    cases fails : w.broker.failWrites with
    | true => exact .inr ⟨_, rfl⟩
    | false => exact .inl rfl

theorem put_open {w : World Ledger α} {q : Nat} {writer : Ledger.Writer}
    (isOpen : w.writer q = .ok writer) (unclosed : writer.closed = false)
    (writes : w.broker.failWrites = false) (r : Record) : w.put q r = (.ok (), w.appended r) := by
  simp [put, inHand, isOpen, Ledger.write, unclosed, writes, appended]

/-- An empty message is refused first, a closed queue then. -/
theorem publish_eq (w : World Ledger α) (q : Nat) (topic : Topic) (p : Payload) :
    w.publish q topic p = match p.toRecord topic with
      | .error e => (.error e, w)
      | .ok r => match w.writer q with
        | .error e => (.error e, w)
        | .ok _ => w.put q r := by
  unfold publish put inHand
  cases p.toRecord topic with
  | error e => rfl
  | ok r => cases w.writer q <;> rfl

def call (w : World Ledger α) (c : Call ι) : Except Error Unit × World Ledger α :=
  match c.content with
  | .payload p => w.publish c.queue c.topic p
  | .value v => w.publishJson c.queue c.topic v

/-- A call is its two halves with nothing in between. -/
theorem call_eq (w : World Ledger α) (c : Call ι) :
    w.call c = match w.draft c with
      | .error e => (.error e, w)
      | .ok r => w.put c.queue r := by
  obtain ⟨publisher, q, topic, content⟩ := c
  cases content with
  | payload p =>
    simp only [call, publish_eq, draft, Call.record, Content.toPayload]
    cases p.toRecord topic with
    | error e => rfl
    | ok r => cases w.writer q <;> rfl
  | value v =>
    cases v with
    | error reason => rfl
    | ok json =>
      simp only [call, publishJson, publish_eq, draft, Call.record, Content.toPayload]
      cases (Payload.text json.compact).toRecord topic with
      | error e => rfl
      | ok r => cases w.writer q <;> rfl

end World

end Queue

end Courier
