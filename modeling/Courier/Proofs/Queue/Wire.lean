import Courier.Proofs.Queue.Run
import Courier.Proofs.Queue.Writers
import Courier.Proofs.Text.Lossy

/-!
# What is on the wire

A payload becomes the last entry of its topic's log, or nothing changes:

* `publish_stored`, `publish_rejected`, `publish_of_error`: the ways in which a
  call to publish ends;
* `fetch_entry`: an entry is fetched as it was written, however the log went on;
* `Decoder.text_encode`: a text is decoded to itself;
* `wire_law`: all of it, for every payload of every open queue.
-/

namespace Courier

namespace Payload

theorem key_eq_some {p : Payload} {key : Bytes} :
    p.key = some key ↔ key ≠ [] ∧ ∃ data, p = .keyed key data := by
  cases p with
  | text | bytes => simp [Payload.key]
  | keyed k data =>
    cases k with
    | nil =>
      simp only [Payload.key, List.isEmpty_nil, ↓reduceIte, reduceCtorEq, false_iff]
      rintro ⟨full, data', same⟩
      exact full (Payload.keyed.inj same).1.symm
    | cons b k =>
      simp only [Payload.key, List.isEmpty_cons, Bool.false_eq_true, ↓reduceIte, Option.some.injEq]
      constructor
      · rintro rfl
        exact ⟨List.cons_ne_nil b k, data, rfl⟩
      · rintro ⟨-, data', same⟩
        exact (Payload.keyed.inj same).1

theorem toRecord_of_data {p : Payload} {topic : Topic} {d : Bytes} (made : p.data = .ok d)
    (full : d ≠ []) : p.toRecord topic = .ok ⟨topic, p.key, d⟩ := by
  rw [toRecord, made]
  cases d with
  | nil => exact absurd rfl full
  | cons b d => rfl

theorem toRecord_of_error {p : Payload} {topic : Topic} {e : Error} (failed : p.data = .error e) :
    p.toRecord topic = .error e := by
  rw [toRecord, failed]

theorem toRecord_of_empty {p : Payload} {topic : Topic} (empty : p.data = .ok []) :
    p.toRecord topic = .error (emptyMessage topic) := by
  rw [toRecord, empty]

end Payload

theorem Decoder.text_encode (s : String) : Decoder.text.decode (Utf8.encode s) = .ok s :=
  congrArg Except.ok (Utf8.decodeLossy_encode s)

namespace Queue.World

open Broker (Ledger)

variable {α : Type} {w : World Ledger α} {q : Nat} {writer : Ledger.Writer} {topic : Topic}
  {p : Payload}

/-! ## Written -/

theorem publish_of_error {e : Error} (failed : p.toRecord topic = .error e) :
    w.publish q topic p = (.error e, w) := by
  rw [publish_eq, failed]

theorem publish_rejected (isOpen : w.writer q = .ok writer) (unclosed : writer.closed = false)
    (fails : w.broker.failWrites = true) {d : Bytes} (made : p.data = .ok d) (full : d ≠ []) :
    w.publish q topic p = (.error Ledger.writeRejected,
      w.note (.published ⟨topic, p.key, d⟩ false)) := by
  rw [publish_eq, Payload.toRecord_of_data made full, isOpen]
  simp [put, inHand, isOpen, Ledger.write, unclosed, fails]

theorem publish_stored (isOpen : w.writer q = .ok writer) (unclosed : writer.closed = false)
    (writes : w.broker.failWrites = false) {d : Bytes} (made : p.data = .ok d) (full : d ≠ []) :
    w.publish q topic p = (.ok (), w.appended ⟨topic, p.key, d⟩) := by
  rw [publish_eq, Payload.toRecord_of_data made full, isOpen]
  exact put_open isOpen unclosed writes _

/-! ## Fetched -/

theorem fetch_entry {b : Ledger} {r : Ledger.Reader} {now : Nat} {record : Record}
    (grows : w.broker.log record.topic.name ++ [w.broker.entry now record] <+:
      b.log record.topic.name)
    (faultless : b.fetchFaults = 0) (isOpen : r.closed = false) (current : r.epoch = b.epoch)
    (reads : r.topic = record.topic.name)
    (there : r.cursor = (w.broker.entry now record).offset) :
    Ledger.fetch r b =
      (.message (w.broker.entry now record), { r with cursor := r.cursor + 1 }, b) := by
  refine Ledger.fetch_of_open faultless isOpen current ?_
  rw [reads, Ledger.at?_eq_some]
  refine ⟨(w.broker.log record.topic.name).length, there, ?_⟩
  obtain ⟨more, eq⟩ := grows
  rw [← eq, List.append_assoc]
  simp

/-- A message has the bytes of a payload, and its key if that is not empty. -/
structure Conveys (p : Payload) (m : Message) : Prop where
  payload : p.data = .ok m.payload
  key : ∀ key, m.key = some key ↔ key ≠ [] ∧ ∃ data, p = .keyed key data
  text : ∀ s, p = .text s → Decoder.text.decode m.payload = .ok s

theorem conveys_entry {d : Bytes} (made : p.data = .ok d) :
    Conveys p (w.broker.entry w.now ⟨topic, p.key, d⟩) := by
  refine ⟨made, fun key => Payload.key_eq_some, ?_⟩
  rintro s rfl
  obtain rfl := Except.ok.inj made
  exact Decoder.text_encode s

/-- What becomes of a payload that is published. -/
structure WireLaw (w : World Ledger α) (q : Nat) (topic : Topic) (p : Payload) : Prop where
  accepted : (w.publish q topic p).1 = .ok () ↔
    ∃ d, p.data = .ok d ∧ d ≠ [] ∧ w.broker.failWrites = false
  /-- One entry more, and whoever reads there later gets it. -/
  stored : (w.publish q topic p).1 = .ok () → ∃ m, Conveys p m ∧ m.topic = topic.name ∧
    m.offset = (w.broker.log topic.name).length ∧
    (∀ t, (w.publish q topic p).2.broker.log t =
      w.broker.log t ++ if t = topic.name then [m] else []) ∧
    ∀ (b : Ledger) (r : Ledger.Reader),
      (w.publish q topic p).2.broker.log topic.name <+: b.log topic.name → b.fetchFaults = 0 →
      r.closed = false → r.epoch = b.epoch → r.topic = topic.name → r.cursor = m.offset →
      Ledger.fetch r b = (.message m, { r with cursor := r.cursor + 1 }, b)
  /-- A payload is asked for its data first, then whether there are any, and the broker last. -/
  failed : ∀ e, p.data = .error e → (w.publish q topic p).1 = .error e
  empty : p.data = .ok [] → (w.publish q topic p).1 = .error (Payload.emptyMessage topic)
  rejected : ∀ d, p.data = .ok d → d ≠ [] → w.broker.failWrites = true →
    (w.publish q topic p).1 = .error Ledger.writeRejected
  unchanged : ∀ e, (w.publish q topic p).1 = .error e → (w.publish q topic p).2.broker = w.broker
  /-- Whatever bytes there are, they are decoded to a text, and the text is decoded to itself. -/
  decoded : ∀ d, p.data = .ok d → ∃ t, Decoder.text.decode d = .ok t ∧
    (Utf8.encode t = d ↔ d.toByteArray.IsValidUTF8) ∧
    Decoder.text.decode (Utf8.encode t) = .ok t

/-- **A payload is on the wire as it was handed over**, or nothing is. -/
theorem wire_law [DecidableEq α] (reach : Reachable {} w) (isOpen : w.writer q = .ok writer)
    (topic : Topic) (p : Payload) : WireLaw w q topic p := by
  have unclosed := writer_open reach isOpen
  have failed {e : Error} (failed : p.data = .error e) : w.publish q topic p = (.error e, w) :=
    publish_of_error (Payload.toRecord_of_error failed)
  have empty (empty : p.data = .ok []) :
      w.publish q topic p = (.error (Payload.emptyMessage topic), w) :=
    publish_of_error (Payload.toRecord_of_empty empty)
  have rejected {d : Bytes} (made : p.data = .ok d) (full : d ≠ [])
      (fails : w.broker.failWrites = true) :
      w.publish q topic p =
        (.error Ledger.writeRejected, w.note (.published ⟨topic, p.key, d⟩ false)) :=
    publish_rejected isOpen unclosed fails made full
  -- There is no data, or it is empty, or there is a record to write.
  have ways : (∃ e, p.data = .error e) ∨ p.data = .ok [] ∨
      ∃ d, p.data = .ok d ∧ d ≠ [] := by
    cases p.data with
    | error e => exact .inl ⟨e, rfl⟩
    | ok d => cases d <;> simp
  have stored (taken : (w.publish q topic p).1 = .ok ()) :
      ∃ d, p.data = .ok d ∧ d ≠ [] ∧ w.broker.failWrites = false := by
    obtain ⟨e, none⟩ | none | ⟨d, made, full⟩ := ways
    · exact nomatch (congrArg Prod.fst (failed none)).symm.trans taken
    · exact nomatch (congrArg Prod.fst (empty none)).symm.trans taken
    · refine ⟨d, made, full, ?_⟩
      by_contra fails
      have refused := rejected made full (Bool.not_eq_false _ ▸ fails)
      exact nomatch (congrArg Prod.fst refused).symm.trans taken
  constructor
  case accepted =>
    refine ⟨stored, ?_⟩
    rintro ⟨d, made, full, writes⟩
    rw [publish_stored isOpen unclosed writes made full]
  case stored =>
    intro taken
    obtain ⟨d, made, full, writes⟩ := stored taken
    rw [publish_stored isOpen unclosed writes made full]
    refine ⟨_, conveys_entry made, rfl, rfl, fun t => Ledger.log_append .., ?_⟩
    intro b r grows faultless unclosed current reads there
    refine fetch_entry ?_ faultless unclosed current reads there
    have log : (w.appended ⟨topic, p.key, d⟩).broker.log topic.name = _ := Ledger.log_append ..
    rwa [log, if_pos rfl] at grows
  case failed => exact fun e none => congrArg Prod.fst (failed none)
  case empty => exact fun none => congrArg Prod.fst (empty none)
  case rejected => exact fun d made full fails => congrArg Prod.fst (rejected made full fails)
  case unchanged =>
    intro e refused
    obtain ⟨e, none⟩ | none | ⟨d, made, full⟩ := ways
    · rw [failed none]
    · rw [empty none]
    · cases fails : w.broker.failWrites with
      | true =>
        rw [rejected made full fails]
        rfl
      | false =>
        rw [publish_stored isOpen unclosed fails made full] at refused
        cases refused
  case decoded =>
    intro d made
    exact ⟨_, rfl, Utf8.encode_decodeLossy.trans Utf8.isSome_decode?,
      Decoder.text_encode (Utf8.decodeLossy d)⟩

/-- A keyed payload whose bytes are no text. -/
theorem wire_law_truncated :
    WireLaw opened 0 orders (.keyed [0x6B] (.ok [0x41, 0xE4, 0xB8])) :=
  wire_law reachable_opened (show opened.writer 0 = .ok {} from rfl) orders _

end Queue.World

end Courier
