import Courier.Proofs.Json.Values
import Courier.Proofs.Queue.Exchange

/-!
# Values within values

A queue takes a value however deep it is, and a typed subscriber reads it if it
is not too deep:

* `publishJson_accepted`: what a queue has taken is in the log as it is printed;
* `nesting_law`: up to the limit a value is received as it was published, above
  it the message is reported and dropped;
* `unreadable`: a value that is taken, and that nobody can read.
-/

namespace Courier.Queue

open Broker (Ledger)

def valueDecoder : Decoder Json := .json (Json.Reader.value Json.Reader.maxDepth)

theorem decode_value {j : Json} (plain : j.Plain) (shallow : j.depth ≤ 127) :
    valueDecoder.decode (Utf8.bytes j.print) = .ok j.normal :=
  decode_of_reads ((plain.reads shallow).reads [] Json.Reader.numberEnds_nil)

theorem decode_tooDeep {j : Json} (plain : j.Plain) (deep : 127 < j.depth) :
    ∃ place, valueDecoder.decode (Utf8.bytes j.print) =
      .error (Decoder.unreadable (Utf8.bytes j.print) ⟨.tooDeep, some place⟩) := by
  obtain ⟨place, failed⟩ :=
    Json.readAll_of_fails ((plain.fails deep).fails [] Json.Reader.numberEnds_nil)
  refine ⟨place, ?_⟩
  simp only [valueDecoder, Decoder.json]
  rw [Json.Reader.maxDepth, failed]

theorem receive_undecoded {β : Type} {decoder : Decoder β} {m : Message} {e : Error}
    (failed : decoder.decode m.payload = .error e) (listener : Listener β) (calls : Nat) :
    (Subscriber.typed decoder listener).receive calls m =
      (.answered true 0, [.line (Subscriber.typedError (some m) e)], calls) := by
  simp [Subscriber.receive, failed, Subscriber.report]

namespace World

variable {α : Type} {w v : World Ledger α} {q : Nat}

theorem publishJson_accepted {topic : Topic} {j : Json}
    (accepted : w.publishJson q topic (.ok j) = (.ok (), v)) :
    v = w.appended ⟨topic, none, Utf8.bytes j.print⟩ := by
  rw [publishJson, publish_eq] at accepted
  split at accepted
  · cases accepted
  · next r made =>
    obtain ⟨rfl, key, data⟩ := Payload.toRecord_eq_ok made
    have text : Utf8.bytes j.print = r.value := by
      rw [← Utf8.bytes_ofList]
      exact Except.ok.inj data
    split at accepted
    · cases accepted
    · obtain eq | ⟨e, eq⟩ := put_eq w q r
      · rw [eq] at accepted
        obtain ⟨-, rfl⟩ := Prod.mk.inj accepted
        rw [text, ← show r.key = none from key]
      · rw [eq] at accepted
        cases accepted

/-- **What a queue takes is read back, down to 127 levels.** The payload of the one message that a
published value becomes is decoded as the same value, which a typed subscriber hands to its
listener. A value with more levels is taken as well, but a subscriber that asks for values reports
its message as too deep, and drops it. -/
theorem nesting_law {topic : Topic} {j : Json} (plain : j.Plain)
    (accepted : w.publishJson q topic (.ok j) = (.ok (), v)) :
    ∃ m, (∀ t, v.broker.log t = w.broker.log t ++ if t = topic.name then [m] else []) ∧
      (j.depth ≤ 127 → ∃ j', valueDecoder.decode m.payload = .ok j' ∧ j.Same j' ∧
        ∀ listener calls, (Subscriber.typed valueDecoder listener).receive calls m =
          (Subscriber.reception (listener.decide calls j'),
            [.event (.value j' (listener.decide calls j').accept)], calls + 1)) ∧
      (127 < j.depth → ∃ place e, e = Decoder.unreadable m.payload ⟨.tooDeep, some place⟩ ∧
        valueDecoder.decode m.payload = .error e ∧
        ∀ listener calls, (Subscriber.typed valueDecoder listener).receive calls m =
          (.answered true 0, [.line (Subscriber.typedError (some m) e)], calls)) := by
  obtain rfl := publishJson_accepted accepted
  let m := w.broker.entry w.now ⟨topic, none, Utf8.bytes j.print⟩
  refine ⟨m, fun t => Ledger.log_append .., ?_, ?_⟩
  · intro shallow
    have decoded : valueDecoder.decode m.payload = .ok j.normal := decode_value plain shallow
    exact ⟨j.normal, decoded, plain.same_normal, receive_decoded decoded⟩
  · intro deep
    obtain ⟨place, failed⟩ := decode_tooDeep plain deep
    have failed : valueDecoder.decode m.payload =
        .error (Decoder.unreadable m.payload ⟨.tooDeep, some place⟩) := failed
    exact ⟨place, _, rfl, failed, receive_undecoded failed⟩

/-- The least and the greatest integer, and names that are not in order. -/
def widest : Json :=
  .obj [("b", .arr [.null, .num (.int (-0x8000000000000000))]),
    ("a\"\n", .num (.int 0xFFFFFFFFFFFFFFFF))]

theorem widest_plain : widest.Plain := by
  refine .obj (by decide) ?_
  simp only [List.mem_cons, List.not_mem_nil, or_false, forall_eq_or_imp, forall_eq]
  refine ⟨.arr ?_, .int (by decide) (by decide)⟩
  simp only [List.mem_cons, List.not_mem_nil, or_false, forall_eq_or_imp, forall_eq]
  exact ⟨.null, .int (by decide) (by decide)⟩

theorem publishJson_opened (j : Json) : opened.publishJson 0 orders (.ok j) =
    (.ok (), opened.appended ⟨orders, none, Utf8.bytes j.print⟩) :=
  publishJson_open orders (show opened.writer 0 = .ok {} from rfl) rfl rfl
    (Utf8.bytes_ne_nil j.print_ne_nil)

theorem nesting_law_widest : widest.Plain ∧ ∃ v m,
    opened.publishJson 0 orders (.ok widest) = (.ok (), v) ∧
      (∀ t, v.broker.log t = opened.broker.log t ++ if t = "orders" then [m] else []) ∧
      ∃ j', valueDecoder.decode m.payload = .ok j' ∧ widest.Same j' := by
  have accepted := publishJson_opened widest
  obtain ⟨m, appended, reread, -⟩ := nesting_law widest_plain accepted
  obtain ⟨j', decoded, same, -⟩ := reread (by decide)
  exact ⟨widest_plain, _, m, accepted, appended, j', decoded, same⟩

/-- An empty list within as many lists. -/
def nested : Nat → Json
  | 0 => .arr []
  | n + 1 => .arr [nested n]

theorem nested_plain (n : Nat) : (nested n).Plain := by
  induction n with
  | zero => exact .arr nofun
  | succ n ih =>
    refine .arr ?_
    intro j member
    exact List.mem_singleton.mp member ▸ ih

theorem depth_nested (n : Nat) : (nested n).depth = n + 1 := by
  induction n with
  | zero => rfl
  | succ n ih => rw [nested, Json.depth, Json.depthOfItems, Json.depthOfItems, ih, Nat.max_zero]

/-- A queue takes a value that no subscriber can read: its message is dropped. -/
theorem unreadable : ∃ (j : Json) (v : World Ledger String) (m : Message), j.Plain ∧
    opened.publishJson 0 orders (.ok j) = (.ok (), v) ∧ v.broker.log "orders" = [m] ∧
    (∀ j', valueDecoder.decode m.payload ≠ .ok j') ∧
    ∀ listener calls, ∃ e, (Subscriber.typed valueDecoder listener).receive calls m =
      (.answered true 0, [.line (Subscriber.typedError (some m) e)], calls) := by
  let m := opened.broker.entry opened.now ⟨orders, none, Utf8.bytes (nested 127).print⟩
  obtain ⟨place, failed⟩ := decode_tooDeep (nested_plain 127) (by rw [depth_nested]; decide)
  have failed : valueDecoder.decode m.payload = .error _ := failed
  refine ⟨nested 127, _, m, nested_plain 127, publishJson_opened _, rfl, ?_, ?_⟩
  · intro j' decoded
    rw [failed] at decoded
    cases decoded
  · intro listener calls
    exact ⟨_, receive_undecoded failed listener calls⟩

end World

end Courier.Queue
