import Courier.Proofs.Json.Values
import Courier.Proofs.Queue.Closing

/-!
# Closing is final

A queue that has given up its writer never gets another one, whatever is asked
of it and of the others:

* `Retires`: its numbers stand still, and it can only lose subscriptions;
* `Refuses`: it takes nothing, answers why, and is left as it was;
* `finality_law`: this holds from the moment the writer is taken on, and once
  the subscriptions are given up, there are none to be counted or found;
* `close_final`: the same of calls to close that are made as a whole.
-/

namespace Courier.Queue

open Broker (Transport Ledger)

theorem encode_compact_ne_nil (j : Json) : Utf8.encode j.compact ≠ [] := by
  rw [Json.compact, Utf8.bytes_ofList]
  exact Utf8.bytes_ne_nil j.print_ne_nil

namespace World

section
variable {T : Type} [Transport T]

/-- What may have become of a queue without writer. -/
structure Retires (a b : MessageQueue T) : Prop where
  writer : b.writer = none
  next : b.registry.next = a.registry.next
  entries : b.registry.entries.Sublist a.registry.entries

theorem Retires.refl {queue : MessageQueue T} (closed : queue.writer = none) :
    Retires queue queue :=
  ⟨closed, rfl, .refl _⟩

theorem Retires.trans {a b c : MessageQueue T} (first : Retires a b) (second : Retires b c) :
    Retires a c :=
  ⟨second.writer, second.next.trans first.next, second.entries.trans first.entries⟩

/-- Only an open queue gets a subscription, and a closed one is not opened again. -/
theorem Fate.retires {a b : MessageQueue T} (fate : Fate a b) (closed : a.writer = none) :
    Retires a b := by
  cases fate with
  | stays => exact .refl closed
  | subscribes isOpen => exact absurd closed isOpen
  | unsubscribes => exact ⟨closed, rfl, List.filter_sublist⟩
  | parts => exact ⟨rfl, rfl, .refl _⟩
  | empties => exact ⟨closed, rfl, List.nil_sublist _⟩

end

variable {α : Type} {w : World Ledger α} {q : Nat}

/-- The answers of a queue without writer. None of them changes anything, but that a record is
noted which somebody had made before, and now cannot write. -/
structure Refuses (w : World Ledger α) (q : Nat) : Prop where
  publish : ∀ topic payload value, payload.data = .ok value → value ≠ [] →
    w.publish q topic payload = (.error closedQueue, w)
  /-- An empty message is refused for being empty. -/
  empty : ∀ topic payload, payload.data = .ok [] →
    w.publish q topic payload = (.error (Payload.emptyMessage topic), w)
  unproduced : ∀ topic payload e, payload.data = .error e →
    w.publish q topic payload = (.error e, w)
  value : ∀ topic json, w.publishJson q topic (.ok json) = (.error closedQueue, w)
  unwritten : ∀ topic reason,
    w.publishJson q topic (.error reason) = (.error (unwritable reason), w)
  /-- The group is not looked at. -/
  subscribe : ∀ topic group label subscriber,
    w.subscribe q topic group label subscriber = (.error closedQueue, w)
  /-- There is nothing to be closed, and nothing to wait for. -/
  close : w.close q = (none, w)
  take : w.takeWriter q = none
  put : ∀ r, w.put q r = (.error Ledger.writerClosed, w.note (.published r false))

theorem refuses {queue : MessageQueue Ledger} (here : w.queues[q]? = some queue)
    (closed : queue.writer = none) : Refuses w q := by
  have none : w.writer q = .error closedQueue := by simp [writer, here, closed]
  have publish (topic : Topic) (payload : Payload) (value : Bytes) (data : payload.data = .ok value)
      (full : value ≠ []) : w.publish q topic payload = (.error closedQueue, w) := by
    have made : payload.toRecord topic = .ok ⟨topic, payload.key, value⟩ := by
      rw [Payload.toRecord, data]
      cases value with
      | nil => exact absurd rfl full
      | cons => rfl
    simp only [publish_eq, made, none]
  constructor
  case publish => exact publish
  case empty => exact fun topic payload data => by rw [publish_eq, Payload.toRecord, data]
  case unproduced => exact fun topic payload e data => by rw [publish_eq, Payload.toRecord, data]
  case value => exact fun topic json => publish topic _ _ rfl (encode_compact_ne_nil json)
  case unwritten => exact fun topic reason => rfl
  case subscribe => exact fun topic group label subscriber => by rw [World.subscribe, none]
  case close => simp only [World.close, here, closed]
  case take => simp only [takeWriter, here, closed]
  case put => exact fun r => by simp [World.put, inHand, none, Ledger.write]

end World

namespace Closing

open World (Refuses Retires)

variable {α : Type} [DecidableEq α] {s t : Closing α} {q : Nat}

theorem Leads.retires {queue : MessageQueue Ledger} (here : s.world.queues[q]? = some queue)
    (closed : queue.writer = none) (later : Leads s t) :
    ∃ queue', t.world.queues[q]? = some queue' ∧ Retires queue queue' := by
  induction later with
  | refl => exact ⟨queue, here, .refl closed⟩
  | tail _ move ih =>
    obtain ⟨queue₁, here₁, retires₁⟩ := ih
    obtain ⟨half, books⟩ := move.books
    obtain ⟨queue₂, here₂, fate⟩ := books.fate here₁
    exact ⟨queue₂, here₂, retires₁.trans (fate.retires retires₁.writer)⟩

/-- The law of queue `q`, whose writer is gone in `s`, in a later state. -/
structure FinalityLaw (s t : Closing α) (q : Nat) : Prop where
  refuses : Refuses t.world q
  /-- Whatever was tried since, no number was given away and no subscription was added. -/
  retires : ∃ a b, s.world.queues[q]? = some a ∧ t.world.queues[q]? = some b ∧ Retires a b
  /-- The call that took the writer has given up the subscriptions. -/
  none : ∀ n, (q, n) ∈ t.left → t.world.subscriptions q = 0 ∧
    ∀ id, t.world.unsubscribe q id = (.error (unknownSubscription id), t.world)
  /-- Where nobody is between two halves, a call to close may be made as a whole. -/
  whole : t.leaving = [] → ∀ u, Whole t u → Leads t u

/-- **Closing is final.** From the moment its writer was taken, a queue refuses what it is asked to
do, also while the call to close still waits, and another call to close finds nothing to do. When
the subscriptions have been given up, as they are before the call returns, the queue has none. -/
theorem finality_law (run : Leads { world := { broker := {} } } s) (taken : q ∈ s.parted)
    (later : Leads s t) : FinalityLaw s t q := by
  obtain ⟨queue, here, closed⟩ := run.attended.shut q taken
  -- The queue is still there, without its writer, and may only have lost subscriptions.
  obtain ⟨queue', there, retires⟩ := later.retires here closed
  have whole : Leads _ t := run.trans later
  constructor
  case refuses => exact World.refuses there retires.writer
  case retires => exact ⟨queue, queue', here, there, retires⟩
  case none => exact fun n left => whole.attended.none left
  case whole => exact fun quiet _ closes => (closes.leads quiet).1

/-- The same of a call to close that is made as a whole, in any world that can be reached. -/
theorem close_final {w v : World Ledger α} (reach : World.Reachable {} w)
    {queue : MessageQueue Ledger} (here : w.queues[q]? = some queue)
    (later : (w.close q).2.Leads v) :
    Refuses v q ∧ v.subscriptions q = 0 ∧
      (∀ id, v.unsubscribe q id = (.error (unknownSubscription id), v)) ∧
      ∃ a b, (w.close q).2.queues[q]? = some a ∧ v.queues[q]? = some b ∧ Retires a b := by
  obtain ⟨s, runs, rfl⟩ := runs_of_reachable reach
  obtain ⟨t, between, rfl⟩ := whole_of_leads (s := s.closed q) later
  have closed := runs.tail (.close q)
  have ⟨run, quiet⟩ := leads_of_whole rfl closed
  have later := (leads_of_whole quiet between).1
  obtain ⟨a, found, shut⟩ := World.close_shuts here
  obtain ⟨n, left⟩ := (Runs.left_iff closed).mpr ⟨a, found, shut⟩
  obtain ⟨b, there, retires⟩ := later.retires found shut
  obtain ⟨attended, left, -⟩ := run.attended.final left later
  exact ⟨World.refuses there retires.writer, (attended.none left).1, (attended.none left).2,
    a, b, found, there, retires⟩

def subscribing : List (World.Attempt Ledger String) :=
  [.command (.connect ⟨[]⟩ {
      brokers := "memory:9092", username := "develop", password := "secret", mechanisms := "PLAIN"
      protocol := "PLAINTEXT" }),
    .command (.subscribe 0 World.orders "audit" "auditor"
      (.direct ⟨fun _ _ => { accept := true }⟩))]

/-- The queue is without its writer, and still has its subscription. -/
def parting : Closing String where
  world :=
    let w := World.after { broker := {} } subscribing
    { w with queues := w.queues.map fun queue => { queue with writer := none } }
  leaving := [(0, .ok ())]

theorem leads_parting : Leads { world := { broker := {} } } parting := by
  have subscribed := leads_after (α := String) { world := { broker := {} } } subscribing (by
    intro c member
    simp only [subscribing, List.mem_cons, World.Attempt.command.injEq, List.not_mem_nil,
      or_false] at member
    obtain rfl | rfl := member <;> rfl)
  exact subscribed.tail (.take (q := 0) rfl)

/-- While the call to close waits for the loop of the subscription, and when it has returned. -/
theorem finality_law_parting : ∃ t u : Closing String,
    Leads { world := { broker := {} } } parting ∧ parting.parted = [0] ∧
      parting.world.subscriptions 0 = 1 ∧
      Leads parting t ∧ t.left = [(0, 0)] ∧ t.world.pending.map (·.result.isSome) = [false] ∧
      Leads parting u ∧ u.left = [(0, 0)] ∧ u.world.pending.map (·.result.isSome) = [true] ∧
      FinalityLaw parting parting 0 ∧ FinalityLaw parting t 0 ∧ FinalityLaw parting u 0 := by
  have drained := Relation.ReflTransGen.single
    (Move.drain (s := parting) (show _ = [] ++ (0, .ok ()) :: [] from rfl) rfl)
  have stopped := drained.tail (.step (.loop 0) rfl)
  have heard := stopped.tail (.step (.call 0) rfl)
  have returned := heard.tail (.step (.call 0) rfl)
  have law {t : Closing String} (later : Leads parting t) : FinalityLaw parting t 0 :=
    finality_law leads_parting (List.mem_singleton_self _) later
  exact ⟨_, _, leads_parting, rfl, rfl, drained, rfl, rfl, returned, rfl, rfl, law .refl,
    law drained, law returned⟩

end Closing

end Courier.Queue
