import Courier.Proofs.Queue.Change

/-!
# Writers of open queues

A writer is closed when its queue gives it up, and not before:

* `Unclosed`: no queue holds a writer that was closed;
* `writer_open`: an open queue can write whenever its broker takes records.
-/

namespace Courier.Queue.World

open Broker (Ledger Transport)

variable {α : Type}

/-- No queue holds a writer that was closed. -/
def Unclosed (w : World Ledger α) : Prop :=
  ∀ queue ∈ w.queues, ∀ writer : Ledger.Writer, queue.writer = some writer → writer.closed = false

section
variable {w : World Ledger α}

/-- A queue that keeps its writer, or gives it up, takes its old place. -/
theorem Unclosed.setQueue (h : Unclosed w) {q : Nat} {queue queue' : MessageQueue Ledger}
    (here : w.queues[q]? = some queue)
    (same : queue'.writer = queue.writer ∨ queue'.writer = none) :
    Unclosed (w.setQueue q queue') := by
  intro other member writer held
  obtain old | rfl := List.mem_or_eq_of_mem_set member
  · exact h other old writer held
  · obtain same | none := same
    · rw [same] at held
      have before : queue ∈ w.queues := List.mem_of_getElem? here
      exact h queue before writer held
    · simp [none] at held

theorem step_queues [DecidableEq α] {v : World Ledger α} {s : Step}
    (possible : w.step s = some v) : v.queues = w.queues := by
  cases s with
  | loop k =>
    obtain ⟨l, t, -, -, rfl⟩ := loopStep_takes possible
    rfl
  | pool p s => exact (poolStep_apart possible).queues
  | call c => exact (callStep_apart possible).queues
  | wait ms =>
    obtain rfl := Option.some.inj possible
    rfl

theorem connect_unclosed (h : Unclosed w) (files : Files) (config : Broker.Config) :
    Unclosed (w.connect files config).2 := by
  unfold connect
  cases config.validate files with
  | error e => exact h
  | ok connection =>
    simp only [Transport.probe, Transport.openWriter, Ledger.probe]
    split
    · exact h
    · intro queue member writer held
      obtain old | new := List.mem_append.mp member
      · exact h queue old writer held
      · obtain rfl := List.mem_singleton.mp new
        obtain rfl := Option.some.inj held
        rfl

theorem publish_unclosed (h : Unclosed w) (q : Nat) (topic : Topic) (payload : Payload) :
    Unclosed (w.publish q topic payload).2 := by
  rw [publish_eq]
  split
  · exact h
  · next r _ =>
    split
    · exact h
    · obtain eq | ⟨e, eq⟩ := put_eq w q r
      · rw [eq]
        exact h
      · rw [eq]
        exact h

theorem subscribe_unclosed (h : Unclosed w) (q : Nat) (topic : Topic) (group label : String)
    (subscriber : Subscriber α) : Unclosed (w.subscribe q topic group label subscriber).2 := by
  unfold subscribe
  split
  · exact h
  · exact h
  · next queue _ here =>
    split
    · exact h
    · simp only [Transport.openReader]
      exact Unclosed.setQueue (w := { w with loops := _ }) h here (.inl rfl)

theorem unsubscribe_unclosed (h : Unclosed w) (q : Nat) (id : SubscriptionId) :
    Unclosed (w.unsubscribe q id).2 := by
  unfold unsubscribe
  split
  · exact h
  · next queue here =>
    split
    · exact h
    · exact Unclosed.setQueue h here (.inl rfl)

theorem close_unclosed (h : Unclosed w) (q : Nat) : Unclosed (w.close q).2 := by
  unfold close
  split
  · exact h
  · next queue here =>
    split
    · exact h
    · exact Unclosed.setQueue h here (.inr rfl)

theorem control_unclosed (h : Unclosed w) (c : Ledger.Control) : Unclosed (w.control c) := by
  unfold control
  simp only
  split <;> exact h

theorem command_unclosed (h : Unclosed w) (c : Command Ledger α) : Unclosed (w.obey c) := by
  cases c with
  | connect files config => exact connect_unclosed h files config
  | publish q topic payload => exact publish_unclosed h q topic payload
  | publishJson q topic value =>
    cases value with
    | error reason => exact h
    | ok json => exact publish_unclosed h q topic _
  | subscribe q topic group label s => exact subscribe_unclosed h q topic group label s
  | unsubscribe q id => exact unsubscribe_unclosed h q id
  | close q => exact close_unclosed h q
  | drop | startPool | closePool | shutdownPool | release => exact h
  | control c => exact control_unclosed h c

end

theorem reachable_unclosed [DecidableEq α] {w : World Ledger α} (reach : Reachable {} w) :
    Unclosed w := by
  induction reach with
  | start => nofun
  | next _ move ih =>
    cases move with
    | step s possible =>
      intro queue member
      rw [step_queues possible] at member
      exact ih queue member
    | command c => exact command_unclosed ih c

theorem writer_open [DecidableEq α] {w : World Ledger α} {q : Nat} {writer : Ledger.Writer}
    (reach : Reachable {} w) (held : w.writer q = .ok writer) : writer.closed = false := by
  unfold World.writer at held
  split at held
  · next writer' found =>
    obtain rfl := Except.ok.inj held
    obtain ⟨queue, here, holds⟩ := Option.bind_eq_some_iff.mp found
    exact reachable_unclosed reach queue (List.mem_of_getElem? here) _ holds
  · cases held

end Courier.Queue.World
