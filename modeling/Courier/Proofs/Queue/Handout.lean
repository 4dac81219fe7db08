import Courier.Proofs.Queue.Acceptance

/-!
# What a willing subscriber is handed

A subscriber that accepts everything, in a group that starts at the beginning,
is handed the log itself:

* `Handed`: it has been given the log's entries in their order, each once, as
  far as it has come, and it comes as far as the log goes;
* `Follows.handed`: this holds of every loop that starts at the beginning.
-/

namespace Courier.Queue

open Broker (Ledger)

theorem accepted_of_willing {answers : List (Message × Bool)}
    (willing : ∀ m, (m, false) ∉ answers) : accepted answers = answers.length := by
  apply List.countP_eq_length.mpr
  rintro ⟨m, accept⟩ answered
  cases accept with
  | true => rfl
  | false => exact absurd answered (willing m)

/-- Without a rejection, what was handed over is the start of the log. -/
theorem Told.in_sequence {b : Ledger} {topic : String} {acts : List Act} {pending : Option Message}
    (h : Told b topic 0 acts pending) (willing : ∀ m, (m, false) ∉ acts.filterMap Act.answer) :
    acts.filterMap Act.delivery <+: b.log topic := by
  apply List.prefix_iff_getElem?.mpr
  intro i bound
  have given := List.getElem?_eq_getElem bound
  obtain ⟨entry, place⟩ := h.place given
  have short : i ≤ (acts.filterMap Act.answer).length := by
    rw [h.delivered, List.length_append, List.length_map] at bound
    cases pending <;> simp at bound <;> omega
  have all : accepted ((acts.filterMap Act.answer).take i) = i := by
    rw [accepted_of_willing, List.length_take_of_le short]
    intro m rejected
    exact willing m (List.mem_of_mem_take rejected)
  obtain ⟨j, same, found⟩ := Ledger.at?_eq_some.mp entry
  obtain rfl : j = i := by omega
  exact found

namespace World

variable {α : Type}

/-- The subscriber of loop `k` is handed the log of a topic, each entry once and in order. -/
structure Handed (w : World Ledger α) (k : Nat) (topic : Topic) : Prop where
  inSequence : w.deliveries k <+: w.broker.log topic.name
  /-- A loop that waits for a message has handed over all there are. -/
  complete : ∀ l, w.loops[k]? = some l → l.phase = .parked →
    w.deliveries k = w.broker.log topic.name
  /-- A loop that runs undisturbed hands over the next entry when it fetches. -/
  onward : ∀ l m, w.loops[k]? = some l → l.phase = .ready → l.cancelled = false →
    l.reader.closed = false → l.reader.epoch = w.broker.epoch → w.broker.fetchFaults = 0 →
    (w.broker.log topic.name)[(w.deliveries k).length]? = some m →
    ∃ v, w.loopStep k = some v ∧ v.deliveries k = w.deliveries k ++ [m]

section
variable {w : World Ledger α} {k : Nat} {topic : Topic} {group : String}

/-- The cursor of a loop that has no message in hand has come as far as its subscriber. -/
theorem Follows.reached {l : ReadLoop Ledger α} (h : Follows w k topic group 0)
    (willing : ∀ m, (m, false) ∉ w.answers k) (here : w.loops[k]? = some l)
    (phase : l.phase = .ready ∨ l.phase = .parked ∨ ∃ due, l.phase = .resting due) :
    l.topic = topic ∧ Steady w.broker 0 l (w.acts k) ∧
      l.reader.cursor = (w.deliveries k).length := by
  obtain ⟨l', here', rfl, -, steady⟩ := h
  obtain rfl : l = l' := Option.some.inj (here.symm.trans here')
  obtain ⟨p, course, cursor, -⟩ := steady.course.point phase
  refine ⟨rfl, steady, ?_⟩
  have all : accepted ((w.acts k).filterMap Act.answer) = _ := accepted_of_willing willing
  rw [cursor, course.offset_eq, all, deliveries, course.deliveries_eq, List.length_map]
  omega

/-- The next entry is what an undisturbed fetch hands over. -/
theorem deliveries_step {l : ReadLoop Ledger α} {m : Message} (here : w.loops[k]? = some l)
    (phase : l.phase = .ready) (running : l.cancelled = false)
    (fetched : Ledger.fetch l.reader w.broker =
      (.message m, { l.reader with cursor := l.reader.cursor + 1 }, w.broker)) :
    ∃ v, w.loopStep k = some v ∧ v.deliveries k = w.deliveries k ++ [m] := by
  obtain ⟨t, takes, eq⟩ := fetch_takes w k l phase running
  have step : w.loopStep k = some (w.turned k t) := by
    simp [loopStep, here, phase, running, eq]
  refine ⟨w.turned k t, step, ?_⟩
  have fetched : Broker.Transport.fetch l.reader w.broker = _ := fetched
  rw [deliveries, acts_turned, List.filterMap_append, deliveries, List.append_cancel_left_eq]
  cases takes with
  | @deliver _ _ m' _ _ _ _ _ found =>
    obtain ⟨rfl, -⟩ : m = m' ∧ _ := by simpa [fetched] using found
    simp [Act.delivery]
  | park _ _ found | lose _ _ found | falter _ _ found => simp [fetched] at found
  | stop _ cancelled => simp [running] at cancelled
  | accept other | reject other | leave other | rise other | fail other => simp [phase] at other

/-- A loop that starts at the beginning hands the log to a willing subscriber. -/
theorem Follows.handed (h : Follows w k topic group 0) (willing : ∀ m, (m, false) ∉ w.answers k) :
    Handed w k topic := by
  obtain ⟨l₀, pending, here₀, told, -⟩ := h.told
  have inSequence : w.deliveries k <+: w.broker.log topic.name := told.in_sequence willing
  constructor
  case inSequence => exact inSequence
  case complete =>
    intro l here phase
    obtain ⟨rfl, steady, cursor⟩ := h.reached willing here (.inr (.inl phase))
    have none := Ledger.at?_eq_none.mp (steady.parked phase)
    apply inSequence.eq_of_length_le
    omega
  case onward =>
    intro l m here phase running isOpen current faultless next
    obtain ⟨rfl, steady, cursor⟩ := h.reached willing here (.inl phase)
    apply deliveries_step here phase running
    apply Ledger.fetch_of_open faultless isOpen current
    rw [steady.topic, cursor]
    exact Ledger.at?_eq_some.mpr ⟨_, rfl, next⟩

end

end World

end Courier.Queue
