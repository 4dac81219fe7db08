import Courier.Proofs.Pool.Halves
import Courier.Subscriber
import Mathlib.Data.List.Flatten
import Mathlib.Data.List.Induction
import Mathlib.Logic.Relation

/-!
# Slots of a pool

A pool hands a slot to each value it takes on, and takes it back when the value
is done with:

* `Shift`: a pool with the senders and callbacks that are between two halves of
  their steps, and what has been done so far;
* `Move`: what may happen next, in any order;
* `Balanced`: every slot is free or goes with one value;
* `Whole`: the pool's own steps, which are such moves too;
* `slot_law`: no more is taken on than there are workers, in its order, and
  nothing is taken up twice or lost;
* `Runs.slots`: the same of a pool that takes whole steps.
-/

namespace Courier.Pool

open scoped List

variable {α : Type}

def started (history : List (Event α)) : List α :=
  history.filterMap fun
    | .started v => some v
    | _ => none

def finished (history : List (Event α)) : List α :=
  history.filterMap fun
    | .finished v => some v
    | _ => none

@[simp] theorem started_concat (history : List (Event α)) (v : α) :
    started (history ++ [.started v]) = started history ++ [v] := by
  simp [started]

@[simp] theorem started_finished (history : List (Event α)) (v : α) :
    started (history ++ [.finished v]) = started history := by
  simp [started]

@[simp] theorem finished_concat (history : List (Event α)) (v : α) :
    finished (history ++ [.finished v]) = finished history ++ [v] := by
  simp [finished]

@[simp] theorem finished_started (history : List (Event α)) (v : α) :
    finished (history ++ [.started v]) = finished history := by
  simp [finished]

def oneByOne (done : List α) : List (Event α) := done.flatMap fun v => [.started v, .finished v]

theorem oneByOne_concat (done : List α) (v : α) :
    oneByOne (done ++ [v]) = oneByOne done ++ [.started v, .finished v] := by
  simp [oneByOne]

def Effect.event : Effect α → Option (Event α)
  | .started v => some (.started v)
  | .finished v _ => some (.finished v)
  | .accepted _ | .refused _ | .none => .none

/-- What enters the channel by a step, of what is offered. -/
def Effect.entering (offers : List (Nat × α)) : Effect α → List (Nat × α)
  | .accepted ticket => (offers.find? (·.1 == ticket)).toList
  | .refused _ | .started _ | .finished _ _ | .none => []

/-- A pool at work. A value is sent under a ticket. -/
structure Shift (α : Type) where
  pool : Pool α
  /-- What has a slot and has not entered the channel yet. -/
  granted : List (Nat × α) := []
  /-- Slots of callbacks that have completed and not given them back yet. -/
  spent : Nat := 0
  sent : List (Nat × α) := []
  /-- All that has ever entered the channel, in that order. -/
  entered : List (Nat × α) := []
  history : List (Event α) := []

namespace Shift

def opening (label : String) (work : α → Work) (size : Nat) : Shift α where
  pool := Pool.start label work size

/-- What may happen next in a pool that nobody closes. A callback may take any time. -/
inductive Move (s : Shift α) : Shift α → Prop where
  | send (ticket : Nat) (value : α) :
    Move s { s with pool := s.pool.offer ticket value, sent := s.sent ++ [(ticket, value)] }
  | grant {offer : Nat × α} {p : Pool α} (gets : s.pool.grant = some (offer, p)) :
    Move s { s with pool := p, granted := s.granted ++ [offer] }
  /-- Whoever has a slot may come first. -/
  | enter {before after : List (Nat × α)} {offer : Nat × α} {p : Pool α}
    (has : s.granted = before ++ offer :: after) (enters : s.pool.enter offer.2 = some p) :
    Move s { s with pool := p, granted := before ++ after, entered := s.entered ++ [offer] }
  | take {now i : Nat} {p : Pool α} {v : α} (takes : s.pool.take now i = some (p, .started v)) :
    Move s { s with pool := p, history := s.history ++ [.started v] }
  | complete {i : Nat} {v : α} {p : Pool α} (completes : s.pool.complete i = some (v, p)) :
    Move s { s with pool := p, spent := s.spent + 1, history := s.history ++ [.finished v] }
  | release (spent : 0 < s.spent) :
    Move s { s with pool := s.pool.release, spent := s.spent - 1 }

abbrev Leads : Shift α → Shift α → Prop := Relation.ReflTransGen Move

/-- After a step of the pool with nothing between its halves. -/
def stepped (s : Shift α) (p : Pool α) (effect : Effect α) : Shift α :=
  { s with
    pool := p
    entered := s.entered ++ effect.entering s.pool.offers
    history := s.history ++ effect.event.toList }

/-- The values that have a slot. -/
def inFlight (s : Shift α) : Nat :=
  s.granted.length + s.pool.accepted.length + s.pool.running.length + s.spent

/-- Every slot is free or goes with one value, and every value is where it belongs. -/
structure Balanced (s : Shift α) (size : Nat) : Prop where
  staffed : s.pool.Staffed
  workers : s.pool.size = size
  slots : s.pool.free + s.inFlight = size
  sent : s.sent ~ s.entered ++ (s.granted ++ s.pool.offers)
  order : s.entered.map (·.2) = started s.history ++ s.pool.accepted
  running : started s.history ~ finished s.history ++ s.pool.running
  serial : size = 1 → ∃ done, s.history = oneByOne done ++ s.pool.running.map .started

variable {s t : Shift α} {size : Nat}

theorem opening_balanced {label : String} {work : α → Work} (willing : ∀ v, work v ≠ .fails)
    (n : Nat) : Balanced (opening label work n) (max n 1) := by
  have positive : max n 1 ≠ 0 := by omega
  have none : (opening label work n).pool.running = [] := by
    simp [opening, Pool.start, Pool.running, List.filterMap_replicate, Worker.value]
  constructor
  case staffed =>
    constructor
    case unclosed => rfl
    case willing => exact willing
    case nonempty => simp [opening, Pool.start, positive]
    case alive =>
      intro w member
      rw [List.eq_of_mem_replicate member]
      rfl
  case workers => simp [opening, Pool.start, Pool.size]
  case slots =>
    rw [inFlight, none]
    rfl
  case sent => rfl
  case order => rfl
  case running => rw [none]; rfl
  case serial => exact fun _ => ⟨[], by rw [none]; rfl⟩

theorem Balanced.room (h : Balanced s size) (some : s.granted ≠ []) :
    s.pool.accepted.length < s.pool.size := by
  have slots := h.slots
  have holders := List.length_pos_iff.mpr some
  rw [h.workers]
  unfold inFlight at slots
  omega

theorem Balanced.move (h : Balanced s size) (move : Move s t) : Balanced t size := by
  obtain ⟨staffed, workers, slots, sent, order, running, serial⟩ := h
  unfold inFlight at slots
  cases move with
  | send ticket value =>
    refine ⟨staffed.same rfl rfl rfl, workers, slots, ?_, order, running, serial⟩
    simpa [Pool.offer] using sent.append_right [(ticket, value)]
  | @grant offer p gets =>
    obtain ⟨rest, offers, free, rfl⟩ := grant_some gets
    refine ⟨staffed.same rfl rfl rfl, workers, ?_, ?_, order, running, serial⟩
    · simp only [inFlight, List.length_append, List.length_singleton, Pool.running] at slots ⊢
      omega
    · simpa [offers] using sent
  | @enter before after offer p has enters =>
    obtain rfl := enter_some enters
    refine ⟨staffed.same rfl rfl rfl, workers, ?_, ?_, ?_, running, serial⟩
    · simp only [inFlight, has, List.length_append, List.length_cons, List.length_nil,
        Pool.running] at slots ⊢
      omega
    · rw [has] at sent
      calc s.sent
          _ ~ s.entered ++ (before ++ offer :: after ++ s.pool.offers) := sent
          _ ~ s.entered ++ (offer :: (before ++ after) ++ s.pool.offers) :=
            (List.perm_middle.append_right _).append_left _
          _ = s.entered ++ [offer] ++ (before ++ after ++ s.pool.offers) := by simp
    · simp [order]
  | @take now i p v takes =>
    obtain ⟨rest, _, accepted, rfl, same, more, staffed⟩ := staffed.take_some takes
    have count := more.length_eq
    simp only [List.length_append, List.length_singleton] at count
    simp only [accepted, List.length_cons] at slots
    refine ⟨staffed, same.trans workers, by simp only [inFlight]; omega, sent, ?_, ?_, ?_⟩
    · simp [order, accepted]
    · rw [started_concat, finished_started]
      calc started s.history ++ [v]
          _ ~ finished s.history ++ s.pool.running ++ [v] := running.append_right _
          _ = finished s.history ++ (s.pool.running ++ [v]) := List.append_assoc ..
          _ ~ finished s.history ++ Pool.running _ := more.symm.append_left _
    · intro one
      obtain ⟨done, history⟩ := serial one
      -- The only slot goes with the value that is taken up.
      have none : s.pool.running = [] := List.eq_nil_of_length_eq_zero (by omega)
      rw [none, List.nil_append, List.perm_singleton] at more
      rw [none, List.map_nil, List.append_nil] at history
      exact ⟨done, by rw [history, more]; rfl⟩
  | @complete i v p completes =>
    obtain ⟨idling, rfl, same, less, staffed⟩ := staffed.complete_some completes
    have count := less.length_eq
    simp only [List.length_append, List.length_singleton] at count
    refine ⟨staffed, same.trans workers, by simp only [inFlight]; omega, sent, ?_, ?_, ?_⟩
    · simp [order]
    · rw [started_finished, finished_concat]
      calc started s.history
          _ ~ finished s.history ++ s.pool.running := running
          _ ~ finished s.history ++ (Pool.running _ ++ [v]) := less.symm.append_left _
          _ ~ finished s.history ++ ([v] ++ Pool.running _) := List.perm_append_comm.append_left _
          _ = finished s.history ++ [v] ++ Pool.running _ := (List.append_assoc ..).symm
    · intro one
      obtain ⟨done, history⟩ := serial one
      obtain ⟨u, only⟩ := List.length_eq_one_iff.mp (show s.pool.running.length = 1 by omega)
      rw [only, List.perm_singleton, List.append_eq_singleton_iff] at less
      obtain ⟨none, last⟩ | ⟨-, absent⟩ := less
      · obtain rfl : v = u := List.singleton_inj.mp last
        refine ⟨done ++ [v], ?_⟩
        rw [none, history, only, oneByOne_concat]
        simp
      · cases absent
  | release spent =>
    refine ⟨staffed.same rfl rfl rfl, workers, ?_, sent, order, running, serial⟩
    simp only [inFlight, Pool.release, Pool.running] at slots ⊢
    omega

theorem Balanced.leads (h : Balanced s size) (run : s.Leads t) : Balanced t size := by
  induction run with
  | refl => exact h
  | tail _ move ih => exact ih.move move

theorem Leads.balanced {label : String} {work : α → Work} (willing : ∀ v, work v ≠ .fails)
    {n : Nat} (run : (opening label work n).Leads s) : Balanced s (max n 1) :=
  (opening_balanced willing n).leads run

/-- The steps of a pool that nobody closes are such moves, two for what has two halves. -/
theorem Balanced.step_leads [DecidableEq α] (h : Balanced s size) (between : s.granted = [])
    {now : Nat} {released : List α} {step : Step} {p : Pool α} {effect : Effect α}
    (possible : s.pool.step now released step = some (p, effect)) :
    s.Leads (s.stepped p effect) := by
  cases step with
  | accept =>
    -- The slots leave room in the channel, so that what gets one may enter at once.
    have slots := h.slots
    rw [← h.workers] at slots
    unfold inFlight at slots
    have accepts : s.pool.accept = some (p, effect) := possible
    rw [accept_eq h.staffed (by omega), Option.bind_eq_some_iff] at accepts
    obtain ⟨⟨offer, q⟩, gets, rest⟩ := accepts
    obtain ⟨r, enters, eq⟩ := Option.map_eq_some_iff.mp rest
    obtain ⟨rfl, rfl⟩ := Prod.mk.inj eq
    obtain ⟨others, offers, -⟩ := grant_some gets
    have first : Move s { s with pool := q, granted := s.granted ++ [offer] } := .grant gets
    have has : s.granted ++ [offer] = [] ++ offer :: [] := by rw [between]
    have second :=
      Move.enter (s := { s with pool := q, granted := s.granted ++ [offer] }) has enters
    have both : s.stepped r (.accepted offer.1) =
        { s with pool := r, granted := [] ++ [], entered := s.entered ++ [offer] } := by
      simp [stepped, Effect.entering, Effect.event, offers, between]
    exact both ▸ .tail (.single first) second
  | take i =>
    have takes : s.pool.take now i = some (p, effect) := possible
    obtain ⟨v, rfl⟩ := take_effect takes
    have once : s.stepped p (.started v) =
        { s with pool := p, history := s.history ++ [.started v] } := by
      simp [stepped, Effect.entering, Effect.event]
    exact once ▸ .single (.take takes)
  | finish i =>
    -- A callback that ends gives its slot back in the same step.
    obtain ⟨v, r, completes, rfl, freed, rfl⟩ := finish_eq possible
    have first := Move.complete (s := s) completes
    have second := Move.release (s := { s with
      pool := r, spent := s.spent + 1, history := s.history ++ [.finished v] }) (Nat.succ_pos _)
    have both : s.stepped r.release (.finished v freed) =
        { s with
          pool := r.release
          spent := s.spent + 1 - 1
          history := s.history ++ [.finished v] } := by
      simp [stepped, Effect.entering, Effect.event]
    exact both ▸ .tail (.single first) second
  | halt i =>
    have halts : s.pool.halt i = some (p, effect) := possible
    unfold halt at halts
    split at halts
    · simp [h.staffed.unclosed] at halts
    · cases halts

/-- What a pool does when nothing comes between two halves: it is offered a value, or takes one of
its steps. -/
inductive Whole [DecidableEq α] (s : Shift α) : Shift α → Prop where
  | offer (ticket : Nat) (value : α) :
    Whole s { s with pool := s.pool.offer ticket value, sent := s.sent ++ [(ticket, value)] }
  | step {now : Nat} {released : List α} {step : Step} {p : Pool α} {effect : Effect α}
    (possible : s.pool.step now released step = some (p, effect)) : Whole s (s.stepped p effect)

theorem Balanced.whole [DecidableEq α] (h : Balanced s size) (between : s.granted = [])
    (whole : Whole s t) : s.Leads t ∧ t.granted = [] ∧ t.spent = s.spent := by
  cases whole with
  | offer ticket value => exact ⟨.single (.send ticket value), between, rfl⟩
  | step possible => exact ⟨h.step_leads between possible, between, rfl⟩

/-- The law of a pool with a number of slots. -/
structure SlotLaw (s : Shift α) (size : Nat) : Prop where
  workers : s.pool.size = size
  /-- A slot is free, or it goes with a value that was accepted and not started, or with a callback
  until that has given it back. -/
  slots : s.pool.free + (s.granted.length + s.pool.accepted.length) +
    (s.pool.running.length + s.spent) = size
  running : s.pool.running.length ≤ size
  channel : s.pool.accepted.length ≤ size
  /-- What has a slot enters the channel at any time. -/
  unblocked : ∀ offer ∈ s.granted, ∃ p, s.pool.enter offer.2 = some p
  idle : s.pool.free = size - s.inFlight
  /-- The first of those who wait gets a slot exactly when fewer values are in flight than there
  are workers. -/
  granting : s.pool.grant.isSome ↔ s.pool.offers ≠ [] ∧ s.inFlight < size
  /-- What has entered was taken up in that order, or is still in the channel. -/
  order : s.entered.map (·.2) = started s.history ++ s.pool.accepted
  /-- What was sent has entered, or is on its way or waits, each of it once. -/
  sent : s.sent ~ s.entered ++ (s.granted ++ s.pool.offers)
  completed : started s.history ~ finished s.history ++ s.pool.running
  /-- A single worker starts a callback only after the one before has completed. -/
  serial : size = 1 → ∃ done, s.history = oneByOne done ++ s.pool.running.map .started
  /-- Where nothing is between two halves, the pool may take a step as a whole. -/
  whole : ∀ [DecidableEq α], s.granted = [] → ∀ t, Whole s t → s.Leads t

/-- **A pool takes on no more than it has workers for**, whoever sends and whatever order the
halves of all steps come in, and it takes everything up in its order. -/
theorem slot_law {label : String} {work : α → Work} (willing : ∀ v, work v ≠ .fails) {n : Nat}
    (run : (opening label work n).Leads s) : SlotLaw s (max n 1) := by
  have balanced := run.balanced willing
  have ⟨staffed, workers, slots, sent, order, running, serial⟩ := balanced
  unfold inFlight at slots
  constructor
  case workers => exact workers
  case slots => omega
  case running => omega
  case channel => omega
  case unblocked =>
    intro offer holds
    have room := balanced.room (List.ne_nil_of_mem holds)
    exact ⟨_, if_pos room⟩
  case idle => unfold inFlight; omega
  case granting =>
    rw [staffed.grant_isSome]
    unfold inFlight
    apply and_congr_right
    intro _
    omega
  case order => exact order
  case sent => exact sent
  case completed => exact running
  case serial => exact serial
  case whole =>
    intro _ between t whole
    exact (balanced.whole between whole).1

/-- Two of three senders get a slot, and the second one comes first; the third gets a slot when
one callback has completed and given it back. -/
theorem slot_law_rivals : ∃ s, (opening "jobs" (fun _ : String => .held) 2).Leads s ∧
    s.entered.map (·.2) = ["second", "first"] ∧
    s.history = [.started "second", .started "first", .finished "first"] ∧
    s.granted = [(2, "third")] ∧ SlotLaw s 2 := by
  have asked : (opening "jobs" (fun _ : String => .held) 2).Leads _ :=
    ((Relation.ReflTransGen.refl.tail (.send 0 "first")).tail (.send 1 "second")).tail
      (.send 2 "third")
  have granted := (asked.tail (.grant rfl)).tail (.grant rfl)
  have entered := (granted.tail
    (.enter (show _ = [(0, "first")] ++ (1, "second") :: [] from rfl) rfl)).tail
      (.enter (show _ = [] ++ (0, "first") :: [] from rfl) rfl)
  have taken := (entered.tail
    (.take (show Pool.take 0 _ 0 = some (_, .started "second") from rfl))).tail
      (.take (show Pool.take 0 _ 1 = some (_, .started "first") from rfl))
  have completed := (taken.tail (.complete (i := 1) rfl)).tail (.release (Nat.succ_pos _))
  have run := completed.tail (.grant rfl)
  exact ⟨_, run, rfl, rfl, rfl, slot_law nofun run⟩

/-- A shift in which nothing ever comes between two halves. -/
abbrev Runs [DecidableEq α] (label : String) (work : α → Work) (n : Nat) : Shift α → Prop :=
  Relation.ReflTransGen Whole (opening label work n)

/-- The same of the pool's own steps: what was accepted and not taken up and what callbacks run for
has the slots that are not free, and an offer is accepted exactly when there are fewer of these than
workers. -/
theorem Runs.slots [DecidableEq α] {label : String} {work : α → Work}
    (willing : ∀ v, work v ≠ .fails) {n : Nat} (run : Runs label work n s) :
    s.pool.size = max n 1 ∧
      s.pool.free + s.pool.accepted.length + s.pool.running.length = max n 1 ∧
      (s.pool.accept.isSome ↔ s.pool.offers ≠ [] ∧
        s.pool.accepted.length + s.pool.running.length < max n 1) ∧
      s.entered.map (·.2) = started s.history ++ s.pool.accepted ∧
      s.sent ~ s.entered ++ s.pool.offers ∧
      (n ≤ 1 → ∃ done, s.history = oneByOne done ++ s.pool.running.map .started) := by
  have ⟨balanced, between, spent⟩ : Balanced s (max n 1) ∧ s.granted = [] ∧ s.spent = 0 := by
    induction run with
    | refl => exact ⟨opening_balanced willing n, rfl, rfl⟩
    | tail _ whole ih =>
      obtain ⟨balanced, between, spent⟩ := ih
      obtain ⟨leads, between, same⟩ := balanced.whole between whole
      exact ⟨balanced.leads leads, between, same.trans spent⟩
  have slots := balanced.slots
  simp only [inFlight, between, spent, List.length_nil] at slots
  refine ⟨balanced.workers, by omega, ?_, balanced.order, ?_, fun one => balanced.serial (by omega)⟩
  · rw [balanced.staffed.accept_isSome]
    apply and_congr_right
    intro _
    omega
  · simpa [between] using balanced.sent

end Shift

end Courier.Pool
