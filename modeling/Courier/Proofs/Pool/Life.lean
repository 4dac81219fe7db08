import Courier.Proofs.Pool.Shift

/-!
# The life of a pool

A pool may be closed at any time, and a callback may fail instead of completing.
What is sent to it is accounted for to its end:

* `Life`: a pool with the senders and callbacks that are between two halves of
  their steps, and what has become of all that was sent;
* `Work` and `Move`: what may happen next, in any order;
* `Sound`: every slot and every value is where it belongs;
* `StopLaw`: what becomes of a pool that has been closed;
* `Sound.step_works`: the steps of a pool are such moves.
-/

namespace Courier.Pool

open scoped List

variable {α : Type}

/-- What has become of the values that were sent to a pool. -/
structure Tally (α : Type) where
  /-- What has a slot and has not entered the channel yet. -/
  granted : List (Nat × α) := []
  /-- Slots of callbacks that have completed and not given them back yet. -/
  spent : Nat := 0
  sent : List (Nat × α) := []
  entered : List (Nat × α) := []
  returned : List (Nat × α) := []
  history : List (Event α) := []
  /-- The values whose callbacks have failed. -/
  failed : List α := []
  /-- The values that had entered the channel and went with the last worker. -/
  dropped : List α := []

/-- A pool with all that has become of it. -/
structure Life (α : Type) extends Tally α where
  pool : Pool α

/-- Whose value was taken or given back. -/
def Effect.verdict : Effect α → Option (Nat × Bool)
  | .accepted ticket => some (ticket, true)
  | .refused ticket => some (ticket, false)
  | _ => Option.none

/-- What goes with worker `i` when it is set: all that is in the channel if no worker is left. -/
def lost (p : Pool α) (i : Nat) (w : Worker α) : List α :=
  if ({ p with workers := p.workers.set i w } : Pool α).isAlive then [] else p.accepted

namespace Life

def opening (label : String) (work : α → Courier.Work) (size : Nat) : Life α where
  pool := Pool.start label work size

/-- What a pool may do next, and what is to be seen of it. A callback may take any time, and it may
fail. -/
inductive Work (s : Life α) : Effect α → Life α → Prop where
  /-- The first of those who wait gets a slot. -/
  | grant {offer : Nat × α} {rest : List (Nat × α)} (offers : s.pool.offers = offer :: rest)
    (unclosed : s.pool.closed = false) (free : s.pool.free ≠ 0) :
    Work s .none { s with
      pool := { s.pool with offers := rest, free := s.pool.free - 1 }
      granted := s.granted ++ [offer] }
  /-- Whoever waits may be the first to learn that the pool is closed. -/
  | refuse {before after : List (Nat × α)} {offer : Nat × α}
    (offers : s.pool.offers = before ++ offer :: after) (closed : s.pool.closed = true) :
    Work s (.refused offer.1) { s with
      pool := { s.pool with offers := before ++ after }, returned := s.returned ++ [offer] }
  | enter {before after : List (Nat × α)} {offer : Nat × α} {p : Pool α}
    (has : s.granted = before ++ offer :: after) (alive : s.pool.isAlive = true)
    (enters : s.pool.enter offer.2 = some p) :
    Work s (.accepted offer.1) { s with
      pool := p, granted := before ++ after, entered := s.entered ++ [offer] }
  /-- The channel is gone with the last worker: the value goes back, and so does its slot. -/
  | bounce {before after : List (Nat × α)} {offer : Nat × α}
    (has : s.granted = before ++ offer :: after) (deserted : s.pool.isAlive = false) :
    Work s (.refused offer.1) { s with
      pool := s.pool.release, granted := before ++ after, returned := s.returned ++ [offer] }
  | pick {i : Nat} {v : α} {rest : List α} (ending : Ending)
    (idle : s.pool.workers[i]? = some .idle) (accepted : s.pool.accepted = v :: rest) :
    Work s (.started v) { s with
      pool := { s.pool with accepted := rest }.setWorker i (.busy v ending)
      history := s.history ++ [.started v] }
  | complete {i : Nat} {v : α} {p : Pool α} (freed : Bool)
    (completes : s.pool.complete i = some (v, p)) :
    Work s (.finished v freed) { s with
      pool := p, spent := s.spent + 1, history := s.history ++ [.finished v] }
  | release (spent : 0 < s.spent) :
    Work s .none { s with pool := s.pool.release, spent := s.spent - 1 }
  | crash {i : Nat} {v : α} {ending : Ending} (busy : s.pool.workers[i]? = some (.busy v ending)) :
    Work s .none { s with
      pool := s.pool.release.setWorker i .dead
      failed := s.failed ++ [v]
      dropped := s.dropped ++ s.pool.lost i .dead }
  | halt {i : Nat} (idle : s.pool.workers[i]? = some .idle) (closed : s.pool.closed = true) :
    Work s .none { s with
      pool := s.pool.setWorker i .stopped, dropped := s.dropped ++ s.pool.lost i .stopped }

/-- What may happen next to a pool. -/
inductive Move (s : Life α) : Life α → Prop where
  | send (ticket : Nat) (value : α) :
    Move s { s with pool := s.pool.offer ticket value, sent := s.sent ++ [(ticket, value)] }
  | close : Move s { s with pool := s.pool.close }
  | work {effect : Effect α} {t : Life α} (works : Work s effect t) : Move s t

abbrev Leads : Life α → Life α → Prop := Relation.ReflTransGen Move

/-- What is under way to the channel under a ticket: it has a slot, or it waits for one. -/
def underway (s : Life α) (ticket : Nat) : List (Nat × α) :=
  (s.granted ++ s.pool.offers).filter (·.1 = ticket)

/-- Every slot is free or goes with one value, and every value is where it belongs. -/
structure Sound (s : Life α) (size : Nat) : Prop where
  workers : s.pool.size = size
  slots : s.pool.free + (s.granted.length + s.pool.accepted.length) +
    (s.pool.running.length + s.spent) = size
  sent : s.sent ~ s.entered ++ (s.granted ++ s.pool.offers) ++ s.returned
  order : s.entered.map (·.2) = started s.history ++ (s.dropped ++ s.pool.accepted)
  running : started s.history ~ finished s.history ++ (s.failed ++ s.pool.running)
  /-- Nothing is dropped while a worker is there. -/
  manned : s.pool.isAlive = true → s.dropped = []
  deserted : s.pool.isAlive = false → s.pool.accepted = []
  /-- Nothing goes back while the pool is open and a worker is there. -/
  taken : s.pool.closed = false → s.pool.isAlive = true → s.returned = []

end Life

section
variable {p : Pool α} {i : Nat} {a b : Worker α}

theorem running_setWorker (here : p.workers[i]? = some a) (b : Worker α) :
    (p.setWorker i b).running ++ a.value.toList ~ p.running ++ b.value.toList := by
  rw [running, setWorker_workers]
  exact running_set here

/-- Setting a worker takes no slot away and makes none, and what is lost has been in the channel. -/
theorem setWorker_channel (p : Pool α) (i : Nat) (b : Worker α) :
    (p.setWorker i b).free + (p.setWorker i b).accepted.length = p.free + p.accepted.length ∧
      p.lost i b ++ (p.setWorker i b).accepted = p.accepted := by
  unfold setWorker lost
  simp only
  split
  · exact ⟨rfl, rfl⟩
  · exact ⟨by simp, by simp⟩

theorem setWorker_isAlive (p : Pool α) (i : Nat) (b : Worker α) :
    (p.setWorker i b).isAlive = ({ p with workers := p.workers.set i b } : Pool α).isAlive := by
  unfold isAlive
  rw [setWorker_workers]

/-- The channel is empty when no worker is left, and nothing is lost when one is. -/
theorem setWorker_fate (p : Pool α) (i : Nat) (b : Worker α) :
    ((p.setWorker i b).isAlive = true → p.lost i b = []) ∧
      ((p.setWorker i b).isAlive = false → (p.setWorker i b).accepted = []) := by
  rw [setWorker_isAlive]
  constructor
  · intro alive
    exact if_pos alive
  · intro deserted
    simp [setWorker, deserted]

theorem setWorker_stays (here : p.workers[i]? = some a) (alive : b.isAlive = true) :
    p.setWorker i b = { p with workers := p.workers.set i b } ∧
      ({ p with workers := p.workers.set i b } : Pool α).isAlive = true := by
  have bound := (List.getElem?_eq_some_iff.mp here).1
  have there : (p.workers.set i b)[i]? = some b := List.getElem?_set_self bound
  exact ⟨setWorker_eq bound alive, List.any_eq_true.mpr ⟨b, List.mem_of_getElem? there, alive⟩⟩

theorem setWorker_rest (p : Pool α) (i : Nat) (b : Worker α) :
    (p.setWorker i b).offers = p.offers ∧ (p.setWorker i b).closed = p.closed ∧
      (p.setWorker i b).size = p.size := by
  refine ⟨?_, ?_, by rw [size, setWorker_workers, List.length_set]; rfl⟩
  · unfold setWorker
    simp only
    split <;> rfl
  · unfold setWorker
    simp only
    split <;> rfl

theorem isAlive_of_worker (here : p.workers[i]? = some a) (alive : a.isAlive = true) :
    p.isAlive = true :=
  List.any_eq_true.mpr ⟨a, List.mem_of_getElem? here, alive⟩

/-- No callback runs without a worker. -/
theorem running_of_deserted (deserted : p.isAlive = false) : p.running = [] := by
  apply List.filterMap_eq_nil_iff.mpr
  intro w member
  have dead : ¬w.isAlive = true := List.any_eq_false.mp deserted w member
  cases w with
  | busy => exact absurd rfl dead
  | idle | stopped | dead => rfl

end

namespace Life

variable {s t : Life α} {size : Nat} {effect : Effect α}

theorem opening_sound (label : String) (work : α → Courier.Work) (n : Nat) :
    Sound (opening label work n) (max n 1) := by
  have none : (opening label work n).pool.running = [] := by
    simp [opening, Pool.start, Pool.running, List.filterMap_replicate, Worker.value]
  constructor
  case workers => simp [opening, Pool.start, Pool.size]
  case slots => rw [none]; rfl
  case sent => rfl
  case order => rfl
  case running => rw [none]; rfl
  case manned => exact fun _ => rfl
  case deserted => exact fun _ => rfl
  case taken => exact fun _ _ => rfl

/-- A value that has a slot finds room in the channel. -/
theorem Sound.room (h : Sound s size) (some : s.granted ≠ []) :
    s.pool.accepted.length < s.pool.size := by
  have slots := h.slots
  have holders := List.length_pos_iff.mpr some
  rw [h.workers]
  omega

/-- What goes back is no longer on its way. -/
theorem sent_back {β : Type} (entered before after returned : List β) (offer : β) :
    entered ++ (before ++ offer :: after) ++ returned ~
      entered ++ (before ++ after) ++ (returned ++ [offer]) :=
  calc entered ++ (before ++ offer :: after) ++ returned
      _ = entered ++ before ++ offer :: (after ++ returned) := by simp
      _ ~ offer :: (entered ++ before ++ (after ++ returned)) := List.perm_middle
      _ ~ entered ++ before ++ (after ++ returned) ++ [offer] :=
        (List.perm_append_singleton ..).symm
      _ = entered ++ (before ++ after) ++ (returned ++ [offer]) := by simp

theorem Sound.ended (h : Sound s size) {i : Nat} {a b : Worker α} {p : Pool α} {failed : List α}
    (here : s.pool.workers[i]? = some a) (alive : a.isAlive = true)
    (pool : p = { s.pool with free := s.pool.free + a.value.toList.length })
    (ceased : b.value = none) (fails : failed = a.value.toList) :
    Sound { s with
      pool := p.setWorker i b
      failed := s.failed ++ failed
      dropped := s.dropped ++ s.pool.lost i b } size := by
  subst pool fails
  let p : Pool α := { s.pool with free := s.pool.free + a.value.toList.length }
  obtain ⟨workers, slots, sent, order, running, manned, -, taken⟩ := h
  obtain ⟨free, channel⟩ := setWorker_channel p i b
  obtain ⟨kept, gone⟩ := setWorker_fate p i b
  obtain ⟨offers, closed, length⟩ := setWorker_rest p i b
  have was : s.pool.isAlive = true := isAlive_of_worker here alive
  have less : (p.setWorker i b).running ++ a.value.toList ~ s.pool.running := by
    have less := running_setWorker (p := p) here b
    rwa [ceased, Option.toList_none, List.append_nil] at less
  constructor
  case workers => exact length.trans workers
  case slots =>
    have count := less.length_eq
    simp only [List.length_append] at count
    have freed : p.free = s.pool.free + a.value.toList.length := rfl
    have same : p.accepted = s.pool.accepted := rfl
    rw [same, freed] at free
    show (p.setWorker i b).free + (s.granted.length + (p.setWorker i b).accepted.length) +
      ((p.setWorker i b).running.length + s.spent) = size
    omega
  case sent => exact offers ▸ sent
  case order =>
    rw [order, ← show s.pool.lost i b ++ (p.setWorker i b).accepted = s.pool.accepted from channel,
      List.append_assoc]
  case running =>
    rw [List.append_assoc]
    calc started s.history
        _ ~ finished s.history ++ (s.failed ++ s.pool.running) := running
        _ ~ finished s.history ++ (s.failed ++ (a.value.toList ++ (p.setWorker i b).running)) :=
          ((List.perm_append_comm.trans less).symm.append_left _).append_left _
  -- What the channel holds is lost with the last worker, and with no other.
  case manned =>
    intro now
    have none : s.pool.lost i b = [] := kept now
    rw [manned was, none]
    rfl
  case deserted => exact gone
  case taken =>
    intro unclosed _
    exact taken (closed ▸ unclosed) was

theorem Sound.picked (h : Sound s size) {i : Nat} {v : α} {rest : List α} (ending : Ending)
    (idle : s.pool.workers[i]? = some .idle) (accepted : s.pool.accepted = v :: rest) :
    Sound { s with
      pool := { s.pool with accepted := rest }.setWorker i (.busy v ending)
      history := s.history ++ [.started v] } size := by
  obtain ⟨workers, slots, sent, order, running, manned, -, taken⟩ := h
  have was : s.pool.isAlive = true := isAlive_of_worker idle rfl
  obtain ⟨same, still⟩ :=
    setWorker_stays (p := { s.pool with accepted := rest }) (b := .busy v ending) idle rfl
  have more := running_setWorker (p := { s.pool with accepted := rest }) idle (.busy v ending)
  rw [show (Worker.idle : Worker α).value.toList = [] from rfl, List.append_nil] at more
  rw [same] at more ⊢
  have count := more.length_eq
  simp only [List.length_append, Worker.value, Option.toList_some, List.length_singleton] at count
  rw [accepted] at order
  simp only [accepted, List.length_cons] at slots
  constructor
  case workers => exact List.length_set.trans workers
  case slots =>
    simp only [Pool.running] at count slots ⊢
    omega
  case sent => exact sent
  case order =>
    rw [started_concat, manned was, order, manned was]
    simp
  case running =>
    rw [started_concat, finished_started]
    calc started s.history ++ [v]
        _ ~ finished s.history ++ (s.failed ++ s.pool.running) ++ [v] := running.append_right _
        _ = finished s.history ++ (s.failed ++ (s.pool.running ++ [v])) := by simp
        _ ~ finished s.history ++ (s.failed ++ Pool.running _) :=
          (more.symm.append_left _).append_left _
  case manned => exact fun _ => manned was
  case deserted =>
    intro none
    rw [still] at none
    cases none
  case taken => exact fun unclosed _ => taken unclosed was

theorem Sound.completed (h : Sound s size) {i : Nat} {v : α} {ending : Ending}
    (busy : s.pool.workers[i]? = some (.busy v ending)) :
    Sound { s with
      pool := s.pool.setWorker i .idle
      spent := s.spent + 1
      history := s.history ++ [.finished v] } size := by
  obtain ⟨workers, slots, sent, order, running, manned, -, taken⟩ := h
  have was : s.pool.isAlive = true := isAlive_of_worker busy rfl
  obtain ⟨same, still⟩ := setWorker_stays (b := .idle) busy rfl
  have less := running_setWorker busy .idle
  rw [show (Worker.idle : Worker α).value.toList = [] from rfl, List.append_nil] at less
  rw [same] at less ⊢
  have count := less.length_eq
  simp only [List.length_append, Worker.value, Option.toList_some, List.length_singleton] at count
  constructor
  case workers => exact List.length_set.trans workers
  case slots =>
    simp only [Pool.running] at count slots ⊢
    omega
  case sent => exact sent
  case order => rw [started_finished, order]
  case running =>
    rw [started_finished, finished_concat]
    calc started s.history
        _ ~ finished s.history ++ (s.failed ++ s.pool.running) := running
        _ ~ finished s.history ++ (s.failed ++ (Pool.running _ ++ [v])) :=
          (less.symm.append_left _).append_left _
        _ = finished s.history ++ ((s.failed ++ Pool.running _) ++ [v]) := by simp
        _ ~ finished s.history ++ ([v] ++ (s.failed ++ Pool.running _)) :=
          List.perm_append_comm.append_left _
        _ = finished s.history ++ [v] ++ (s.failed ++ Pool.running _) :=
          (List.append_assoc ..).symm
  case manned => exact fun _ => manned was
  case deserted =>
    intro none
    rw [still] at none
    cases none
  case taken => exact fun unclosed _ => taken unclosed was

theorem Sound.work (h : Sound s size) (works : Work s effect t) : Sound t size := by
  -- An offer only changes its place, and so does a slot. Where a worker is set, there is a lemma.
  have ⟨workers, slots, sent, order, running, manned, deserted, taken⟩ := h
  cases works with
  | @grant offer rest offers unclosed free =>
    refine ⟨workers, ?_, ?_, order, running, manned, deserted, taken⟩
    · simp only [List.length_append, List.length_singleton, Pool.running] at slots ⊢
      omega
    · simpa [offers] using sent
  | @refuse before after offer offers closed =>
    refine ⟨workers, slots, ?_, order, running, manned, deserted, ?_⟩
    · rw [offers, ← List.append_assoc s.granted] at sent
      rw [← List.append_assoc s.granted]
      exact sent.trans (sent_back ..)
    · intro unclosed
      simp [closed] at unclosed
  | @enter before after offer p has alive enters =>
    obtain rfl := enter_some enters
    refine ⟨workers, ?_, ?_, ?_, running, manned, ?_, taken⟩
    · simp only [has, List.length_append, List.length_cons, List.length_nil,
        Pool.running] at slots ⊢
      omega
    · rw [has] at sent
      calc s.sent
          _ ~ s.entered ++ (before ++ offer :: after ++ s.pool.offers) ++ s.returned := sent
          _ ~ s.entered ++ (offer :: (before ++ after) ++ s.pool.offers) ++ s.returned :=
            ((List.perm_middle.append_right _).append_left _).append_right _
          _ = s.entered ++ [offer] ++ (before ++ after ++ s.pool.offers) ++ s.returned := by simp
    · simp [order]
    · intro none
      have some : s.pool.isAlive = false := none
      simp [alive] at some
  | @bounce before after offer has gone =>
    refine ⟨workers, ?_, ?_, order, running, manned, deserted, ?_⟩
    · simp only [has, List.length_append, List.length_cons, Pool.running, Pool.release] at slots ⊢
      omega
    · rw [has, List.append_assoc before, List.cons_append] at sent
      rw [List.append_assoc before]
      exact sent.trans (sent_back ..)
    · intro _ some
      have some : s.pool.isAlive = true := some
      simp [gone] at some
  | pick ending idle accepted => exact h.picked ending idle accepted
  | complete _ completes =>
    obtain ⟨ending, busy, rfl⟩ := complete_busy completes
    exact h.completed busy
  | release spent =>
    refine ⟨workers, ?_, sent, order, running, manned, deserted, taken⟩
    simp only [Pool.release, Pool.running] at slots ⊢
    omega
  | crash busy => exact h.ended busy rfl rfl rfl rfl
  | @halt i idle closed =>
    have ended : Sound { s with
        pool := s.pool.setWorker i .stopped
        failed := s.failed ++ []
        dropped := s.dropped ++ s.pool.lost i .stopped } size := h.ended idle rfl rfl rfl rfl
    rwa [List.append_nil] at ended

theorem Sound.move (h : Sound s size) (move : Move s t) : Sound t size := by
  cases move with
  | send ticket value =>
    obtain ⟨workers, slots, sent, order, running, manned, deserted, taken⟩ := h
    refine ⟨workers, slots, ?_, order, running, manned, deserted, taken⟩
    calc s.sent ++ [(ticket, value)]
        _ ~ s.entered ++ (s.granted ++ s.pool.offers) ++ s.returned ++ [(ticket, value)] :=
          sent.append_right _
        _ = s.entered ++ (s.granted ++ s.pool.offers) ++ (s.returned ++ [(ticket, value)]) :=
          List.append_assoc ..
        _ ~ s.entered ++ (s.granted ++ s.pool.offers) ++ ([(ticket, value)] ++ s.returned) :=
          List.perm_append_comm.append_left _
        _ = s.entered ++ (s.granted ++ (s.pool.offers ++ [(ticket, value)])) ++ s.returned := by
          simp
  | close =>
    obtain ⟨workers, slots, sent, order, running, manned, deserted, taken⟩ := h
    exact ⟨workers, slots, sent, order, running, manned, deserted, nofun⟩
  | work works => exact h.work works

theorem Leads.sound (later : s.Leads t) (h : Sound s size) : Sound t size := by
  induction later with
  | refl => exact h
  | tail _ move ih => exact ih.move move

/-- At most one value is taken or given back at a time, and nothing else is lost on its way. -/
theorem Work.way (works : Work s effect t) :
    (∃ ticket accept v before after, effect.verdict = some (ticket, accept) ∧
        s.granted ++ s.pool.offers = before ++ (ticket, v) :: after ∧
        t.granted ++ t.pool.offers = before ++ after) ∨
      (effect.verdict = none ∧ t.granted ++ t.pool.offers = s.granted ++ s.pool.offers) := by
  cases works with
  | grant offers => exact .inr ⟨rfl, by simp [offers]⟩
  | @refuse before after offer offers =>
    refine .inl ⟨offer.1, false, offer.2, s.granted ++ before, after, rfl, ?_, ?_⟩
    · rw [offers, List.append_assoc]
    · exact (List.append_assoc ..).symm
  | @enter before after offer p has _ enters =>
    obtain rfl := enter_some enters
    refine .inl ⟨offer.1, true, offer.2, before, after ++ s.pool.offers, rfl, ?_, ?_⟩
    · rw [has, List.append_assoc, List.cons_append]
    · exact List.append_assoc ..
  | @bounce before after offer has =>
    refine .inl ⟨offer.1, false, offer.2, before, after ++ s.pool.offers, rfl, ?_, ?_⟩
    · rw [has, List.append_assoc, List.cons_append]
    · exact List.append_assoc ..
  | @pick i v rest ending =>
    obtain ⟨offers, -⟩ := setWorker_rest { s.pool with accepted := rest } i (.busy v ending)
    exact .inr ⟨rfl, congrArg (s.granted ++ ·) offers⟩
  | complete _ completes =>
    obtain ⟨-, -, rfl⟩ := complete_busy completes
    exact .inr ⟨rfl, congrArg (s.granted ++ ·) (setWorker_rest s.pool _ .idle).1⟩
  | release => exact .inr ⟨rfl, rfl⟩
  | @crash i =>
    exact .inr ⟨rfl, congrArg (s.granted ++ ·) (setWorker_rest s.pool.release i .dead).1⟩
  | @halt i => exact .inr ⟨rfl, congrArg (s.granted ++ ·) (setWorker_rest s.pool i .stopped).1⟩

/-- A value is under way until it is taken or given back. -/
theorem Work.underway (works : Work s effect t) :
    (∀ ticket accept, effect.verdict = some (ticket, accept) → ∃ v before after,
      s.underway ticket = before ++ (ticket, v) :: after ∧ t.underway ticket = before ++ after) ∧
    ∀ ticket, (∀ accept, effect.verdict ≠ some (ticket, accept)) →
      t.underway ticket = s.underway ticket := by
  unfold Life.underway
  obtain ⟨mine, accept, v, before, after, verdict, was, now⟩ | ⟨none, same⟩ := works.way
  · rw [was, now, verdict]
    constructor
    · intro ticket accept' given
      obtain ⟨rfl, -⟩ := Prod.mk.inj (Option.some.inj given)
      refine ⟨v, before.filter (·.1 = mine), after.filter (·.1 = mine), ?_, ?_⟩ <;> simp
    · intro ticket other
      have other : mine ≠ ticket := by simpa using other
      simp [other]
  · refine ⟨by simp [none], ?_⟩
    intro ticket _
    rw [same]

theorem Work.enters (works : Work s effect t) :
    (∃ ticket v, effect.verdict = some (ticket, true) ∧ (ticket, v) ∈ s.granted ∧
        t.entered = s.entered ++ [(ticket, v)]) ∨
      ((∀ ticket, effect.verdict ≠ some (ticket, true)) ∧ t.entered = s.entered) := by
  cases works with
  | @enter before after offer p has =>
    exact .inl ⟨offer.1, offer.2, rfl, by simp [has], rfl⟩
  | refuse | bounce => exact .inr ⟨by simp [Effect.verdict], rfl⟩
  | grant | pick | complete | release | crash | halt => exact .inr ⟨nofun, rfl⟩

theorem Work.takes (works : Work s effect t) (unclosed : s.pool.closed = false)
    (alive : s.pool.isAlive = true) (ticket : Nat) : effect.verdict ≠ some (ticket, false) := by
  cases works with
  | refuse _ closed => simp [unclosed] at closed
  | bounce _ deserted => simp [alive] at deserted
  | enter => simp [Effect.verdict]
  | grant | pick | complete | release | crash | halt => nofun

/-- What is to be seen of a step whose halves follow each other at once. -/
inductive Passes (s : Life α) (effect : Effect α) (t : Life α) : Prop where
  | whole (works : Work s effect t)
  | late {between : Life α} (first : Work s .none between) (second : Work between effect t)
  | early {between : Life α} (first : Work s effect between) (second : Work between .none t)

theorem setWorker_twice {p : Pool α} {i : Nat} (here : i < p.workers.length) {a : Worker α}
    (alive : a.isAlive = true) (b : Worker α) :
    (p.setWorker i a).release.setWorker i b = p.release.setWorker i b := by
  rw [setWorker_eq here alive]
  unfold Pool.setWorker Pool.release
  rw [List.set_set]

/-- To accept is to get a slot and to enter, or to bounce off, with nothing in between. -/
theorem Sound.accept_works (h : Sound s size) (positive : 0 < size) (between : s.granted = [])
    (spent : s.spent = 0) {p : Pool α} (possible : s.pool.accept = some (p, effect)) :
    ∃ t, Passes s effect t ∧ t.pool = p ∧ t.granted = [] ∧ t.spent = 0 := by
  have slots := h.slots
  simp only [between, spent, List.length_nil] at slots
  simp only [Pool.accept] at possible
  split at possible
  · cases possible
  · next ticket value rest offers =>
    have has : s.granted ++ [(ticket, value)] = [] ++ (ticket, value) :: [] := by rw [between]
    split at possible
    · next ends =>
      obtain ⟨rfl, rfl⟩ := Prod.mk.inj (Option.some.inj possible)
      by_cases closed : s.pool.closed = true
      · have first : s.pool.offers = [] ++ (ticket, value) :: rest := offers
        exact ⟨_, .whole (.refuse first closed), rfl, between, spent⟩
      · have unclosed : s.pool.closed = false := by simpa using closed
        have gone : s.pool.isAlive = false := by simpa [unclosed] using ends
        rw [h.deserted gone, running_of_deserted gone, List.length_nil] at slots
        have free : s.pool.free ≠ 0 := by omega
        have first := Work.grant offers unclosed free
        have second := Work.bounce (s := { s with
          pool := { s.pool with offers := rest, free := s.pool.free - 1 }
          granted := s.granted ++ [(ticket, value)] }) has gone
        refine ⟨_, .late first second, ?_, rfl, spent⟩
        simp only [Pool.release, Nat.sub_add_cancel (Nat.pos_of_ne_zero free)]
    · next ends =>
      split at possible
      · cases possible
      · next free =>
        obtain ⟨rfl, rfl⟩ := Prod.mk.inj (Option.some.inj possible)
        obtain ⟨unclosed, alive⟩ : s.pool.closed = false ∧ s.pool.isAlive = true := by
          simpa using ends
        have first := Work.grant offers unclosed free
        have room : s.pool.accepted.length < s.pool.size := (h.work first).room (by simp)
        have second := Work.enter (s := { s with
          pool := { s.pool with offers := rest, free := s.pool.free - 1 }
          granted := s.granted ++ [(ticket, value)] }) has alive (if_pos room)
        exact ⟨_, .late first second, rfl, rfl, spent⟩

/-- A callback that fails at once starts first. -/
theorem take_works (between : s.granted = []) (spent : s.spent = 0) {now i : Nat} {p : Pool α}
    (possible : s.pool.take now i = some (p, effect)) :
    ∃ t, Passes s effect t ∧ t.pool = p ∧ t.granted = [] ∧ t.spent = 0 := by
  simp only [Pool.take] at possible
  split at possible
  · next value rest idle accepted =>
    obtain ⟨rfl, rfl⟩ := Prod.mk.inj (Option.some.inj possible)
    have bound := (List.getElem?_eq_some_iff.mp idle).1
    have pick (ending : Ending) := Work.pick ending idle accepted
    split
    · have busy : (Pool.setWorker { s.pool with accepted := rest } i
          (.busy value .onRelease)).workers[i]? = some (.busy value .onRelease) := by
        rw [setWorker_workers]
        exact List.getElem?_set_self bound
      have second := Work.crash (s := { s with
        pool := Pool.setWorker { s.pool with accepted := rest } i (.busy value .onRelease)
        history := s.history ++ [.started value] }) busy
      refine ⟨_, .early (pick .onRelease) second, ?_, between, spent⟩
      exact setWorker_twice (p := { s.pool with accepted := rest }) bound rfl .dead
    · exact ⟨_, .whole (pick _), rfl, between, spent⟩
    · exact ⟨_, .whole (pick _), rfl, between, spent⟩
  · cases possible

/-- The steps of a pool are such moves: each is its halves, with nothing in between. -/
theorem Sound.step_works [DecidableEq α] (h : Sound s size) (positive : 0 < size)
    (between : s.granted = []) (spent : s.spent = 0) {now : Nat} {released : List α} {step : Step}
    {p : Pool α} (possible : s.pool.step now released step = some (p, effect)) :
    ∃ t, Passes s effect t ∧ t.pool = p ∧ t.granted = [] ∧ t.spent = 0 := by
  cases step with
  | accept => exact h.accept_works positive between spent possible
  | take i => exact take_works between spent possible
  | finish i =>
    obtain ⟨v, r, completes, rfl, freed, rfl⟩ := finish_eq possible
    have first := Work.complete freed completes
    have second := Work.release (s := { s with
      pool := r, spent := s.spent + 1, history := s.history ++ [.finished v] }) (Nat.succ_pos _)
    exact ⟨_, .early first second, rfl, between, spent⟩
  | halt i =>
    simp only [Pool.step, Pool.halt] at possible
    split at possible
    · next idle =>
      split at possible
      · next closed =>
        obtain ⟨rfl, rfl⟩ := Prod.mk.inj (Option.some.inj possible)
        exact ⟨_, .whole (.halt idle closed), rfl, between, spent⟩
      · cases possible
    · cases possible

end Life

end Courier.Pool
