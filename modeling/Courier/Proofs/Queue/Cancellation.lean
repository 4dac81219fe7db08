import Courier.Proofs.Queue.Waiting

/-!
# Subscriptions that are given up

A loop that is cancelled deals with the message in hand and ends, and does
nothing else. Only if the call in progress fails, nothing is settled and the
reader is not closed:

* `Windup`: all that a loop may still do once it was cancelled, and what it is
  at then, by what it was at;
* `Winding.turn`, `Winding.kept`: neither its own turns nor anything that befalls
  it leads anywhere else;
* `settle_cancelLoop`: it is the same whether a loop is cancelled before it
  commits or while it does;
* `cancellation_law`: what holds from the moment of the cancellation on.
-/

namespace Courier.Queue

open Broker (Transport Ledger)

def Phase.inHand {α : Type} : Phase α → Option Message
  | .handling m _ => some m
  | _ => none

/-- An outcome that a call may still have, or the one that it has had: an answer, or none. -/
def Stage.Allows {α : Type} : Stage α → Option Bool → Prop
  | .answered answer _, outcome => outcome = some answer
  | .failing _, outcome => outcome = none
  | .offered, outcome => outcome ≠ none

theorem Stage.Allows.failing {α : Type} {stage : Stage α} (h : stage.Allows none) :
    ∃ due, stage = .failing due := by
  cases stage with
  | answered => cases h
  | failing due => exact ⟨due, rfl⟩
  | offered => exact absurd rfl h

def Act.isClosed : Act → Bool
  | .closed => true
  | _ => false

variable {α : Type}

/-- A call of the loop's subscriber is in progress and fails when it is due. -/
def ReadLoop.Failing (l : ReadLoop Ledger α) : Prop :=
  ∃ m due, l.phase = .handling m (.failing due)

/-- What a loop has done since it was cancelled at some phase, and the phase it is at now. -/
inductive Windup (start : Phase α) : Phase α → List Act → Prop where
  | wait {phase : Phase α} (free : start.inHand = none)
    (same : phase = start ∨ start = .parked ∧ phase = .ready) : Windup start phase []
  | work {m : Message} {stage stage' : Stage α} (held : start = .handling m stage)
    (outcome : ∀ outcome, stage'.Allows outcome → stage.Allows outcome) :
    Windup start (.handling m stage') []
  | accept {m : Message} {stage : Stage α} (held : start = .handling m stage)
    (answer : stage.Allows (some true)) (r : Except Error Unit) :
    Windup start .ready [.answered m true, .committed m r]
  | reject {m : Message} {stage : Stage α} (held : start = .handling m stage)
    (answer : stage.Allows (some false)) (r : Except Error Unit) (ms due : Nat) :
    Windup start (.resting due) [.answered m false, .withheld m r, .rested ms]
  /-- The call fails, and the loop with it. -/
  | fail {m : Message} {due : Nat} (held : start = .handling m (.failing due)) :
    Windup start .failed []
  /-- The reader is closed once nothing is in hand any more. -/
  | close {phase : Phase α} {acts : List Act} (before : Windup start phase acts)
    (free : phase.inHand = none) (running : phase.isFinished = false) :
    Windup start .ended (acts ++ [.closed])

namespace Windup

variable {start phase : Phase α} {acts : List Act}

theorem held {m : Message} {stage : Stage α} (h : Windup start (.handling m stage) acts) :
    acts = [] ∧ ∃ stage₀, start = .handling m stage₀ ∧
      ∀ outcome, stage.Allows outcome → stage₀.Allows outcome := by
  cases h with
  | wait free same =>
    obtain rfl | ⟨-, same⟩ := same
    · cases free
    · cases same
  | work held answer => exact ⟨rfl, _, held, answer⟩

theorem parked (h : Windup start .parked acts) : acts = [] ∧ start = .parked := by
  cases h with
  | wait free same =>
    obtain rfl | ⟨-, same⟩ := same
    · exact ⟨rfl, rfl⟩
    · cases same

theorem undelivered (h : Windup start phase acts) : acts.filterMap Act.delivery = [] := by
  induction h with
  | wait | work | accept | reject | fail => rfl
  | close _ _ _ ih => simp [ih, Act.delivery]

/-- Without a message in hand there is nothing to be answered. -/
theorem idle (h : Windup start phase acts) (free : start.inHand = none) :
    acts.filterMap Act.answer = [] ∧ acts.filterMap Act.settlement = [] := by
  induction h with
  | wait => exact ⟨rfl, rfl⟩
  | work held | accept held | reject held | fail held =>
    rw [held] at free
    cases free
  | close _ _ _ ih => simp [ih, Act.answer, Act.settlement]

/-- A message that was in hand and is no more has been answered, and the answer settled, or the
call has failed. -/
theorem settled (h : Windup start phase acts) {m : Message} {stage : Stage α}
    (held : start = .handling m stage) (free : phase.inHand = none) :
    (∃ accept, stage.Allows (some accept) ∧ acts.filterMap Act.answer = [(m, accept)] ∧
      acts.filterMap Act.settlement = [(m, accept)]) ∨
      (∃ due, stage = .failing due) ∧ phase = .failed := by
  induction h with
  | wait absent =>
    rw [held] at absent
    cases absent
  | work => cases free
  | accept held' answer r =>
    obtain ⟨rfl, rfl⟩ := Phase.handling.inj (held'.symm.trans held)
    exact .inl ⟨true, answer, rfl, rfl⟩
  | reject held' answer r =>
    obtain ⟨rfl, rfl⟩ := Phase.handling.inj (held'.symm.trans held)
    exact .inl ⟨false, answer, rfl, rfl⟩
  | fail held' =>
    obtain ⟨rfl, rfl⟩ := Phase.handling.inj (held'.symm.trans held)
    exact .inr ⟨⟨_, rfl⟩, rfl⟩
  | close _ before running ih =>
    obtain ⟨accept, allowed, answers, settlements⟩ | ⟨-, rfl⟩ := ih before
    · exact .inl ⟨accept, allowed, by simp [answers, Act.answer],
        by simp [settlements, Act.settlement]⟩
    · cases running

theorem running (h : Windup start phase acts) (running : phase.isFinished = false) :
    acts.countP Act.isClosed = 0 := by
  cases h with
  | wait | work | accept | reject => rfl
  | fail | close => cases running

/-- When a loop has ended, its reader was closed once and last. -/
theorem ended (h : Windup start .ended acts) (running : start.isFinished = false) :
    ∃ before, acts = before ++ [.closed] ∧ before.countP Act.isClosed = 0 := by
  cases h with
  | wait _ same =>
    obtain rfl | ⟨-, same⟩ := same
    · cases running
    · cases same
  | close before _ running' => exact ⟨_, rfl, before.running running'⟩

/-- A loop that was cancelled closes its reader and ends, or it is gone with its subscriber. -/
theorem finished (h : Windup start phase acts) (running : start.isFinished = false)
    (finished : phase.isFinished = true) :
    phase = .ended ∨
      (∃ m due, start = .handling m (.failing due)) ∧ phase = .failed ∧ acts = [] := by
  cases h with
  | wait _ same =>
    obtain rfl | ⟨-, rfl⟩ := same
    · simp [running] at finished
    · cases finished
  | work | accept | reject => cases finished
  | fail held => exact .inr ⟨⟨_, _, held⟩, rfl, rfl⟩
  | close => exact .inl rfl

end Windup

/-- A loop that was cancelled at some phase, and what it has done since. -/
structure Winding (start : Phase α) (l : ReadLoop Ledger α) (more : List Act) : Prop where
  windup : Windup start l.phase more
  cancelled : l.cancelled = true
  closed : l.phase = .ended → l.reader.closed = true

section
variable {start : Phase α} {l l' : ReadLoop Ledger α} {more : List Act} {k now : Nat} {b : Ledger}
  {t : Turn Ledger α}

/-- A cancelled loop turns to what is in hand, or to its end. -/
theorem Winding.turn (h : Winding start l more) (takes : l.Takes k now b t) :
    Winding start t.loop (more ++ t.notes.filterMap (·.actOf k)) := by
  obtain ⟨windup, cancelled, closed⟩ := h
  cases takes with
  | stop phase =>
    have ends : Windup start .ended (more ++ [.closed]) := by
      apply windup.close
      · obtain phase | phase := phase <;> rw [phase] <;> rfl
      · obtain phase | phase := phase <;> rw [phase] <;> rfl
    exact ⟨by simpa [List.filterMap_cons] using ends, cancelled, fun _ => rfl⟩
  | leave phase =>
    have ends : Windup start .ended (more ++ [.closed]) := by
      apply windup.close
      · rw [phase]; rfl
      · rw [phase]; rfl
    exact ⟨by simpa using ends, cancelled, fun _ => rfl⟩
  | park _ running | deliver _ running | lose _ running | falter _ running | rise _ running =>
    simp [cancelled] at running
  | @accept _ _ m due r phase =>
    rw [phase] at windup
    obtain ⟨rfl, stage, held, answer⟩ := windup.held
    have accepts := Windup.accept held (answer (some true) rfl) r
    exact ⟨by simpa using accepts, cancelled, nofun⟩
  | @reject _ _ m due r phase =>
    rw [phase] at windup
    obtain ⟨rfl, stage, held, answer⟩ := windup.held
    have rejects := Windup.reject held (answer (some false) rfl) r (pause l.rejections).toNat
      (now + (pause l.rejections).toNat)
    exact ⟨by simpa using rejects, cancelled, nofun⟩
  | @fail m due phase =>
    rw [phase] at windup
    obtain ⟨rfl, stage, held, outcome⟩ := windup.held
    have fails : stage.Allows none := outcome none rfl
    obtain ⟨due₀, rfl⟩ : ∃ due₀, stage = .failing due₀ := fails.failing
    exact ⟨by simpa using Windup.fail held, cancelled, nofun⟩

/-- Nothing that befalls a cancelled loop gives it anything else to do. -/
theorem Winding.kept (h : Winding start l more) (kept : Kept l l') : Winding start l' more := by
  obtain ⟨windup, cancelled, closed⟩ := h
  refine ⟨?_, kept.cancelled cancelled, ?_⟩
  · obtain same | ⟨parked, ready⟩ | ⟨m, accept, due, offered, answered⟩ := kept.phase
    · rwa [same]
    · rw [parked] at windup
      obtain ⟨rfl, rfl⟩ := windup.parked
      exact .wait rfl (.inr ⟨rfl, ready⟩)
    · rw [offered] at windup
      obtain ⟨rfl, stage, held, answer⟩ := windup.held
      rw [answered]
      refine .work held ?_
      rintro outcome rfl
      exact answer _ nofun
  · intro ended
    obtain same | ⟨-, ready⟩ | ⟨m, accept, due, -, answered⟩ := kept.phase
    · rw [kept.reader]
      exact closed (same ▸ ended)
    · simp [ready] at ended
    · simp [answered] at ended

end

theorem Course.unclosed {b : Ledger} {topic : String} {c : Int} {acts : List Act} {p : Point}
    (h : Course b topic c acts p) : acts.countP Act.isClosed = 0 := by
  induction h with
  | start => rfl
  | falter _ _ ih => simp [ih, Act.isClosed]
  | accept _ _ _ _ ih => simp [ih, Act.isClosed]
  | reject _ _ _ _ ih => simp [ih, Act.isClosed]

theorem OnCourse.unclosed {b : Ledger} {c : Int} {l : ReadLoop Ledger α} {acts : List Act}
    (h : OnCourse b c l acts) (running : l.Running) : acts.countP Act.isClosed = 0 := by
  cases h with
  | between _ course => exact course.unclosed
  | inHand _ eq course => simp [eq, course.unclosed, Act.isClosed]
  | gone ended =>
    rw [ReadLoop.Running, ended] at running
    cases running

namespace World

theorem modify_set {β : Type} (a : List β) (k : Nat) (x : β) (f : β → β) :
    (a.set k x).modify k f = (a.modify k f).set k (f x) := by
  apply List.ext_getElem?
  intro i
  rw [List.getElem?_modify, List.getElem?_set, List.getElem?_set, List.getElem?_modify,
    List.length_modify]
  by_cases mine : k = i
  · simp [mine]
  · simp [mine]

section
variable {T : Type} [Transport T]

/-- It is the same whether a loop is cancelled before it commits or withholds, or while it does. -/
theorem settle_cancelLoop (w : World T α) (k : Nat) (l : ReadLoop T α) (m : Message)
    (accept : Bool) :
    (w.settle k l m accept).cancelLoop k =
      (w.cancelLoop k).settle k { l with cancelled := true } m accept := by
  unfold settle
  cases accept with
  | true =>
    rcases hc : Transport.commit l.reader m w.broker with ⟨r, reader, b⟩
    cases r <;> simp [act, note, report, utter_eq_note, cancelLoop, setLoop, modify_set, hc]
  | false =>
    rcases hc : Transport.withhold l.reader m w.broker with ⟨r, reader, b⟩
    cases r <;> simp [act, note, report, utter_eq_note, cancelLoop, setLoop, rest,
      modify_set, hc]

end

section
variable {w v : World Ledger α} {published : Option Record}

theorem Change.winding {start : Phase α} {more : List Act} (h : Change w v published) {k : Nat}
    {l : ReadLoop Ledger α} (here : w.loops[k]? = some l) (winding : Winding start l more) :
    ∃ l' more', v.loops[k]? = some l' ∧ v.acts k = w.acts k ++ more' ∧
      Winding start l' (more ++ more') := by
  cases h with
  | @turn j l₀ t there takes eq =>
    subst eq
    by_cases mine : j = k
    · subst mine
      obtain rfl : l = l₀ := Option.some.inj (here.symm.trans there)
      exact ⟨t.loop, _, turned_self here t, acts_turned .., winding.turn takes⟩
    · refine ⟨l, [], (turned_ne t mine).trans here, ?_, by rwa [List.append_nil]⟩
      rw [acts_turned_ne takes mine, List.append_nil]
  | keep _ loops acts | publish _ _ loops _ acts =>
    obtain ⟨l', there, kept⟩ := loops.of_some here
    refine ⟨l', [], there, ?_, ?_⟩
    · rw [acts, List.append_nil]
    · rw [List.append_nil]
      exact winding.kept kept
  | subscribe _ _ _ _ _ _ _ loops acts =>
    have bound := (List.getElem?_eq_some_iff.mp here).1
    refine ⟨l, [], ?_, ?_, by rwa [List.append_nil]⟩
    · rw [loops, List.getElem?_append_left bound, here]
    · rw [acts, List.append_nil]

theorem Changes.winding {start : Phase α} (later : Changes w v) {k : Nat} {l : ReadLoop Ledger α}
    (here : w.loops[k]? = some l) (winding : Winding start l []) :
    ∃ l' more, v.loops[k]? = some l' ∧ v.acts k = w.acts k ++ more ∧ Winding start l' more := by
  induction later with
  | refl => exact ⟨l, [], here, (List.append_nil _).symm, winding⟩
  | tail _ change ih =>
    obtain ⟨l₁, more₁, between, acts₁, winding₁⟩ := ih
    obtain ⟨published, change⟩ := change
    obtain ⟨l₂, more₂, there, acts₂, winding₂⟩ := change.winding between winding₁
    exact ⟨l₂, more₁ ++ more₂, there, by rw [acts₂, acts₁, List.append_assoc], winding₂⟩

end

/-- The commands that cancel loop `k`: to give up its subscription, and to close or drop its
queue. -/
inductive Cancels (w : World Ledger α) (k : Nat) : Command Ledger α → Prop where
  | unsubscribe {q : Nat} {queue : MessageQueue Ledger} {id : SubscriptionId}
    (here : w.queues[q]? = some queue) (entry : (id, k) ∈ queue.registry.entries) :
    Cancels w k (.unsubscribe q id)
  | close {q : Nat} {queue : MessageQueue Ledger} {l : ReadLoop Ledger α}
    (here : w.queues[q]? = some queue) (isOpen : queue.writer ≠ none)
    (loop : w.loops[k]? = some l) (owner : l.queue = q) : Cancels w k (.close q)
  | drop {q : Nat} {l : ReadLoop Ledger α} (loop : w.loops[k]? = some l) (owner : l.queue = q) :
    Cancels w k (.drop q)

theorem Cancels.cancelled {w : World Ledger α} (listed : Listed w) {k : Nat} {c : Command Ledger α}
    (cancels : Cancels w k c) {l : ReadLoop Ledger α} (here : w.loops[k]? = some l) :
    (w.obey c).loops[k]? = some { l with cancelled := true } ∧
      ∀ j, (w.obey c).acts j = w.acts j := by
  have all {w' : World Ledger α} (q : Nat) (owner : l.queue = q) (same : w'.loops = w.loops) :
      (w'.cancelAll q).loops[k]? = some { l with cancelled := true } := by
    simp [cancelAll, same, here, owner]
  cases cancels with
  | @unsubscribe q queue id found entry =>
    have sound := listed.registries queue (List.mem_of_getElem? found)
    rw [obey, unsubscribe_eq found (sound.find entry)]
    refine ⟨?_, fun _ => rfl⟩
    simp [cancelLoop, setQueue, here]
  | @close q queue l' found isOpen loop owner =>
    obtain rfl : l = l' := Option.some.inj (here.symm.trans loop)
    obtain ⟨writer, held⟩ := Option.ne_none_iff_exists'.mp isOpen
    simp only [obey, World.close, found, held]
    exact ⟨all q owner rfl, fun _ => rfl⟩
  | @drop q l' loop owner =>
    obtain rfl : l = l' := Option.some.inj (here.symm.trans loop)
    exact ⟨all q owner rfl, fun _ => rfl⟩

/-- The law of loop `k`, which was `l` in the world `w` and was cancelled there. -/
structure CancellationLaw [DecidableEq α] (w v : World Ledger α) (k : Nat)
    (l : ReadLoop Ledger α) : Prop where
  /-- All that the loop has done since. -/
  windup : ∃ l' more, v.loops[k]? = some l' ∧ v.acts k = w.acts k ++ more ∧
    Windup l.phase l'.phase more
  undelivered : v.deliveries k = w.deliveries k
  idle : l.phase.inHand = none → v.answers k = w.answers k ∧ v.settlements k = w.settlements k
  /-- A message in hand is answered once, and the answer is settled once, unless the call in
  progress fails. -/
  settled : ∀ m stage l', l.phase = .handling m stage → v.loops[k]? = some l' →
    l'.phase.inHand = none →
      (∃ accept, stage.Allows (some accept) ∧ v.answers k = w.answers k ++ [(m, accept)] ∧
        v.settlements k = w.settlements k ++ [(m, accept)]) ∨
      l.Failing ∧ l'.phase = .failed
  carried : ∀ l' m accept due, v.loops[k]? = some l' →
    l'.phase = .handling m (.answered accept due) → due ≤ v.now →
    ∃ u a rest, v.loopStep k = some u ∧ u.acts k = v.acts k ++ .answered m accept :: a :: rest ∧
      a.settlement = some (m, accept)
  /-- Without a message in hand, the next step is the end. -/
  next : ∀ l', v.loops[k]? = some l' → l'.Running → l'.phase.inHand = none →
    ∃ u l'', v.loopStep k = some u ∧ u.acts k = v.acts k ++ [.closed] ∧
      u.loops[k]? = some l'' ∧ l''.phase = .ended
  unclosed : ∀ l', v.loops[k]? = some l' → l'.Running → (v.acts k).countP Act.isClosed = 0
  finished : ∀ l', v.loops[k]? = some l' → ¬ l'.Running →
    l'.phase = .ended ∨ l.Failing ∧ l'.phase = .failed
  /-- The reader is closed once, and nothing comes after that. -/
  ended : ∀ l', v.loops[k]? = some l' → l'.phase = .ended → l'.reader.closed = true ∧
    (v.acts k).countP Act.isClosed = 1 ∧ (v.acts k).getLast? = some .closed ∧
    v.loopStep k = none ∧
    ∀ u, v.Leads u → u.acts k = v.acts k ∧ ∃ l'', u.loops[k]? = some l'' ∧ l''.phase = .ended
  /-- A loop that is gone with its subscriber has done nothing since, and does nothing more. -/
  failed : ∀ l', v.loops[k]? = some l' → l'.phase = .failed → v.acts k = w.acts k ∧
    v.loopStep k = none ∧
    ∀ u, v.Leads u → u.acts k = v.acts k ∧ ∃ l'', u.loops[k]? = some l'' ∧ l''.phase = .failed

/-- The law of the call that gives up subscription `id` of queue `q`, whose loop is `k`. -/
structure UnsubscribeLaw (w v : World Ledger α) (q : Nat) (id : SubscriptionId) (k : Nat) :
    Prop where
  called : (w.unsubscribe q id).1 = .ok w.pending.length
  /-- No other loop and no other subscription is touched by the call when it is made, and none
  while it goes on. -/
  others : ∀ j, j ≠ k → (w.unsubscribe q id).2.loops[j]? = w.loops[j]?
  registries : ∃ queue, w.queues[q]? = some queue ∧ (w.unsubscribe q id).2.queues =
    w.queues.set q { queue with registry := queue.registry.without id }
  quiet : ∀ u, v.callStep w.pending.length = some u → u.broker = v.broker ∧
    u.queues = v.queues ∧ u.loops = v.loops ∧ u.pools = v.pools
  gone : ∃ queue, v.queues[q]? = some queue ∧ ∀ j, (id, j) ∉ queue.registry.entries
  /-- When the call has returned, it has returned without an error and the loop has ended, by
  itself unless its subscriber has failed. -/
  returned : ∀ p r, v.pending[w.pending.length]? = some p → p.result = some r →
    r = .ok () ∧ ∃ l', v.loops[k]? = some l' ∧ (l'.phase = .ended ∨
      l'.phase = .failed ∧ ∃ l, w.loops[k]? = some l ∧ l.Failing)
  /-- When the loop has ended, the call goes on until it has returned. -/
  returns : ∀ p l', v.pending[w.pending.length]? = some p → p.result = none →
    v.loops[k]? = some l' → ¬ l'.Running → ∃ u, v.callStep w.pending.length = some u

section
variable {w v : World Ledger α} {k : Nat} {l : ReadLoop Ledger α}

theorem loopStep_of_cancelled (here : w.loops[k]? = some l) (cancelled : l.cancelled = true)
    (running : l.Running) (free : l.phase.inHand = none) :
    ∃ u l', w.loopStep k = some u ∧ u.acts k = w.acts k ++ [.closed] ∧
      u.loops[k]? = some l' ∧ l'.phase = .ended := by
  have bound := (List.getElem?_eq_some_iff.mp here).1
  have ends (w' : World Ledger α) (acts : w'.acts k = w.acts k) (loops : w'.loops = w.loops) :
      (w'.endLoop k l).acts k = w.acts k ++ [.closed] ∧
        ∃ l', (w'.endLoop k l).loops[k]? = some l' ∧ l'.phase = .ended := by
    constructor
    · calc (w'.endLoop k l).acts k
          _ = (w'.note (.act k l.topic.name .closed)).acts k := rfl
          _ = w.acts k ++ [.closed] := by simp [acts_note, acts]
    · refine ⟨{ l with reader := { l.reader with closed := true }, phase := .ended }, ?_, rfl⟩
      calc (w'.endLoop k l).loops[k]?
          _ = (w'.loops.set k _)[k]? := rfl
          _ = _ := by rw [loops, List.getElem?_set_self bound]
  cases phase : l.phase with
  | ready | parked =>
    obtain ⟨acts, l', there, ended⟩ := ends
      (w.log .debug "Kafka stream closed" (streamFields l "subscription cancelled"))
      (acts_note_of_none rfl) rfl
    exact ⟨_, l', by simp [loopStep, here, phase, cancelled], acts, there, ended⟩
  | resting due =>
    obtain ⟨acts, l', there, ended⟩ := ends w rfl rfl
    exact ⟨_, l', by simp [loopStep, here, phase, cancelled], acts, there, ended⟩
  | handling m stage =>
    rw [phase] at free
    cases free
  | ended | failed =>
    rw [ReadLoop.Running, phase] at running
    cases running

theorem loopStep_of_finished (here : w.loops[k]? = some l) (finished : l.phase.isFinished = true) :
    w.loopStep k = none := by
  cases phase : l.phase with
  | ended | failed => simp [loopStep, here, phase]
  | ready | parked | handling m stage | resting due =>
    rw [phase] at finished
    cases finished

/-- A loop that has ended, in whatever way, does nothing more. -/
theorem ceases [DecidableEq α] (here : w.loops[k]? = some l)
    (finished : l.phase.isFinished = true) : w.loopStep k = none ∧
      ∀ u, w.Leads u → u.acts k = w.acts k ∧
        ∃ l', u.loops[k]? = some l' ∧ l'.phase = l.phase := by
  refine ⟨loopStep_of_finished here finished, ?_⟩
  intro u after
  obtain ⟨l', still, stays⟩ := after.changes.stays here
  obtain ⟨phase, -, same⟩ := stays finished
  exact ⟨same, l', still, phase⟩

theorem law_of_winding [DecidableEq α] {l' : ReadLoop Ledger α} {more : List Act}
    (winding : Winding l.phase l' more) (running : l.Running)
    (unclosed : (w.acts k).countP Act.isClosed = 0) (there : v.loops[k]? = some l')
    (acts : v.acts k = w.acts k ++ more) : CancellationLaw w v k l := by
  obtain ⟨windup, cancelled, closed⟩ := winding
  have only {l'' : ReadLoop Ledger α} (also : v.loops[k]? = some l'') : l'' = l' :=
    Option.some.inj (also.symm.trans there)
  constructor
  case windup => exact ⟨l', more, there, acts, windup⟩
  case undelivered => simp [deliveries, acts, windup.undelivered]
  case idle =>
    intro free
    obtain ⟨answers, settlements⟩ := windup.idle free
    constructor
    · simp [World.answers, acts, answers]
    · simp [World.settlements, acts, settlements]
  case settled =>
    intro m stage l'' held also free
    obtain rfl := only also
    obtain ⟨accept, allowed, answers, settlements⟩ | ⟨⟨due, rfl⟩, failed⟩ :=
      windup.settled held free
    · refine .inl ⟨accept, allowed, ?_, ?_⟩
      · simp [World.answers, acts, answers]
      · simp [World.settlements, acts, settlements]
    · exact .inr ⟨⟨m, due, held⟩, failed⟩
  case carried =>
    intro l'' m accept due also phase elapsed
    obtain rfl := only also
    obtain ⟨t, takes, eq⟩ := settle_takes v k l'' phase elapsed
    obtain ⟨a, rest, notes, settles⟩ := takes_settles takes phase
    have step : v.loopStep k = some (v.turned k t) := by
      rw [← eq, loopStep_of_answered also phase elapsed]
    exact ⟨v.turned k t, a, rest, step, by rw [acts_turned, notes], settles⟩
  case next =>
    intro l'' also runs free
    obtain rfl := only also
    exact loopStep_of_cancelled also cancelled runs free
  case unclosed =>
    intro l'' also runs
    obtain rfl := only also
    rw [acts, List.countP_append, unclosed, windup.running runs]
  case finished =>
    intro l'' also finished
    obtain rfl := only also
    obtain ended | ⟨failing, failed, -⟩ :=
      windup.finished running (eq_true_of_ne_false finished)
    · exact .inl ended
    · exact .inr ⟨failing, failed⟩
  case ended =>
    intro l'' also ended
    obtain rfl := only also
    rw [ended] at windup
    obtain ⟨before, rfl, none⟩ := windup.ended running
    obtain ⟨ceased, final⟩ := ceases also (by rw [ended]; rfl)
    refine ⟨closed ended, ?_, ?_, ceased, ?_⟩
    · simp [acts, unclosed, none, Act.isClosed]
    · rw [acts, ← List.append_assoc, List.getLast?_concat]
    · rwa [ended] at final
  case failed =>
    intro l'' also failed
    obtain rfl := only also
    obtain ended | ⟨-, -, rfl⟩ := windup.finished running (by rw [failed]; rfl)
    · simp [failed] at ended
    · obtain ⟨ceased, final⟩ := ceases also (by rw [failed]; rfl)
      refine ⟨by rw [acts, List.append_nil], ceased, ?_⟩
      rwa [failed] at final

theorem Passes.gone (later : Passes w v) {q : Nat} {id : SubscriptionId}
    (gone : ∃ queue, w.queues[q]? = some queue ∧ id.number < queue.registry.next ∧
      ∀ j, (id, j) ∉ queue.registry.entries) :
    ∃ queue, v.queues[q]? = some queue ∧ id.number < queue.registry.next ∧
      ∀ j, (id, j) ∉ queue.registry.entries := by
  induction later with
  | refl => exact gone
  | tail _ goes ih =>
    obtain ⟨queue, here, number, absent⟩ := ih
    obtain ⟨half, books⟩ := goes.books
    obtain ⟨queue', there, ages⟩ := books.ages here
    refine ⟨queue', there, Nat.lt_of_lt_of_le number ages.next, ?_⟩
    intro j member
    obtain old | ⟨-, new, -⟩ := ages.entries _ member
    · exact absent j old
    · exact absurd new (Nat.ne_of_lt number)

theorem unsubscribe_law [DecidableEq α] (listed : Listed w) {q : Nat} {queue : MessageQueue Ledger}
    {id : SubscriptionId} (here : w.queues[q]? = some queue)
    (entry : (id, k) ∈ queue.registry.entries) (later : Leads (w.unsubscribe q id).2 v)
    (loop : w.loops[k]? = some l) (finished : ∀ l', v.loops[k]? = some l' → ¬ l'.Running →
      l'.phase = .ended ∨ l.Failing ∧ l'.phase = .failed) : UnsubscribeLaw w v q id k := by
  have sound := listed.registries queue (List.mem_of_getElem? here)
  have bound := (List.getElem?_eq_some_iff.mp here).1
  have first := sound.find entry
  have eq := unsubscribe_eq here first
  have goes : Goes w (w.obey (.unsubscribe q id)) := command_goes rfl
  have listed' := listed.goes goes
  -- The call is the newest one, and it waits for this loop alone.
  have awaits : Awaits v w.pending.length (.unsubscribe id) [.loop k] := by
    refine later.passes.awaits listed' ?_
    have pending : (w.unsubscribe q id).2.pending =
        w.pending ++ [{ purpose := .unsubscribe id, awaiting := [.loop k] }] := by rw [eq]
    exact .new pending rfl
  constructor
  case called => simp [unsubscribe, here, first, await, cancelLoop, setQueue]
  case others =>
    intro i other
    rw [eq]
    simp [cancelLoop, setQueue, Ne.symm other]
  case registries => exact ⟨queue, here, by rw [eq]; rfl⟩
  case quiet => exact fun u possible => callStep_still possible
  case gone =>
    have start : ∃ queue', (w.unsubscribe q id).2.queues[q]? = some queue' ∧
        id.number < queue'.registry.next ∧ ∀ j, (id, j) ∉ queue'.registry.entries := by
      refine ⟨{ queue with registry := queue.registry.without id }, ?_, ?_, ?_⟩
      · rw [eq]
        exact List.getElem?_set_self bound
      · exact (sound.entries _ entry).1
      · intro i member
        simpa using (List.mem_filter.mp member).2
    obtain ⟨queue', there, -, absent⟩ := later.passes.gone start
    exact ⟨queue', there, absent⟩
  case returned =>
    intro p r there returned
    obtain ⟨rfl, ceased⟩ := awaits.returned there returned
    obtain ⟨l', loop', stopped⟩ := ceased _ (List.mem_singleton_self _)
    obtain ended | ⟨failing, failed⟩ := finished l' loop' (by simp [ReadLoop.Running, stopped])
    · exact ⟨rfl, l', loop', .inl ended⟩
    · exact ⟨rfl, l', loop', .inr ⟨failed, l, loop, failing⟩⟩
  case returns =>
    intro p l' there unanswered loop stopped
    apply callStep_over there unanswered
    intro a waits
    obtain ⟨p', heard, there', -, split, -, -⟩ := awaits
    obtain rfl : p' = p := Option.some.inj (there'.symm.trans there)
    have member : a ∈ [Awaited.loop k] := by
      rw [split]
      exact List.mem_append_right _ waits
    rw [List.mem_singleton.mp member]
    exact ⟨l', loop, eq_true_of_ne_false stopped⟩

/-- **A subscription that is given up is wound up.** From the moment at which its loop is
cancelled, whatever the loop was at, the loop deals with the message in hand, closes its reader
and ends, unless the call in progress fails: then the loop is gone with it. A call that gives the
subscription up returns when that is done. -/
theorem cancellation_law [DecidableEq α] (reach : Reachable {} w) (here : w.loops[k]? = some l)
    (running : l.Running) {c : Command Ledger α} (cancels : Cancels w k c)
    (later : (w.obey c).Leads v) :
    CancellationLaw w v k l ∧
      ∀ q id, c = .unsubscribe q id → UnsubscribeLaw w v q id k := by
  have listed := reachable_listed reach
  obtain ⟨cancelled, same⟩ := cancels.cancelled listed here
  obtain ⟨c₀, steady⟩ := (reachable_covered reach).steady here
  have start : Winding l.phase { l with cancelled := true } [] := by
    refine ⟨?_, rfl, ?_⟩
    · cases phase : l.phase with
      | handling m stage => exact .work rfl fun _ => id
      | ready | parked | resting due | ended | failed => exact .wait rfl (.inl rfl)
    · intro (ended : l.phase = .ended)
      rw [ReadLoop.Running, ended] at running
      cases running
  obtain ⟨l', more, there, acts, winding⟩ := later.changes.winding cancelled start
  rw [same] at acts
  have law : CancellationLaw w v k l :=
    law_of_winding winding running (steady.course.unclosed running) there acts
  refine ⟨law, ?_⟩
  rintro q id rfl
  cases cancels with
  | unsubscribe found entry =>
    exact unsubscribe_law listed found entry later here law.finished

/-- A subscription whose subscriber is busy with the first of two messages. -/
def engaged : List (Attempt Ledger String) :=
  [.command (.subscribe 0 orders "audit" "auditor"
      (.direct ⟨fun _ _ => { accept := true, delay := 50 }⟩)),
    .command (.publish 0 orders (.text "first")),
    .command (.publish 0 orders (.text "second")),
    .step (.loop 0)]

/-- The call that gives it up cannot go on before the message was committed and the loop has
ended. -/
def disengaged : List (Attempt Ledger String) :=
  [.step (.call 0), .step (.loop 0), .step (.wait 50), .step (.loop 0), .step (.call 0),
    .step (.loop 0), .step (.call 0), .step (.call 0)]

theorem cancellation_law_engaged :
    let w := opened.after engaged
    let v := (w.obey (.unsubscribe 0 ⟨1⟩)).after disengaged
    ∃ l, w.loops[0]? = some l ∧ CancellationLaw w v 0 l ∧ UnsubscribeLaw w v 0 ⟨1⟩ 0 ∧
      (w.deliveries 0).map (·.offset) = [0] ∧ (w.answers 0).length = 0 ∧
      (v.answers 0).map (fun (m, accept) => (m.offset, accept)) = [(0, true)] ∧
      v.broker.committed "orders" "audit" = some 1 ∧
      (v.acts 0).countP Act.isClosed = 1 ∧ v.pending.map (·.result.isSome) = [true] := by
  intro w v
  obtain ⟨l, here, running⟩ : ∃ l, w.loops[0]? = some l ∧ l.Running := ⟨_, rfl, rfl⟩
  have cancels : Cancels w 0 (.unsubscribe 0 ⟨1⟩) := .unsubscribe rfl (List.mem_singleton_self _)
  have reach : Reachable {} w :=
    reachable_opened.leads (leads_iff_after.mpr ⟨engaged, rfl⟩)
  obtain ⟨law, call⟩ := cancellation_law reach here running cancels
    (leads_iff_after.mpr ⟨disengaged, rfl⟩)
  exact ⟨l, here, law, call 0 ⟨1⟩ rfl, by decide, by decide, by decide, by decide, by decide,
    by decide⟩

end

end World

end Courier.Queue
