import Courier.Proofs.Queue.Cancellation
import Courier.Proofs.Queue.Closing
import Mathlib.Data.List.Perm.Subperm

/-!
# Subscriptions and their numbers

Every subscription is made under a number of its own, and is in the registry of its queue under
this number while its loop runs, until it is given up:

* `registry`: the registry of a queue, and what steps and commands make of it;
* `Roll`: a world with all subscriptions made in it, and the calls that gave some of them up;
* `roll_of_leads`: every run has its roll;
* `Shift`: everything that a move does to the roll and to the registries;
* `Sound`: what the roll and the registries have to do with each other, in every run;
* `enrolment_law`: the law of the registry of a queue.
-/

namespace Courier.Queue

open Broker (Transport Ledger)

namespace World

section
variable {T α : Type} [Transport T]

/-- The registry of a queue. A queue that is not there has the registry that it will start with. -/
def registry (w : World T α) (q : Nat) : Registry := (w.queues[q]?.map (·.registry)).getD {}

variable {w v : World T α} {q : Nat}

theorem registry_of_some {queue : MessageQueue T} (here : w.queues[q]? = some queue) :
    w.registry q = queue.registry := by
  simp [registry, here]

theorem registered_of_entry {e : SubscriptionId × Nat} (entry : e ∈ (w.registry q).entries) :
    ∃ queue, w.queues[q]? = some queue ∧ e ∈ queue.registry.entries := by
  cases here : w.queues[q]? with
  | none => simp [registry, here] at entry
  | some queue => exact ⟨queue, rfl, registry_of_some here ▸ entry⟩

theorem registry_of_queues (same : v.queues = w.queues) (q : Nat) :
    v.registry q = w.registry q := by
  rw [registry, same, registry]

theorem registry_of_new {new : MessageQueue T} (queues : v.queues = w.queues ++ [new])
    (empty : new.registry = {}) (q : Nat) : v.registry q = w.registry q := by
  unfold registry
  rw [queues]
  obtain there | ⟨rfl⟩ | past := Nat.lt_trichotomy q w.queues.length
  · rw [List.getElem?_append_left there]
  · simp [empty]
  · rw [List.getElem?_eq_none (by simp; omega), List.getElem?_eq_none (Nat.le_of_lt past)]

theorem registry_set {a : MessageQueue T} (b : MessageQueue T) (here : w.queues[q]? = some a)
    (queues : v.queues = w.queues.set q b) (j : Nat) :
    v.registry j = if j = q then b.registry else w.registry j := by
  have bound := (List.getElem?_eq_some_iff.mp here).1
  by_cases mine : j = q
  · subst mine
    simp [registry, queues, bound]
  · simp [registry, queues, mine, Ne.symm mine]

/-- The subscriptions that are counted are those in the registry whose loops run. -/
theorem subscriptions_eq (w : World T α) (q : Nat) : w.subscriptions q =
    ((w.registry q).entries.filter fun (_, k) => !w.loopFinished k).length := by
  unfold subscriptions registry
  cases w.queues[q]? <;> rfl

theorem unsubscribe_unknown {id : SubscriptionId}
    (unknown : ∀ k, (id, k) ∉ (w.registry q).entries) :
    w.unsubscribe q id = (.error (unknownSubscription id), w) := by
  apply unsubscribe_none
  intro queue k here
  rw [← registry_of_some here]
  exact unknown k

/-- A subscription leaves the registry when it is given up. One that is not there leaves it as it
is. -/
theorem unsubscribe_registry (w : World T α) (q : Nat) (id : SubscriptionId) (j : Nat) :
    (w.unsubscribe q id).2.registry j =
      if j = q then (w.registry q).without id else w.registry j := by
  by_cases known : ∃ k, (id, k) ∈ (w.registry q).entries
  · obtain ⟨k, entry⟩ := known
    cases here : w.queues[q]? with
    | none => simp [registry, here] at entry
    | some queue =>
      rw [registry_of_some here] at entry ⊢
      obtain ⟨⟨id', k'⟩, found⟩ : ∃ e, queue.registry.entries.find? (·.1 = id) = some e := by
        rw [← Option.isSome_iff_exists, List.find?_isSome]
        exact ⟨_, entry, by simp⟩
      refine registry_set { queue with registry := queue.registry.without id } here ?_ j
      rw [unsubscribe_eq here found]
      rfl
  · have unknown : ∀ k, (id, k) ∉ (w.registry q).entries := not_exists.mp known
    have same : (w.registry q).without id = w.registry q := by
      have all : (w.registry q).entries.filter (·.1 ≠ id) = (w.registry q).entries := by
        refine List.filter_eq_self.mpr fun e member => ?_
        have other : e.1 ≠ id := fun same => unknown e.2 (same ▸ member)
        simp [other]
      rw [Registry.without, all]
    rw [unsubscribe_unknown unknown, same]
    split
    · next here => rw [here]
    · rfl

theorem unsubscribe_loops (w : World T α) (q : Nat) (id : SubscriptionId) :
    (w.unsubscribe q id).2.loops.length = w.loops.length := by
  unfold unsubscribe
  split
  · rfl
  · split
    · rfl
    · exact List.length_modify ..

/-- A move that leaves the registries as they are, and makes no loop. -/
structure Keeps (w v : World T α) : Prop where
  registry : ∀ q, v.registry q = w.registry q
  loops : v.loops.length = w.loops.length

theorem Keeps.of_queues (queues : v.queues = w.queues) (loops : v.loops.length = w.loops.length) :
    Keeps w v :=
  ⟨registry_of_queues queues, loops⟩

theorem Keeps.refl (w : World T α) : Keeps w w := ⟨fun _ => rfl, rfl⟩

end

section
variable {α : Type} {w v : World Ledger α} {q : Nat}

/-- A subscription gets the next number. What has ended is forgotten on this occasion. -/
theorem subscribe_registry {topic : Topic} {group label : String} {subscriber : Subscriber α}
    {id : SubscriptionId} (made : w.subscribe q topic group label subscriber = (.ok id, v)) :
    id = ⟨(w.registry q).next⟩ ∧ v.loops.length = w.loops.length + 1 ∧
      ∀ j, v.registry j = if j = q then {
          next := (w.registry q).next + 1
          entries := (w.registry q).entries.filter (fun (_, k) => !w.loopFinished k) ++
            [(id, w.loops.length)] }
        else w.registry j := by
  unfold subscribe at made
  split at made
  · simp at made
  · simp at made
  · next queue _ here =>
    split at made
    · simp at made
    · simp only [Transport.openReader, Prod.mk.injEq, Except.ok.injEq] at made
      obtain ⟨rfl, rfl⟩ := made
      rw [registry_of_some here]
      refine ⟨rfl, List.length_append, fun j => registry_set { queue with registry := {
        next := queue.registry.next + 1
        entries := queue.registry.entries.filter (fun (_, k) => !w.loopFinished k) ++
          [(⟨queue.registry.next⟩, w.loops.length)] } } here rfl j⟩

theorem step_keeps [DecidableEq α] {st : Step} (possible : w.step st = some v) : Keeps w v := by
  cases st with
  | loop k =>
    obtain ⟨l, t, -, -, rfl⟩ := loopStep_takes possible
    exact .of_queues rfl List.length_set
  | pool p st =>
    have apart := poolStep_apart possible
    exact .of_queues apart.queues apart.loops.length_eq
  | call c =>
    have apart := callStep_apart possible
    exact .of_queues apart.queues apart.loops.length_eq
  | wait ms =>
    obtain rfl := Option.some.inj possible
    exact .of_queues rfl rfl

theorem put_keeps (w : World Ledger α) (q : Nat) (r : Record) : Keeps w (w.put q r).2 := by
  obtain eq | ⟨e, eq⟩ := put_eq w q r
  · rw [eq]
    exact .of_queues rfl (wake_kept _).length_eq
  · rw [eq]
    exact .of_queues rfl rfl

theorem publish_keeps (w : World Ledger α) (q : Nat) (topic : Topic) (payload : Payload) :
    Keeps w (w.publish q topic payload).2 := by
  rw [publish_eq]
  split
  · exact .refl w
  · split
    · exact .refl w
    · exact put_keeps ..

theorem connect_keeps (w : World Ledger α) (files : Files) (config : Broker.Config) :
    Keeps w (w.connect files config).2 := by
  unfold connect
  split
  · exact .refl w
  · simp only [Transport.probe, Transport.openWriter, Ledger.probe]
    split
    · exact .of_queues rfl rfl
    · exact ⟨registry_of_new rfl rfl, rfl⟩

theorem control_keeps (w : World Ledger α) (c : Ledger.Control) : Keeps w (w.control c) := by
  unfold control
  simp only
  split
  · exact .of_queues rfl (wake_kept _).length_eq
  · exact .of_queues rfl rfl

theorem takeWriter_keeps {result : Except Error Unit} (taken : w.takeWriter q = some (result, v)) :
    Keeps w v := by
  obtain ⟨queue, here, -, queues, loops, -⟩ := takeWriter_eq taken
  refine ⟨fun j => ?_, congrArg List.length loops⟩
  rw [registry_set _ here queues]
  split
  · next mine => rw [mine, registry_of_some here]
  · rfl

def Command.enrols {T : Type} [Transport T] : Command T α → Bool
  | .subscribe .. | .unsubscribe .. => true
  | _ => false

theorem obey_keeps (w : World Ledger α) {c : Command Ledger α} (other : c.closes = false)
    (plain : c.enrols = false) : Keeps w (w.obey c) := by
  cases c with
  | connect files config => exact connect_keeps w files config
  | publish q topic payload => exact publish_keeps w q topic payload
  | publishJson q topic value =>
    cases value with
    | error reason => exact .refl w
    | ok json => exact publish_keeps w q topic _
  | subscribe | unsubscribe => cases plain
  | close => cases other
  | drop q => exact .of_queues rfl (cancelAll_kept w q).length_eq
  | startPool | closePool | shutdownPool | release => exact .of_queues rfl rfl
  | control c => exact control_keeps w c

theorem Change.ran {published : Option Record} (h : Change w v published) {k : Nat}
    (bound : k < w.loops.length) (runs : v.loopFinished k = false) : w.loopFinished k = false := by
  have here := List.getElem?_eq_getElem bound
  obtain ⟨l', there, stays⟩ := h.stays here
  cases finished : w.loopFinished k with
  | false => rfl
  | true =>
    have ended : w.loops[k].phase.isFinished = true := by simpa [loopFinished, here] using finished
    simp [loopFinished, there, (stays ended).1, ended] at runs

end

end World

variable {α : Type}

/-- A loop that runs can be cancelled whatever it is at. -/
theorem winding_of_running {l : ReadLoop Ledger α} (running : l.Running) :
    Winding l.phase { l with cancelled := true } [] := by
  refine ⟨?_, rfl, ?_⟩
  · cases phase : l.phase with
    | handling m stage => exact .work rfl fun _ => id
    | ready | parked | resting due | ended | failed => exact .wait rfl (.inl rfl)
  · intro (ended : l.phase = .ended)
    rw [ReadLoop.Running, ended] at running
    cases running

/-- A subscription: the queue that made it, its number, and its loop. -/
structure Enrolment where
  queue : Nat
  id : SubscriptionId
  loop : Nat
  deriving DecidableEq

/-- What a subscription has in the registry of its queue. -/
def Enrolment.entry (e : Enrolment) : SubscriptionId × Nat := (e.id, e.loop)

def World.enrolment (w : World Ledger α) : World.Command Ledger α → Option Enrolment
  | .subscribe q topic group label subscriber =>
    match (w.subscribe q topic group label subscriber).1 with
    | .ok id => some ⟨q, id, w.loops.length⟩
    | .error _ => none
  | _ => none

/-- A world with all the subscriptions made in it, the first one first, and those of them that
somebody has asked to give up since. -/
structure Roll (α : Type) extends Closing α where
  made : List Enrolment := []
  givenUp : List Enrolment := []

namespace Roll

def of (s : Roll α) (q : Nat) : List Enrolment := s.made.filter (·.queue = q)

/-- Those of them that nobody has asked to give up. -/
def current (s : Roll α) (q : Nat) : List Enrolment := (s.of q).filter (· ∉ s.givenUp)

def asked (s : Roll α) : World.Command Ledger α → List Enrolment
  | .unsubscribe q id => (s.of q).filter (·.id = id)
  | _ => []

/-- Whatever can be done to queues that are being closed, with a roll of their subscriptions. -/
inductive Move [DecidableEq α] (s : Roll α) : Roll α → Prop where
  | step {v : World Ledger α} (st : Step) (possible : s.world.step st = some v) :
    Move s { s with world := v }
  | command (c : World.Command Ledger α) (other : c.closes = false) :
    Move s { s with
      world := s.world.obey c
      made := s.made ++ (s.world.enrolment c).toList
      givenUp := s.givenUp ++ s.asked c }
  | put (q : Nat) (r : Record) : Move s { s with world := (s.world.put q r).2 }
  | take {q : Nat} {result : Except Error Unit} {v : World Ledger α}
    (taken : s.world.takeWriter q = some (result, v)) :
    Move s { s with world := v, leaving := s.leaving ++ [(q, result)] }
  | drain {before after : List (Nat × Except Error Unit)} {q : Nat} {result : Except Error Unit}
    {queue : MessageQueue Ledger} (has : s.leaving = before ++ (q, result) :: after)
    (here : s.world.queues[q]? = some queue) :
    Move s { s with
      world := (s.world.drain q queue result).2
      leaving := before ++ after
      left := s.left ++ [(q, s.world.pending.length)] }

abbrev Leads [DecidableEq α] : Roll α → Roll α → Prop := Relation.ReflTransGen Move

section
variable [DecidableEq α] {s t : Roll α}

theorem Move.closing (move : Move s t) : Closing.Move s.toClosing t.toClosing := by
  cases move with
  | step st possible => exact .step st possible
  | command c other => exact .command c other
  | put q r => exact .put q r
  | take taken => exact .take taken
  | drain has here => exact .drain has here

theorem Leads.closing (run : Leads s t) : Closing.Leads s.toClosing t.toClosing :=
  run.lift Roll.toClosing fun _ _ move => move.closing

/-- Every run has its roll. -/
theorem roll_of_leads {c : Closing α} (run : Closing.Leads { world := { broker := {} } } c) :
    ∃ s : Roll α, Leads { world := { broker := {} } } s ∧ s.toClosing = c := by
  induction run with
  | refl => exact ⟨_, .refl, rfl⟩
  | tail _ move ih =>
    obtain ⟨s, run, rfl⟩ := ih
    cases move with
    | step st possible => exact ⟨_, run.tail (.step st possible), rfl⟩
    | command c other => exact ⟨_, run.tail (.command c other), rfl⟩
    | put q r => exact ⟨_, run.tail (.put q r), rfl⟩
    | take taken => exact ⟨_, run.tail (.take taken), rfl⟩
    | drain has here => exact ⟨_, run.tail (.drain has here), rfl⟩

end

/-- Nothing is done to the subscriptions. -/
structure Stays (s t : Roll α) : Prop extends World.Keeps s.world t.world where
  made : t.made = s.made
  givenUp : t.givenUp = s.givenUp
  left : t.left = s.left

/-- A subscription is made, under the next number. What has ended is forgotten. -/
structure Enrols (s t : Roll α) (e : Enrolment) : Prop where
  number : e.id.number = (s.world.registry e.queue).next
  loop : e.loop = s.world.loops.length
  registry : ∀ j, t.world.registry j = if j = e.queue then {
      next := (s.world.registry e.queue).next + 1
      entries := (s.world.registry e.queue).entries.filter
        (fun (_, k) => !s.world.loopFinished k) ++ [e.entry] }
    else s.world.registry j
  loops : t.world.loops.length = s.world.loops.length + 1
  made : t.made = s.made ++ [e]
  givenUp : t.givenUp = s.givenUp
  left : t.left = s.left

/-- Somebody asks queue `q` to give a subscription up. -/
structure GivesUp (s t : Roll α) (q : Nat) (id : SubscriptionId) : Prop where
  world : t.world = (s.world.unsubscribe q id).2
  registry : ∀ j, t.world.registry j =
    if j = q then (s.world.registry q).without id else s.world.registry j
  loops : t.world.loops.length = s.world.loops.length
  made : t.made = s.made
  givenUp : t.givenUp = s.givenUp ++ (s.of q).filter (·.id = id)
  left : t.left = s.left

/-- Queue `q` gives all up. -/
structure Drains (s t : Roll α) (q n : Nat) : Prop where
  registry : ∀ j, t.world.registry j =
    if j = q then (s.world.registry q).emptied else s.world.registry j
  loops : t.world.loops.length = s.world.loops.length
  made : t.made = s.made
  givenUp : t.givenUp = s.givenUp
  left : t.left = s.left ++ [(q, n)]

/-- What a move does to the roll and to the registries. -/
inductive Shift (s t : Roll α) : Prop where
  | stays (stays : Stays s t)
  | enrols (e : Enrolment) (enrols : Enrols s t e)
  | givesUp (q : Nat) (id : SubscriptionId) (givesUp : GivesUp s t q id)
  | drains (q n : Nat) (drains : Drains s t q n)

theorem subscribe_shift (s : Roll α) (q : Nat) (topic : Topic) (group label : String)
    (subscriber : Subscriber α) :
    let c : World.Command Ledger α := .subscribe q topic group label subscriber
    Shift s { s with
      world := s.world.obey c
      made := s.made ++ (s.world.enrolment c).toList
      givenUp := s.givenUp ++ s.asked c } := by
  intro c
  rcases made : s.world.subscribe q topic group label subscriber with ⟨result, v⟩
  have obeyed : s.world.obey c = v := congrArg Prod.snd made
  cases result with
  | error e =>
    have same : v = s.world := World.subscribe_error made
    have none : s.world.enrolment c = none := by simp [World.enrolment, c, made]
    rw [obeyed, none, same]
    exact .stays ⟨.refl _, List.append_nil _, List.append_nil _, rfl⟩
  | ok id =>
    obtain ⟨rfl, loops, registry⟩ := World.subscribe_registry made
    have one : s.world.enrolment c =
        some ⟨q, ⟨(s.world.registry q).next⟩, s.world.loops.length⟩ := by
      simp [World.enrolment, c, made]
    rw [obeyed, one]
    exact .enrols _ ⟨rfl, rfl, registry, loops, rfl, List.append_nil _, rfl⟩

theorem Move.shift [DecidableEq α] {s t : Roll α} (move : Move s t) : Shift s t := by
  cases move with
  | step st possible => exact .stays ⟨World.step_keeps possible, rfl, rfl, rfl⟩
  | put q r => exact .stays ⟨World.put_keeps .., rfl, rfl, rfl⟩
  | take taken => exact .stays ⟨World.takeWriter_keeps taken, rfl, rfl, rfl⟩
  | @drain _ _ q result queue has here =>
    obtain ⟨queues, loops, -⟩ := World.drain_eq s.world q queue result
    refine .drains q s.world.pending.length ⟨fun j => ?_, ?_, rfl, rfl, rfl⟩
    · rw [World.registry_set _ here queues, World.registry_of_some here]
    · exact (congrArg List.length loops).trans (World.cancelAll_kept s.world q).length_eq
  | command c other =>
    cases c with
    | subscribe q topic group label subscriber => exact subscribe_shift ..
    | unsubscribe q id =>
      exact .givesUp q id ⟨rfl, World.unsubscribe_registry s.world q id,
        World.unsubscribe_loops s.world q id, List.append_nil _, rfl, rfl⟩
    | connect | publish | publishJson | drop | startPool | closePool | shutdownPool | release
    | control =>
      exact .stays ⟨World.obey_keeps s.world other rfl, List.append_nil _, List.append_nil _, rfl⟩
    | close => cases other

/-- What the roll and the registries have to do with each other. -/
structure Sound (s : Roll α) : Prop where
  /-- Every loop belongs to one subscription. -/
  loops : s.made.map (·.loop) = List.range s.world.loops.length
  givenUp : s.givenUp ⊆ s.made
  /-- A queue numbers its subscriptions from one on, and leaves no number out. -/
  numbers : ∀ q, (s.of q).map (·.id.number) = List.range' 1 (s.of q).length
  next : ∀ q, (s.world.registry q).next = (s.of q).length + 1
  entries : ∀ q, (s.world.registry q).entries.Sublist ((s.current q).map Enrolment.entry)
  /-- Until a queue gives all up, it has in its registry what runs and nobody has given up. -/
  registered : ∀ q, (∀ n, (q, n) ∉ s.left) → ∀ e ∈ s.current q,
    s.world.loopFinished e.loop = false → e.entry ∈ (s.world.registry q).entries

theorem sound_start : Sound ({ world := { broker := {} } } : Roll α) := by
  constructor <;> simp [of, current, World.registry]

section
variable {s t : Roll α} {published : Option Record}

theorem mem_of {e : Enrolment} {q : Nat} : e ∈ s.of q ↔ e ∈ s.made ∧ e.queue = q := by
  simp [of]

theorem mem_current {e : Enrolment} {q : Nat} : e ∈ s.current q ↔ e ∈ s.of q ∧ e ∉ s.givenUp := by
  simp [current]

theorem of_eq (made : t.made = s.made) (q : Nat) : t.of q = s.of q := by rw [of, made, of]

theorem current_eq (made : t.made = s.made) (givenUp : t.givenUp = s.givenUp) (q : Nat) :
    t.current q = s.current q := by
  rw [current, of_eq made, givenUp, current]

theorem GivesUp.current {q : Nat} {id : SubscriptionId} (givesUp : GivesUp s t q id) (j : Nat) :
    t.current j = if j = q then (s.current q).filter (·.id ≠ id) else s.current j := by
  rw [Roll.current, of_eq givesUp.made, givesUp.givenUp]
  split
  · next mine =>
    subst mine
    rw [Roll.current, List.filter_filter]
    refine List.filter_congr fun e member => ?_
    have asked : e ∈ (s.of j).filter (·.id = id) ↔ e.id = id := by simp [member]
    rw [Bool.eq_iff_iff]
    simp only [List.mem_append, asked, Bool.and_eq_true, decide_eq_true_eq]
    tauto
  · next other =>
    rw [Roll.current]
    refine List.filter_congr fun e member => ?_
    have asked : e ∉ (s.of q).filter (·.id = id) := by
      intro also
      have owner := (mem_of.mp (List.mem_of_mem_filter also)).2
      exact other ((mem_of.mp member).2.symm.trans owner)
    simp [asked]

theorem Enrols.of {e : Enrolment} (enrols : Enrols s t e) (q : Nat) :
    t.of q = s.of q ++ if q = e.queue then [e] else [] := by
  rw [Roll.of, enrols.made, List.filter_append, Roll.of]
  by_cases mine : q = e.queue
  · simp [mine]
  · simp [mine, Ne.symm mine]

theorem Sound.bound (sound : Sound s) {e : Enrolment} (made : e ∈ s.made) :
    e.loop < s.world.loops.length := by
  have member := List.mem_map_of_mem (f := (·.loop)) made
  rw [sound.loops] at member
  exact List.mem_range.mp member

theorem Sound.ran (sound : Sound s) (change : World.Change s.world t.world published)
    {e : Enrolment} {q : Nat} (member : e ∈ s.current q)
    (runs : t.world.loopFinished e.loop = false) : s.world.loopFinished e.loop = false :=
  change.ran (sound.bound (mem_of.mp (mem_current.mp member).1).1) runs

theorem Sound.stays (sound : Sound s) (change : World.Change s.world t.world published)
    (stays : Stays s t) : Sound t := by
  have same := of_eq stays.made
  have current := current_eq stays.made stays.givenUp
  constructor
  case loops => rw [stays.made, stays.loops, sound.loops]
  case givenUp =>
    rw [stays.givenUp, stays.made]
    exact sound.givenUp
  case numbers => exact fun q => by rw [same, sound.numbers]
  case next => exact fun q => by rw [same, stays.registry, sound.next]
  case entries =>
    intro q
    rw [current, stays.registry]
    exact sound.entries q
  case registered =>
    intro q before e member runs
    rw [current] at member
    rw [stays.left] at before
    rw [stays.registry]
    exact sound.registered q before e member (sound.ran change member runs)

theorem Sound.givesUp (sound : Sound s) (change : World.Change s.world t.world published)
    {q : Nat} {id : SubscriptionId} (givesUp : GivesUp s t q id) : Sound t := by
  have same := of_eq givesUp.made
  constructor
  case loops => rw [givesUp.made, givesUp.loops, sound.loops]
  case givenUp =>
    rw [givesUp.givenUp, givesUp.made]
    refine List.append_subset.mpr ⟨sound.givenUp, fun e member => ?_⟩
    exact (mem_of.mp (List.mem_of_mem_filter member)).1
  case numbers => exact fun j => by rw [same, sound.numbers]
  case next =>
    intro j
    rw [same, givesUp.registry]
    split
    · next mine =>
      subst mine
      exact sound.next j
    · exact sound.next j
  case entries =>
    intro j
    rw [givesUp.current, givesUp.registry]
    split
    · next mine =>
      subst mine
      have fewer := (sound.entries j).filter (·.1 ≠ id)
      rwa [List.filter_map] at fewer
    · exact sound.entries j
  case registered =>
    intro j before e member runs
    rw [givesUp.left] at before
    rw [givesUp.current] at member
    rw [givesUp.registry]
    split at member
    · next mine =>
      subst mine
      obtain ⟨member, spared⟩ := List.mem_filter.mp member
      have entry := sound.registered j before e member (sound.ran change member runs)
      rw [if_pos rfl]
      exact List.mem_filter.mpr ⟨entry, spared⟩
    · next other =>
      rw [if_neg other]
      exact sound.registered j before e member (sound.ran change member runs)

theorem Sound.current_enrols (sound : Sound s) {e : Enrolment} (enrols : Enrols s t e) (q : Nat) :
    t.current q = s.current q ++ if q = e.queue then [e] else [] := by
  have fresh : e ∉ s.givenUp := by
    intro old
    have bound := sound.bound (sound.givenUp old)
    rw [enrols.loop] at bound
    exact Nat.lt_irrefl _ bound
  rw [Roll.current, enrols.of, enrols.givenUp, List.filter_append, Roll.current]
  split
  · simp [fresh]
  · rfl

theorem Sound.enrols (sound : Sound s) (change : World.Change s.world t.world published)
    {e : Enrolment} (enrols : Enrols s t e) : Sound t := by
  have made := enrols.of
  have current := sound.current_enrols enrols
  constructor
  case loops =>
    rw [enrols.made, enrols.loops, List.range_succ, List.map_append, sound.loops, ← enrols.loop]
    rfl
  case givenUp =>
    rw [enrols.givenUp, enrols.made]
    exact List.subset_append_of_subset_left _ sound.givenUp
  case numbers =>
    intro q
    rw [made]
    split
    · next mine =>
      have number : e.id.number = 1 + (s.of q).length := by
        rw [enrols.number, ← mine, sound.next, Nat.add_comm]
      rw [List.map_append, sound.numbers, List.length_append, List.length_singleton,
        List.range'_1_concat, ← number]
      rfl
    · rw [List.append_nil, sound.numbers]
  case next =>
    intro q
    rw [made, enrols.registry]
    split
    · next mine => rw [← mine, sound.next, List.length_append, List.length_singleton]
    · rw [List.append_nil, sound.next]
  case entries =>
    intro q
    rw [current, enrols.registry, List.map_append]
    split
    · next mine =>
      subst mine
      exact (List.filter_sublist.trans (sound.entries _)).append (.refl _)
    · next other => simpa using sound.entries q
  case registered =>
    intro q before e' member runs
    rw [enrols.left] at before
    rw [current, List.mem_append] at member
    rw [enrols.registry]
    -- The sweep takes out ended loops only, so that an older one that runs is kept.
    obtain old | new := member
    · have ran := sound.ran change old runs
      have entry := sound.registered q before e' old ran
      split
      · next mine =>
        subst mine
        exact List.mem_append_left _ (List.mem_filter.mpr ⟨entry, by simp [Enrolment.entry, ran]⟩)
      · exact entry
    · split at new
      · next mine =>
        obtain rfl := List.mem_singleton.mp new
        rw [if_pos mine]
        exact List.mem_append_right _ (List.mem_singleton_self _)
      · cases new

theorem Sound.drains (sound : Sound s) (change : World.Change s.world t.world published)
    {q n : Nat} (drains : Drains s t q n) : Sound t := by
  have same := of_eq drains.made
  have current := current_eq drains.made drains.givenUp
  constructor
  case loops => rw [drains.made, drains.loops, sound.loops]
  case givenUp =>
    rw [drains.givenUp, drains.made]
    exact sound.givenUp
  case numbers => exact fun j => by rw [same, sound.numbers]
  case next =>
    intro j
    rw [same, drains.registry]
    split
    · next mine =>
      subst mine
      exact sound.next j
    · exact sound.next j
  case entries =>
    intro j
    rw [current, drains.registry]
    split
    · exact List.nil_sublist _
    · exact sound.entries j
  case registered =>
    intro j before e member runs
    rw [drains.left] at before
    rw [current] at member
    rw [drains.registry]
    split
    · next mine =>
      exact absurd (List.mem_append_right _ (mine ▸ List.mem_singleton_self _)) (before n)
    · have earlier : ∀ n, (j, n) ∉ s.left := fun n left => before n (List.mem_append_left _ left)
      exact sound.registered j earlier e member (sound.ran change member runs)

theorem Sound.shift (sound : Sound s) (change : World.Change s.world t.world published)
    (shift : Shift s t) : Sound t := by
  cases shift with
  | stays stays => exact sound.stays change stays
  | enrols e enrols => exact sound.enrols change enrols
  | givesUp q id givesUp => exact sound.givesUp change givesUp
  | drains q n drains => exact sound.drains change drains

end

section
variable {s t : Roll α} {q : Nat}

theorem Sound.distinct (sound : Sound s) (q : Nat) : ((s.of q).map (·.id)).Nodup := by
  have numbers : ((s.of q).map (·.id.number)).Nodup := by
    rw [sound.numbers]
    exact List.nodup_range'
  refine List.Nodup.of_map (·.number) ?_
  rwa [List.map_map]

theorem Sound.entries_distinct (sound : Sound s) (q : Nat) :
    ((s.current q).map Enrolment.entry).Nodup := by
  have ids : ((s.current q).map (·.id)).Nodup :=
    (sound.distinct q).sublist (List.filter_sublist.map _)
  refine List.Nodup.of_map Prod.fst ?_
  rwa [List.map_map]

/-- The registry has what runs, and what has ended is not counted. -/
theorem Sound.counted (sound : Sound s) (before : ∀ n, (q, n) ∉ s.left) :
    s.world.subscriptions q =
      ((s.current q).filter fun e => !s.world.loopFinished e.loop).length := by
  rw [World.subscriptions_eq]
  have few := ((sound.entries q).filter fun (_, k) => !s.world.loopFinished k).length_le
  rw [List.filter_map, List.length_map] at few
  have all : ((s.current q).filter fun e => !s.world.loopFinished e.loop).map Enrolment.entry ⊆
      (s.world.registry q).entries.filter fun (_, k) => !s.world.loopFinished k := by
    intro entry member
    obtain ⟨e, running, rfl⟩ := List.mem_map.mp member
    obtain ⟨current, runs⟩ := List.mem_filter.mp running
    have registered := sound.registered q before e current (by simpa using runs)
    exact List.mem_filter.mpr ⟨registered, runs⟩
  have distinct : (((s.current q).filter fun e => !s.world.loopFinished e.loop).map
      Enrolment.entry).Nodup := (sound.entries_distinct q).sublist (List.filter_sublist.map _)
  have many := (List.Nodup.subperm distinct all).length_le
  rw [List.length_map] at many
  exact Nat.le_antisymm few many

/-- A subscription that runs leaves the registry when it is given up, or all is. -/
theorem Shift.lasting (shift : Shift s t) (before : ∀ n, (q, n) ∉ t.left) {e : Enrolment}
    (current : e ∈ s.current q) (entry : e.entry ∈ (s.world.registry q).entries)
    (runs : s.world.loopFinished e.loop = false) :
    e ∈ t.current q ∧ e.entry ∈ (t.world.registry q).entries ∨
      e ∈ t.givenUp ∧ t.world = (s.world.unsubscribe q e.id).2 := by
  obtain ⟨⟨made, owner⟩, kept⟩ := (mem_current.mp current).imp_left mem_of.mp
  cases shift with
  | stays same =>
    rw [current_eq same.made same.givenUp, same.registry]
    exact .inl ⟨current, entry⟩
  | enrols e' enrols =>
    have made' : e ∈ t.made := by
      rw [enrols.made]
      exact List.mem_append_left _ made
    refine .inl ⟨mem_current.mpr ⟨mem_of.mpr ⟨made', owner⟩, enrols.givenUp ▸ kept⟩, ?_⟩
    rw [enrols.registry]
    split
    · next mine =>
      subst mine
      exact List.mem_append_left _ (List.mem_filter.mpr ⟨entry, by simp [Enrolment.entry, runs]⟩)
    · exact entry
  | givesUp j id givesUp =>
    by_cases meant : q = j ∧ e.id = id
    · obtain ⟨rfl, rfl⟩ := meant
      refine .inr ⟨?_, givesUp.world⟩
      rw [givesUp.givenUp]
      refine List.mem_append_right _ (List.mem_filter.mpr ⟨mem_of.mpr ⟨made, owner⟩, ?_⟩)
      exact decide_eq_true rfl
    · have other (mine : q = j) : e.id ≠ id := fun same => meant ⟨mine, same⟩
      rw [givesUp.current, givesUp.registry]
      left
      split
      · next mine =>
        subst mine
        exact ⟨List.mem_filter.mpr ⟨current, decide_eq_true (other rfl)⟩,
          List.mem_filter.mpr ⟨entry, decide_eq_true (other rfl)⟩⟩
      · exact ⟨current, entry⟩
  | drains j n drains =>
    have other : q ≠ j := by
      rintro rfl
      refine before n ?_
      rw [drains.left]
      exact List.mem_append_right _ (List.mem_singleton_self _)
    rw [current_eq drains.made drains.givenUp, drains.registry, if_neg other]
    exact .inl ⟨current, entry⟩

/-- What is in no registry cannot be given up. -/
theorem Sound.unknown (sound : Sound s) {id : SubscriptionId}
    (gone : ∀ e ∈ s.of q, e.id = id → e ∈ s.givenUp) :
    s.world.unsubscribe q id = (.error (unknownSubscription id), s.world) := by
  refine World.unsubscribe_unknown fun k entry => ?_
  obtain ⟨e, current, same⟩ := List.mem_map.mp ((sound.entries q).subset entry)
  obtain ⟨own, kept⟩ := mem_current.mp current
  exact kept (gone e own (congrArg Prod.fst same))

end

section
variable [DecidableEq α] {s t : Roll α}

theorem Leads.sound (run : Leads { world := { broker := {} } } s) : Sound s := by
  induction run with
  | refl => exact sound_start
  | tail _ move ih =>
    obtain ⟨published, change⟩ := move.closing.change
    exact ih.shift change move.shift

/-- Every world that can be reached has its roll, with nobody between the halves of a call. -/
theorem roll_of_reachable {w : World Ledger α} (reach : World.Reachable {} w) :
    ∃ s : Roll α, Leads { world := { broker := {} } } s ∧ Sound s ∧ s.world = w ∧
      s.leaving = [] := by
  obtain ⟨c, runs, rfl⟩ := Closing.runs_of_reachable reach
  obtain ⟨leads, quiet⟩ := Closing.leads_of_whole rfl runs
  obtain ⟨s, run, rfl⟩ := roll_of_leads leads
  exact ⟨s, run, run.sound, rfl, quiet⟩

theorem Leads.covered (run : Leads { world := { broker := {} } } s) :
    s.world.Orderly ∧ s.world.Covered := by
  induction run with
  | refl => exact ⟨World.orderly_empty, by simp, by simp⟩
  | tail _ move ih =>
    obtain ⟨published, change⟩ := move.closing.change
    exact ⟨change.orderly ih.1, change.covered ih.1 ih.2⟩

/-- The law of the registry of queue `q`. -/
structure EnrolmentLaw (s : Roll α) (q : Nat) : Prop where
  /-- Subscriptions are numbered in the order in which they are made, from one on, and no number is
  left out. -/
  numbers : (s.of q).map (·.id.number) = List.range' 1 (s.of q).length
  rising : ((s.of q).map (·.id.number)).Pairwise (· < ·)
  distinct : ((s.of q).map (·.id)).Nodup
  /-- A number of 64 bits is enough for fewer subscriptions than there are such numbers. -/
  bounded : s.made.length < 0x10000000000000000 →
    ∀ e ∈ s.of q, e.id.number < 0x10000000000000000
  next : ∀ topic group label subscriber id v,
    s.world.subscribe q topic group label subscriber = (.ok id, v) →
    id.number = (s.of q).length + 1
  /-- A call that fails uses no number up. -/
  failed : ∀ topic group label subscriber e v,
    s.world.subscribe q topic group label subscriber = (.error e, v) → v = s.world
  /-- Every loop belongs to one subscription. -/
  loops : s.made.map (·.loop) = List.range s.world.loops.length
  /-- Until the queue gives all up, what runs and was not given up is in the registry. -/
  registered : (∀ n, (q, n) ∉ s.left) → ∀ e ∈ s.current q,
    s.world.loopFinished e.loop = false → e.entry ∈ (s.world.registry q).entries
  /-- It stays there, unless the next move gives it up, or all. -/
  lasting : ∀ t, Move s t → (∀ n, (q, n) ∉ t.left) → ∀ e ∈ s.current q,
    s.world.loopFinished e.loop = false →
    e ∈ t.current q ∧ e.entry ∈ (t.world.registry q).entries ∨
      e ∈ t.givenUp ∧ t.world = (s.world.unsubscribe q e.id).2
  /-- It can be given up: its loop, and no other, is wound up then. -/
  stops : (∀ n, (q, n) ∉ s.left) → ∀ e ∈ s.current q, ∀ l, s.world.loops[e.loop]? = some l →
    l.Running → ∀ v, (s.world.unsubscribe q e.id).2.Leads v →
    World.CancellationLaw s.world v e.loop l ∧ World.UnsubscribeLaw s.world v q e.id e.loop
  counted : (∀ n, (q, n) ∉ s.left) → s.world.subscriptions q =
    ((s.current q).filter fun e => !s.world.loopFinished e.loop).length
  /-- What was not made, and what was given up, cannot be given up. -/
  unknown : ∀ id, (∀ e ∈ s.of q, e.id = id → e ∈ s.givenUp) →
    s.world.unsubscribe q id = (.error (unknownSubscription id), s.world) ∧
      (unknownSubscription id).kind = .configuration

theorem stops_of_registered {w v : World Ledger α} (listed : World.Listed w)
    (covered : World.Covered w) {q k : Nat} {id : SubscriptionId}
    (entry : (id, k) ∈ (w.registry q).entries) {l : ReadLoop Ledger α}
    (here : w.loops[k]? = some l) (running : l.Running) (later : (w.unsubscribe q id).2.Leads v) :
    World.CancellationLaw w v k l ∧ World.UnsubscribeLaw w v q id k := by
  obtain ⟨queue, found, entry⟩ := World.registered_of_entry entry
  obtain ⟨cancelled, same⟩ := (World.Cancels.unsubscribe found entry).cancelled listed here
  obtain ⟨c, steady⟩ := covered.steady here
  obtain ⟨l', more, there, acts, winding⟩ :=
    later.changes.winding cancelled (winding_of_running running)
  have acts : v.acts k = w.acts k ++ more := by rw [acts, ← same k, World.obey]
  have law : World.CancellationLaw w v k l :=
    World.law_of_winding winding running (steady.course.unclosed running) there acts
  exact ⟨law, World.unsubscribe_law listed found entry later here law.finished⟩

/-- **Every subscription is found under its number for as long as it runs**, until it is given up or
its queue is closed, whatever other subscriptions are made, end or are given up, and no number is
given away twice. -/
theorem enrolment_law (run : Leads { world := { broker := {} } } s) (q : Nat) :
    EnrolmentLaw s q := by
  have sound := run.sound
  constructor
  case numbers => exact sound.numbers q
  case rising =>
    rw [sound.numbers]
    exact List.pairwise_lt_range'
  case distinct => exact sound.distinct q
  case bounded =>
    intro few e member
    have number := List.mem_map_of_mem (f := (·.id.number)) member
    rw [sound.numbers, List.mem_range'_1] at number
    have fewer : (s.of q).length ≤ s.made.length := List.length_filter_le ..
    omega
  case next =>
    intro topic group label subscriber id v made
    obtain ⟨rfl, -, -⟩ := World.subscribe_registry made
    exact sound.next q
  case failed => exact fun topic group label subscriber e v => World.subscribe_error
  case loops => exact sound.loops
  case registered => exact sound.registered q
  case lasting =>
    intro t move before e current runs
    have earlier : ∀ n, (q, n) ∉ s.left :=
      fun n left => before n (Closing.Move.left_grows move.closing left)
    exact move.shift.lasting before current (sound.registered q earlier e current runs) runs
  case stops =>
    intro before e current l here running v later
    have runs : s.world.loopFinished e.loop = false := by
      have running : l.phase.isFinished = false := running
      simp [World.loopFinished, here, running]
    have entry := sound.registered q before e current runs
    have listed := run.closing.attended.listed
    exact stops_of_registered listed run.covered.2 entry here running later
  case counted => exact sound.counted
  case unknown => exact fun id gone => ⟨sound.unknown gone, rfl⟩

end

def join (group : String) : World.Command Ledger String :=
  .subscribe 0 World.orders group "auditor" (.direct ⟨fun _ _ => { accept := true }⟩)

/-- The first subscription ends on its own, and is forgotten when the third is made. The second is
given up. One call to subscribe fails. -/
theorem enrolment_law_forgotten : ∃ s : Roll String,
    EnrolmentLaw s 0 ∧ (s.of 0).map (·.id.number) = [1, 2, 3] ∧
      s.givenUp.map (·.id.number) = [2] ∧
      (s.world.registry 0).entries.map (fun (id, k) => (id.number, k)) = [(3, 2)] ∧
      s.world.loops.map (·.phase.isFinished) = [true, false, false] ∧
      s.world.subscriptions 0 = 1 := by
  have opened : Leads { world := { broker := {} } } { world := World.opened } :=
    .single (.command (.connect ⟨[]⟩ _) rfl)
  have joined := ((opened.tail (.command (join "audit") rfl)).tail
    (.command (join " ") rfl)).tail (.command (join "stock") rfl)
  have ended := (joined.tail (.command (.control Ledger.Control.closeReaders) rfl)).tail
    (.step (.loop 0) rfl)
  have run := (ended.tail (.command (join "audit") rfl)).tail
    (.command (.unsubscribe 0 ⟨2⟩) rfl)
  exact ⟨_, enrolment_law run 0, by decide, by decide, by decide, by decide, by decide⟩

end Roll

end Courier.Queue
