import Courier.Proofs.Queue.Commits

/-!
# Registries and calls that wait

What a move does to the registries of the queues and to the calls that wait for
something:

* `takeWriter` and `drain`: to close a queue is to take its writer first, and to
  give its subscriptions up then. Others may come in between;
* `close_eq`: a call to close is its two halves with nothing in between;
* `Books`: everything that can happen to a registry or to a call;
* `Fate`: what becomes of one queue;
* `step_books`, `obey_books`: steps and commands do nothing else.
-/

namespace Courier.Queue

open Broker (Transport Ledger)

variable {T α : Type} [Transport T]

/-- What a call answers when all it waits for has ended. -/
def Purpose.answer : Purpose → Except Error Unit
  | .unsubscribe _ => .ok ()
  | .close result => result
  | .shutdown => .ok ()

namespace Registry

def without (r : Registry) (id : SubscriptionId) : Registry :=
  { r with entries := r.entries.filter (·.1 ≠ id) }

def emptied (r : Registry) : Registry := { r with entries := [] }

end Registry

namespace World

/-- The first half of a call to close: the queue gives up its writer, and the writer is closed. -/
def takeWriter (w : World T α) (q : Nat) : Option (Except Error Unit × World T α) :=
  match w.queues[q]? with
  | none => none
  | some queue =>
    match queue.writer with
    | none => none
    | some writer =>
      let (result, _, broker) := Transport.closeWriter writer w.broker
      some (result, { w with broker }.setQueue q { queue with writer := none })

def closing (queue : MessageQueue T) (result : Except Error Unit) : Pending :=
  { purpose := .close result, awaiting := queue.registry.entries.map fun (_, k) => .loop k }

/-- The second half: all loops are cancelled, the registry is emptied, and the call waits for what
was in it. Nothing says in which order a registry is emptied; here it is that of subscription. -/
def drain (w : World T α) (q : Nat) (queue : MessageQueue T) (result : Except Error Unit) :
    Nat × World T α :=
  let w := match result with
    | .ok () => w
    | .error e => w.log .error "Failed to close Kafka writer" [.error e]
  let w := (w.setQueue q { queue with registry := queue.registry.emptied }).cancelAll q
  w.await (closing queue result)

/-- A call to close is its two halves with nothing in between. -/
theorem close_eq (w : World T α) (q : Nat) :
    w.close q = match w.takeWriter q with
      | none => (none, w)
      | some (result, v) =>
        match v.queues[q]? with
        | none => (none, v)
        | some queue => (some (v.drain q queue result).1, (v.drain q queue result).2) := by
  unfold close takeWriter
  cases here : w.queues[q]? with
  | none => rfl
  | some queue =>
    have bound := (List.getElem?_eq_some_iff.mp here).1
    cases held : queue.writer with
    | none => simp [held]
    | some writer =>
      rcases closed : Transport.closeWriter writer w.broker with ⟨result, writer', broker⟩
      cases result <;>
        simp [setQueue, drain, closing, Registry.emptied, log, note, bound, cancelAll, await, held,
          closed]

/-- What a move does to the registries and to the calls that wait, and whether it is half of a call
to close. -/
inductive Books (w v : World T α) : Bool → Prop where
  | keep (queues : v.queues = w.queues) (loops : v.loops.length = w.loops.length)
    (pending : v.pending = w.pending) : Books w v false
  | connect {queue : MessageQueue T} (empty : queue.registry.entries = [])
    (isOpen : queue.writer ≠ none) (queues : v.queues = w.queues ++ [queue])
    (loops : v.loops.length = w.loops.length) (pending : v.pending = w.pending) : Books w v false
  /-- The new loop is in the registry of an open queue, and heeds its diagnostics. What has ended is
  forgotten. -/
  | subscribe {q : Nat} {queue : MessageQueue T} {l : ReadLoop T α}
    (here : w.queues[q]? = some queue) (isOpen : queue.writer ≠ none)
    (queues : v.queues = w.queues.set q { queue with registry := {
      next := queue.registry.next + 1
      entries := queue.registry.entries.filter (fun (_, k) => !w.loopFinished k) ++
        [(⟨queue.registry.next⟩, w.loops.length)] } })
    (loops : v.loops = w.loops ++ [l]) (owner : l.queue = q) (heeds : l.isDebug = queue.isDebug)
    (pending : v.pending = w.pending) : Books w v false
  | unsubscribe {q : Nat} {queue : MessageQueue T} {id : SubscriptionId} {k : Nat}
    (here : w.queues[q]? = some queue) (entry : (id, k) ∈ queue.registry.entries)
    (queues : v.queues = w.queues.set q { queue with registry := queue.registry.without id })
    (loops : v.loops.length = w.loops.length)
    (pending : v.pending = w.pending ++ [{ purpose := .unsubscribe id, awaiting := [.loop k] }]) :
    Books w v false
  | take {q : Nat} {queue : MessageQueue T} (here : w.queues[q]? = some queue)
    (queues : v.queues = w.queues.set q { queue with writer := none })
    (loops : v.loops.length = w.loops.length) (pending : v.pending = w.pending) : Books w v true
  | drain {q : Nat} {queue : MessageQueue T} {result : Except Error Unit}
    (here : w.queues[q]? = some queue)
    (queues : v.queues = w.queues.set q { queue with registry := queue.registry.emptied })
    (loops : v.loops.length = w.loops.length)
    (pending : v.pending = w.pending ++ [closing queue result]) : Books w v true
  | shutdown {p : Nat} {pool : Pool α} (here : w.pools[p]? = some pool)
    (queues : v.queues = w.queues) (loops : v.loops.length = w.loops.length)
    (pending : v.pending = w.pending ++
      [{ purpose := .shutdown, awaiting := (List.range pool.size).map (.worker p) }]) :
    Books w v false
  /-- A call to stop a pool that is not there waits for nothing. -/
  | idle (queues : v.queues = w.queues) (loops : v.loops.length = w.loops.length)
    (pending : v.pending = w.pending ++ [{ purpose := .shutdown, awaiting := [] }]) :
    Books w v false
  /-- A call hears that the first of what it waits for has ended. -/
  | hear {c : Nat} {p : Pending} {a : Awaited} {rest : List Awaited} {abnormal : Bool}
    (here : w.pending[c]? = some p) (unanswered : p.result = none)
    (awaiting : p.awaiting = a :: rest) (ended : w.ended a = some abnormal)
    (queues : v.queues = w.queues) (loops : v.loops.length = w.loops.length)
    (pending : v.pending = w.pending.set c { p with awaiting := rest }) : Books w v false
  | answer {c : Nat} {p : Pending} (here : w.pending[c]? = some p) (unanswered : p.result = none)
    (awaiting : p.awaiting = []) (queues : v.queues = w.queues)
    (loops : v.loops.length = w.loops.length)
    (pending : v.pending = w.pending.set c { p with result := some p.purpose.answer }) :
    Books w v false

/-- What one move may make of a queue. -/
inductive Fate (a : MessageQueue T) : MessageQueue T → Prop where
  | stays : Fate a a
  | subscribes {running : List (SubscriptionId × Nat)} {k : Nat} (isOpen : a.writer ≠ none)
    (kept : running.Sublist a.registry.entries) :
    Fate a { a with registry := {
      next := a.registry.next + 1, entries := running ++ [(⟨a.registry.next⟩, k)] } }
  | unsubscribes (id : SubscriptionId) : Fate a { a with registry := a.registry.without id }
  | parts : Fate a { a with writer := none }
  | empties : Fate a { a with registry := a.registry.emptied }

/-- What may have become of a queue: it is not opened again, and only an open one gets a
subscription, under the next number. -/
structure Ages (a b : MessageQueue T) : Prop where
  closed : a.writer = none → b.writer = none
  next : a.registry.next ≤ b.registry.next
  entries : ∀ e ∈ b.registry.entries, e ∈ a.registry.entries ∨
    (a.writer ≠ none ∧ e.1.number = a.registry.next ∧ a.registry.next < b.registry.next)

theorem Fate.ages {a b : MessageQueue T} (fate : Fate a b) : Ages a b := by
  cases fate with
  | stays => exact ⟨id, Nat.le_refl _, fun _ => .inl⟩
  | subscribes isOpen kept =>
    refine ⟨id, Nat.le_succ _, fun e member => ?_⟩
    obtain old | new := List.mem_append.mp member
    · exact .inl (kept.subset old)
    · obtain rfl := List.mem_singleton.mp new
      exact .inr ⟨isOpen, rfl, Nat.lt_succ_self _⟩
  | unsubscribes => exact ⟨id, Nat.le_refl _, fun e member => .inl (List.mem_of_mem_filter member)⟩
  | parts => exact ⟨fun _ => rfl, Nat.le_refl _, fun _ => .inl⟩
  | empties => exact ⟨id, Nat.le_refl _, nofun⟩

theorem Fate.isDebug {a b : MessageQueue T} (fate : Fate a b) : b.isDebug = a.isDebug := by
  cases fate <;> rfl

variable {w v : World T α}

/-- A queue that is put in the place of another has come of it, and the others are as they were. -/
theorem fate_set {q j : Nat} {a b c : MessageQueue T} (here : w.queues[q]? = some a)
    (queues : v.queues = w.queues.set q b) (fate : Fate a b) (there : w.queues[j]? = some c) :
    ∃ d, v.queues[j]? = some d ∧ Fate c d := by
  rw [queues]
  by_cases mine : q = j
  · subst mine
    obtain rfl : a = c := Option.some.inj (here.symm.trans there)
    have bound := (List.getElem?_eq_some_iff.mp here).1
    exact ⟨b, List.getElem?_set_self bound, fate⟩
  · exact ⟨c, by rw [List.getElem?_set_ne mine, there], .stays⟩

theorem Books.fate {half : Bool} (books : Books w v half) {q : Nat} {queue : MessageQueue T}
    (here : w.queues[q]? = some queue) :
    ∃ queue', v.queues[q]? = some queue' ∧ Fate queue queue' := by
  cases books with
  | keep queues | shutdown _ queues | idle queues | hear _ _ _ _ queues | answer _ _ _ queues =>
    exact ⟨queue, by rw [queues, here], .stays⟩
  | connect _ _ queues =>
    have bound := (List.getElem?_eq_some_iff.mp here).1
    exact ⟨queue, by rw [queues, List.getElem?_append_left bound, here], .stays⟩
  | subscribe there isOpen queues =>
    exact fate_set there queues (.subscribes isOpen List.filter_sublist) here
  | unsubscribe there _ queues => exact fate_set there queues (.unsubscribes _) here
  | take there queues => exact fate_set there queues .parts here
  | drain there queues => exact fate_set there queues .empties here

theorem Books.ages {half : Bool} (books : Books w v half) {q : Nat} {queue : MessageQueue T}
    (here : w.queues[q]? = some queue) :
    ∃ queue', v.queues[q]? = some queue' ∧ Ages queue queue' := by
  obtain ⟨queue', there, fate⟩ := books.fate here
  exact ⟨queue', there, fate.ages⟩

/-- A loop that was not there before is that of a queue, and heeds its diagnostics. -/
theorem Books.new {half : Bool} (books : Books w v half) {k : Nat} {l : ReadLoop T α}
    (absent : w.loops[k]? = none) (there : v.loops[k]? = some l) :
    ∃ queue, w.queues[l.queue]? = some queue ∧ l.isDebug = queue.isDebug := by
  have past : w.loops.length < v.loops.length :=
    Nat.lt_of_le_of_lt (List.getElem?_eq_none_iff.mp absent) (List.getElem?_eq_some_iff.mp there).1
  cases books with
  | subscribe here _ _ loops owner heeds =>
    rw [loops] at there
    obtain old | ⟨-, rfl⟩ := getElem?_concat_some there
    · simp [absent] at old
    · exact ⟨_, owner ▸ here, heeds⟩
  | keep _ loops | connect _ _ _ loops | unsubscribe _ _ _ loops | take _ _ loops
  | drain _ _ loops | shutdown _ _ loops | idle _ loops | hear _ _ _ _ _ loops
  | answer _ _ _ _ loops => omega

/-- Whatever else happens leaves a queue its writer, and makes none without. -/
theorem Books.closed (books : Books w v false) {q : Nat} {b : MessageQueue T}
    (there : v.queues[q]? = some b) (closed : b.writer = none) :
    ∃ a, w.queues[q]? = some a ∧ a.writer = none := by
  have set {j : Nat} {a c : MessageQueue T} (here : w.queues[j]? = some a)
      (queues : v.queues = w.queues.set j c) (same : c.writer = a.writer) :
      ∃ a, w.queues[q]? = some a ∧ a.writer = none := by
    rw [queues] at there
    by_cases mine : j = q
    · subst mine
      rw [List.getElem?_set_self (List.getElem?_eq_some_iff.mp here).1] at there
      obtain rfl := Option.some.inj there
      exact ⟨a, here, same ▸ closed⟩
    · rw [List.getElem?_set_ne mine] at there
      exact ⟨b, there, closed⟩
  cases books with
  | keep queues | shutdown _ queues | idle queues | hear _ _ _ _ queues | answer _ _ _ queues =>
    exact ⟨b, queues ▸ there, closed⟩
  | connect _ isOpen queues =>
    rw [queues] at there
    obtain here | ⟨-, rfl⟩ := getElem?_concat_some there
    · exact ⟨b, here, closed⟩
    · exact absurd closed isOpen
  | subscribe here _ queues | unsubscribe here _ queues => exact set here queues rfl

theorem answerOffer_pending (w : World T α) (k : Nat) (accepted : Bool) :
    (w.answerOffer k accepted).pending = w.pending := by
  unfold answerOffer
  split
  · split
    · cases accepted with
      | true => rfl
      | false =>
        rw [report, utter_eq_note]
        rfl
    · rfl
  · rfl

theorem worked_pending [DecidableEq α] (w : World T α) (p : Nat) (pool : Pool α)
    (effect : Pool.Effect α) : (w.worked p pool effect).pending = w.pending := by
  unfold worked
  cases effect with
  | accepted k | refused k => exact answerOffer_pending ..
  | finished value released => cases released <;> rfl
  | started | none => rfl

theorem worked_books [DecidableEq α] (w : World T α) (p : Nat) (pool : Pool α)
    (effect : Pool.Effect α) : Books w (w.worked p pool effect) false := by
  have apart := worked_apart w p pool effect
  exact .keep apart.queues apart.loops.length_eq (worked_pending w p pool effect)

theorem complete_eq (w : World T α) (purpose : Purpose) :
    (w.complete purpose).1 = purpose.answer ∧ (w.complete purpose).2.queues = w.queues ∧
      (w.complete purpose).2.loops = w.loops ∧ (w.complete purpose).2.pending = w.pending := by
  cases purpose <;> exact ⟨rfl, rfl, rfl, rfl⟩

theorem callStep_books {c : Nat} (possible : w.callStep c = some v) : Books w v false := by
  unfold callStep at possible
  split at possible
  · cases possible
  · next p here =>
    split at possible
    · cases possible
    · next unanswered =>
      have unanswered : p.result = none := by simpa using unanswered
      split at possible
      · next awaiting =>
        obtain rfl := Option.some.inj possible
        obtain ⟨answer, queues, loops, pending⟩ := complete_eq w p.purpose
        refine .answer here unanswered awaiting queues (congrArg List.length loops) ?_
        rw [← answer, ← pending]
        rfl
      · next a rest awaiting =>
        split at possible
        · cases possible
        · next abnormal ended =>
          obtain rfl := Option.some.inj possible
          cases abnormal <;> exact .hear here unanswered awaiting ended rfl rfl rfl

theorem step_books [DecidableEq α] {s : Step} (possible : w.step s = some v) : Books w v false := by
  cases s with
  | loop k =>
    obtain ⟨l, t, -, -, rfl⟩ := loopStep_takes possible
    exact .keep rfl List.length_set rfl
  | pool p s =>
    obtain ⟨pool, pool', effect, -, -, rfl⟩ := poolStep_worked possible
    exact worked_books w p pool' effect
  | call c => exact callStep_books possible
  | wait ms =>
    obtain rfl := Option.some.inj possible
    exact .keep rfl rfl rfl

theorem connect_books (w : World T α) (files : Files) (config : Broker.Config) :
    Books w (w.connect files config).2 false := by
  unfold connect
  split
  · exact .keep rfl rfl rfl
  · simp only
    split
    · exact .keep rfl rfl rfl
    · split
      · exact .keep rfl rfl rfl
      · exact .connect rfl (Option.some_ne_none _) rfl rfl rfl

theorem publish_books (w : World T α) (q : Nat) (topic : Topic) (payload : Payload) :
    Books w (w.publish q topic payload).2 false := by
  unfold publish
  split
  · exact .keep rfl rfl rfl
  · split
    · exact .keep rfl rfl rfl
    · simp only
      split
      · exact .keep rfl (wake_kept _).length_eq rfl
      · exact .keep rfl rfl rfl

theorem subscribe_books (w : World T α) (q : Nat) (topic : Topic) (group label : String)
    (subscriber : Subscriber α) : Books w (w.subscribe q topic group label subscriber).2 false := by
  unfold subscribe
  split
  · exact .keep rfl rfl rfl
  · exact .keep rfl rfl rfl
  · next writer queue isOpen here =>
    split
    · exact .keep rfl rfl rfl
    · simp only
      split
      · exact .keep rfl rfl rfl
      · have unclosed : queue.writer ≠ none := by
          intro none
          simp [World.writer, here, none] at isOpen
        exact .subscribe here unclosed rfl rfl rfl rfl rfl

theorem unsubscribe_none {q : Nat} {id : SubscriptionId}
    (unknown : ∀ queue k, w.queues[q]? = some queue → (id, k) ∉ queue.registry.entries) :
    w.unsubscribe q id = (.error (unknownSubscription id), w) := by
  unfold unsubscribe
  split
  · rfl
  · next queue here =>
    split
    · rfl
    · next id' k found =>
      have same : id' = id := by simpa using List.find?_some found
      exact absurd (same ▸ List.mem_of_find?_eq_some found) (unknown queue k here)

theorem unsubscribe_eq {q : Nat} {queue : MessageQueue T} {id id' : SubscriptionId} {k : Nat}
    (here : w.queues[q]? = some queue)
    (found : queue.registry.entries.find? (·.1 = id) = some (id', k)) :
    (w.unsubscribe q id).2 = {
      (w.setQueue q { queue with registry := queue.registry.without id }).cancelLoop k with
      pending := w.pending ++ [{ purpose := .unsubscribe id, awaiting := [.loop k] }] } := by
  unfold unsubscribe
  rw [here]
  simp only [found]
  rfl

theorem unsubscribe_books (w : World T α) (q : Nat) (id : SubscriptionId) :
    Books w (w.unsubscribe q id).2 false := by
  cases here : w.queues[q]? with
  | none =>
    rw [unsubscribe_none (by simp [here])]
    exact .keep rfl rfl rfl
  | some queue =>
    cases found : queue.registry.entries.find? (·.1 = id) with
    | none =>
      have unknown : ∀ k, (id, k) ∉ queue.registry.entries := by
        intro k member
        simpa using List.find?_eq_none.mp found (id, k) member
      have unknown : ∀ queue' k, w.queues[q]? = some queue' →
          (id, k) ∉ queue'.registry.entries := by
        intro queue' k here'
        obtain rfl : queue = queue' := Option.some.inj (here.symm.trans here')
        exact unknown k
      rw [unsubscribe_none unknown]
      exact .keep rfl rfl rfl
    | some entry =>
      obtain ⟨id', k⟩ := entry
      obtain rfl : id' = id := by simpa using List.find?_some found
      rw [unsubscribe_eq here found]
      refine .unsubscribe here (List.mem_of_find?_eq_some found) rfl ?_ rfl
      exact List.length_modify ..

theorem drain_books {q : Nat} {queue : MessageQueue T} (here : w.queues[q]? = some queue)
    (result : Except Error Unit) : Books w (w.drain q queue result).2 true := by
  have loops : (w.drain q queue result).2.loops.length = w.loops.length := by
    cases result <;> simp [drain, cancelAll, await, setQueue, log, note]
  cases result <;> exact .drain here rfl loops rfl

theorem takeWriter_books {q : Nat} {result : Except Error Unit}
    (taken : w.takeWriter q = some (result, v)) : Books w v true := by
  unfold takeWriter at taken
  split at taken
  · cases taken
  · next queue here =>
    split at taken
    · cases taken
    · obtain ⟨-, rfl⟩ := Prod.mk.inj (Option.some.inj taken)
      exact .take here rfl rfl rfl

theorem shutdownPool_books (w : World T α) (p : Nat) : Books w (w.shutdownPool p).2 false := by
  cases here : w.pools[p]? with
  | none =>
    refine .idle rfl rfl ?_
    simp [shutdownPool, await, closePool, here]
  | some pool =>
    refine .shutdown here rfl rfl ?_
    simp [shutdownPool, await, closePool, here]

theorem control_books (w : World T α) (c : Transport.Control T) : Books w (w.control c) false := by
  unfold control
  simp only
  split
  · exact .keep rfl (wake_kept _).length_eq rfl
  · exact .keep rfl rfl rfl

def Command.closes : Command T α → Bool
  | .close _ => true
  | _ => false

theorem obey_books {c : Command T α} (other : c.closes = false) : Books w (w.obey c) false := by
  cases c with
  | connect files config => exact connect_books w files config
  | publish q topic payload => exact publish_books w q topic payload
  | publishJson q topic value =>
    cases value with
    | error reason => exact .keep rfl rfl rfl
    | ok json => exact publish_books w q topic _
  | subscribe q topic group label s => exact subscribe_books w q topic group label s
  | unsubscribe q id => exact unsubscribe_books w q id
  | close q => cases other
  | drop q => exact .keep rfl (cancelAll_kept w q).length_eq rfl
  | startPool | closePool | release => exact .keep rfl rfl rfl
  | shutdownPool p => exact shutdownPool_books w p
  | control c => exact control_books w c

end World

end Courier.Queue
