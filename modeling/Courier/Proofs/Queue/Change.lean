import Courier.Proofs.Broker.Ledger
import Courier.Proofs.Queue.Call
import Courier.Proofs.Queue.Turn

/-!
# What a move changes

A world over a ledger moves in many ways, but to its logs, its offsets, its
loops and their acts only four things can happen. A loop takes a turn, a record
is published, a subscription is made, or all of it is kept.
-/

namespace Courier.Queue

open Broker (Transport Ledger)

section
variable {T α : Type} [Transport T]

/-- What may befall a loop between its turns: it is woken, it is cancelled, or the pool answers
what it offered. -/
structure Kept (l l' : ReadLoop T α) : Prop where
  rest : l' = { l with phase := l'.phase, cancelled := l'.cancelled }
  phase : l'.phase = l.phase ∨ (l.phase = .parked ∧ l'.phase = .ready) ∨
    ∃ m accept due, l.phase = .handling m .offered ∧ l'.phase = .handling m (.answered accept due)
  cancelled : l.cancelled = true → l'.cancelled = true

namespace Kept

variable {l l' : ReadLoop T α}

theorem refl (l : ReadLoop T α) : Kept l l := ⟨rfl, .inl rfl, id⟩

theorem cancel (l : ReadLoop T α) : Kept l { l with cancelled := true } :=
  ⟨rfl, .inl rfl, fun _ => rfl⟩

theorem reader (h : Kept l l') : l'.reader = l.reader := by rw [h.rest]

theorem topic (h : Kept l l') : l'.topic = l.topic := by rw [h.rest]

theorem group (h : Kept l l') : l'.group = l.group := by rw [h.rest]

/-- Only a loop that waits for a message or for a pool is moved on by others. -/
theorem stays (h : Kept l l') (awake : l.phase ≠ .parked)
    (free : ∀ m, l.phase ≠ .handling m .offered) : l'.phase = l.phase := by
  obtain same | ⟨parked, -⟩ | ⟨m, accept, due, offered, -⟩ := h.phase
  · exact same
  · exact absurd parked awake
  · exact absurd offered (free m)

end Kept

def KeptAll (a b : List (ReadLoop T α)) : Prop := ∀ k : Nat, Option.Rel Kept a[k]? b[k]?

namespace KeptAll

variable {a b : List (ReadLoop T α)}

theorem refl (a : List (ReadLoop T α)) : KeptAll a a := by
  intro k
  cases a[k]? with
  | none => exact .none
  | some l => exact .some (.refl l)

theorem map {f : ReadLoop T α → ReadLoop T α} (h : ∀ l, Kept l (f l))
    (a : List (ReadLoop T α)) : KeptAll a (a.map f) := by
  intro k
  rw [List.getElem?_map]
  cases a[k]? with
  | none => exact .none
  | some l => exact .some (h l)

theorem modify {f : ReadLoop T α → ReadLoop T α} (h : ∀ l, Kept l (f l))
    (a : List (ReadLoop T α)) (j : Nat) : KeptAll a (a.modify j f) := by
  intro k
  rw [List.getElem?_modify]
  cases a[k]? with
  | none => exact .none
  | some l =>
    by_cases same : j = k
    · simpa [same] using h l
    · simpa [same] using Kept.refl l

theorem set {l l' : ReadLoop T α} {j : Nat} (here : a[j]? = some l) (h : Kept l l') :
    KeptAll a (a.set j l') := by
  intro k
  by_cases same : j = k
  · subst same
    have bound := (List.getElem?_eq_some_iff.mp here).1
    rw [here, List.getElem?_set_self bound]
    exact .some h
  · rw [List.getElem?_set_ne same]
    exact refl a k

theorem of_some {l : ReadLoop T α} {k : Nat} (h : KeptAll a b) (here : a[k]? = some l) :
    ∃ l', b[k]? = some l' ∧ Kept l l' := by
  have rel := h k
  rw [here] at rel
  cases there : b[k]? with
  | none =>
    rw [there] at rel
    cases rel
  | some l' =>
    rw [there] at rel
    cases rel with
    | some kept => exact ⟨l', rfl, kept⟩

theorem length_eq (h : KeptAll a b) : b.length = a.length := by
  have none_iff (k : Nat) : a[k]? = none ↔ b[k]? = none := by
    have rel := h k
    cases ha : a[k]? <;> cases hb : b[k]? <;> simp_all
  have noMore : b[a.length]? = none := by
    rw [← none_iff]
    exact List.getElem?_eq_none (Nat.le_refl _)
  have noFewer : a[b.length]? = none := by
    rw [none_iff]
    exact List.getElem?_eq_none (Nat.le_refl _)
  rw [List.getElem?_eq_none_iff] at noMore noFewer
  exact Nat.le_antisymm noMore noFewer

end KeptAll

end

namespace World

variable {α : Type}

/-- What a move changes of the logs, the offsets, the loops and their acts, and what it publishes
if it publishes something. -/
inductive Change (w v : World Ledger α) : Option Record → Prop where
  | turn {k : Nat} {l : ReadLoop Ledger α} {t : Turn Ledger α} (here : w.loops[k]? = some l)
    (takes : l.Takes k w.now w.broker t) (eq : v = w.turned k t) : Change w v none
  | keep (ledger : w.broker.Alike v.broker) (loops : KeptAll w.loops v.loops)
    (acts : ∀ k, v.acts k = w.acts k) : Change w v none
  | publish (r : Record) (ledger : v.broker = w.broker.append r.topic.name (w.broker.entry w.now r))
    (loops : KeptAll w.loops v.loops) (awake : ∀ l ∈ v.loops, l.phase ≠ .parked)
    (acts : ∀ k, v.acts k = w.acts k) : Change w v (some r)
  | subscribe (queue : Nat) (topic : Topic) (group label : String) (isDebug : Bool)
    (subscriber : Subscriber α) (ledger : v.broker = w.broker)
    (loops : v.loops = w.loops ++ [{
      label, queue, topic, group, isDebug, reader := w.broker.openReader topic group, subscriber }])
    (acts : ∀ k, v.acts k = w.acts k) : Change w v none

section
variable {T : Type} [Transport T]

theorem wake_kept (w : World T α) : KeptAll w.loops w.wake.loops := by
  apply KeptAll.map
  intro l
  split
  · next parked => exact ⟨rfl, .inr (.inl ⟨parked, rfl⟩), id⟩
  · exact .refl l

theorem wake_awake (w : World T α) : ∀ l ∈ w.wake.loops, l.phase ≠ .parked := by
  intro l hl
  obtain ⟨l', -, rfl⟩ := List.mem_map.mp hl
  split
  · simp
  · next stays =>
    intro parked
    exact stays parked

theorem cancelAll_kept (w : World T α) (q : Nat) : KeptAll w.loops (w.cancelAll q).loops := by
  apply KeptAll.map
  intro l
  split
  · exact .cancel l
  · exact .refl l

theorem cancelLoop_kept (w : World T α) (k : Nat) : KeptAll w.loops (w.cancelLoop k).loops := by
  apply KeptAll.modify
  intro l
  exact .cancel l

end

theorem connect_change (w : World Ledger α) (files : Files) (config : Broker.Config) :
    Change w (w.connect files config).2 none := by
  unfold connect
  cases config.validate files with
  | error e => exact .keep (.refl _) (.refl _) fun _ => rfl
  | ok connection =>
    simp only [Transport.probe, Transport.openWriter, Ledger.probe]
    split
    · exact .keep ⟨rfl, rfl⟩ (.refl _) fun _ => rfl
    · exact .keep ⟨rfl, rfl⟩ (.refl _) fun k => acts_note_of_none rfl

theorem appended_change (w : World Ledger α) (r : Record) : Change w (w.appended r) (some r) :=
  .publish r rfl (wake_kept _) (wake_awake _) fun _ => acts_note_of_none rfl

theorem put_change (w : World Ledger α) (q : Nat) (r : Record) :
    ∃ result v, w.put q r = (result, v) ∧
      match result with
      | .ok () => Change w v (some r)
      | .error _ => Change w v none := by
  obtain eq | ⟨e, eq⟩ := put_eq w q r
  · exact ⟨_, _, eq, appended_change w r⟩
  · exact ⟨_, _, eq, .keep (.refl _) (.refl _) fun _ => acts_note_of_none rfl⟩

theorem publish_change (w : World Ledger α) (q : Nat) (topic : Topic) (payload : Payload) :
    ∃ published, Change w (w.publish q topic payload).2 published := by
  rw [publish_eq]
  split
  · exact ⟨none, .keep (.refl _) (.refl _) fun _ => rfl⟩
  · next r _ =>
    split
    · exact ⟨none, .keep (.refl _) (.refl _) fun _ => rfl⟩
    · obtain ⟨result, v, put, change⟩ := put_change w q r
      rw [put]
      cases result with
      | ok => exact ⟨some r, change⟩
      | error e => exact ⟨none, change⟩

theorem publishJson_change (w : World Ledger α) (q : Nat) (topic : Topic)
    (value : Except String Json) :
    ∃ published, Change w (w.publishJson q topic value).2 published := by
  unfold publishJson
  split
  · exact ⟨none, .keep (.refl _) (.refl _) fun _ => rfl⟩
  · exact publish_change w q topic _

theorem subscribe_ok {w v : World Ledger α} {q : Nat} {topic : Topic} {group label : String}
    {subscriber : Subscriber α} {id : SubscriptionId}
    (h : w.subscribe q topic group label subscriber = (.ok id, v)) :
    ∃ isDebug, v.broker = w.broker ∧
      v.loops = w.loops ++ [{
        label, queue := q, topic, group, isDebug, reader := w.broker.openReader topic group
        subscriber }] ∧
      ∀ k, v.acts k = w.acts k := by
  unfold subscribe at h
  split at h
  · simp at h
  · simp at h
  · split at h
    · simp at h
    · simp only [Transport.openReader, Prod.mk.injEq] at h
      obtain ⟨-, rfl⟩ := h
      exact ⟨_, rfl, rfl, fun k => acts_note_of_none rfl⟩

theorem subscribe_error {w v : World Ledger α} {q : Nat} {topic : Topic} {group label : String}
    {subscriber : Subscriber α} {e : Error}
    (h : w.subscribe q topic group label subscriber = (.error e, v)) : v = w := by
  unfold subscribe at h
  split at h
  · exact (Prod.mk.inj h).2.symm
  · exact (Prod.mk.inj h).2.symm
  · split at h
    · exact (Prod.mk.inj h).2.symm
    · simp [Transport.openReader] at h

theorem subscribe_change (w : World Ledger α) (q : Nat) (topic : Topic) (group label : String)
    (subscriber : Subscriber α) : Change w (w.subscribe q topic group label subscriber).2 none := by
  rcases h : w.subscribe q topic group label subscriber with ⟨result, v⟩
  cases result with
  | ok id =>
    obtain ⟨isDebug, ledger, loops, acts⟩ := subscribe_ok h
    exact .subscribe q topic group label isDebug subscriber ledger loops acts
  | error e =>
    obtain rfl := subscribe_error h
    exact .keep (.refl _) (.refl _) fun _ => rfl

theorem unsubscribe_change (w : World Ledger α) (q : Nat) (id : SubscriptionId) :
    Change w (w.unsubscribe q id).2 none := by
  unfold unsubscribe
  split
  · exact .keep (.refl _) (.refl _) fun _ => rfl
  · split
    · exact .keep (.refl _) (.refl _) fun _ => rfl
    · exact .keep (.refl _) (cancelLoop_kept _ _) fun _ => rfl

theorem close_change (w : World Ledger α) (q : Nat) : Change w (w.close q).2 none := by
  unfold close
  split
  · exact .keep (.refl _) (.refl _) fun _ => rfl
  · split
    · exact .keep (.refl _) (.refl _) fun _ => rfl
    · exact .keep (.refl _) (cancelAll_kept w q) fun _ => rfl

theorem control_change (w : World Ledger α) (c : Ledger.Control) :
    Change w (w.control c) none := by
  unfold control
  simp only [Transport.control]
  split
  · exact .keep (Ledger.control_alike _ c) (wake_kept _) fun _ => rfl
  · exact .keep (Ledger.control_alike _ c) (.refl _) fun _ => rfl

section
variable {T : Type} [Transport T]

/-- The broker, the queues and the acts are the same before and after, and all loops are kept. -/
structure Apart (w v : World T α) : Prop where
  broker : v.broker = w.broker
  queues : v.queues = w.queues
  loops : KeptAll w.loops v.loops
  acts : ∀ k, v.acts k = w.acts k

theorem Apart.refl (w : World T α) : Apart w w := ⟨rfl, rfl, .refl _, fun _ => rfl⟩

theorem note_apart (w : World T α) {n : Note α} (idle : ∀ k, n.actOf k = none) :
    Apart w (w.note n) :=
  ⟨rfl, rfl, .refl _, fun k => acts_note_of_none (idle k)⟩

theorem report_apart (w : World T α) (l : ReadLoop T α) (m : Option Message) (e : Error) :
    Apart w (w.report l m e) := by
  rw [report, utter_eq_note]
  exact note_apart w fun _ => actOf_noteOf ..

theorem answerOffer_apart (w : World T α) (k : Nat) (accepted : Bool) :
    Apart w (w.answerOffer k accepted) := by
  unfold answerOffer
  split
  · next l here =>
    split
    · next m offered =>
      have kept (now : Nat) : Kept l { l with phase := .handling m (.answered accepted now) } :=
        ⟨rfl, .inr (.inr ⟨m, accepted, now, offered, rfl⟩), id⟩
      cases accepted with
      | true => exact ⟨rfl, rfl, .set here (kept _), fun _ => rfl⟩
      | false =>
        have told := report_apart w l (some m) Subscriber.handoffRefused
        have same : (w.report l (some m) Subscriber.handoffRefused).loops = w.loops := by
          rw [report, utter_eq_note]
          rfl
        constructor
        case broker => exact told.broker
        case queues => exact told.queues
        case loops =>
          simp only [setLoop, Bool.false_eq_true, ↓reduceIte, same]
          exact .set here (kept _)
        case acts => exact told.acts
    · exact .refl w
  · exact .refl w

theorem answerOffer_still (w : World T α) (k : Nat) (accepted : Bool) :
    (w.answerOffer k accepted).now = w.now ∧ (w.answerOffer k accepted).pools = w.pools := by
  unfold answerOffer
  split
  · split
    · cases accepted with
      | true => exact ⟨rfl, rfl⟩
      | false =>
        rw [report, utter_eq_note]
        exact ⟨rfl, rfl⟩
    · exact ⟨rfl, rfl⟩
  · exact ⟨rfl, rfl⟩

section
variable [DecidableEq α]

def effected (w : World T α) (label : String) : Pool.Effect α → World T α
  | .accepted k => w.answerOffer k true
  | .refused k => w.answerOffer k false
  | .started v => w.note (.heard label (.started v))
  | .finished v released =>
    let w := w.note (.heard label (.finished v))
    if released then { w with released := w.released.erase v } else w
  | .none => w

/-- The world after pool `p` has become another with an effect. -/
def worked (w : World T α) (p : Nat) (pool : Pool α) (effect : Pool.Effect α) : World T α :=
  { w with pools := w.pools.set p pool }.effected pool.label effect

theorem poolStep_worked {w v : World T α} {p : Nat} {s : Pool.Step} (h : w.poolStep p s = some v) :
    ∃ pool pool' effect, w.pools[p]? = some pool ∧
      pool.step w.now w.released s = some (pool', effect) ∧ v = w.worked p pool' effect := by
  unfold poolStep at h
  split at h
  · cases h
  · next pool here =>
    split at h
    · cases h
    · next pool' effect stepped =>
      obtain rfl := Option.some.inj h
      exact ⟨pool, pool', effect, here, stepped, by cases effect <;> rfl⟩

/-- Of a pool only the answers to what was offered are to be seen elsewhere. -/
theorem effected_apart (w : World T α) (label : String) (effect : Pool.Effect α) :
    Apart w (w.effected label effect) := by
  have noted (e : Event α) : Apart w (w.note (.heard label e)) := note_apart w fun _ => rfl
  cases effect with
  | accepted k => exact answerOffer_apart w k true
  | refused k => exact answerOffer_apart w k false
  | started value => exact noted (.started value)
  | finished value released =>
    obtain ⟨broker, queues, loops, acts⟩ := noted (.finished value)
    cases released <;> exact ⟨broker, queues, loops, acts⟩
  | none => exact .refl w

theorem worked_apart (w : World T α) (p : Nat) (pool : Pool α) (effect : Pool.Effect α) :
    Apart w (w.worked p pool effect) := by
  obtain ⟨broker, queues, loops, acts⟩ :=
    effected_apart { w with pools := w.pools.set p pool } pool.label effect
  exact ⟨broker, queues, loops, acts⟩

theorem worked_still (w : World T α) (p : Nat) (pool : Pool α) (effect : Pool.Effect α) :
    (w.worked p pool effect).now = w.now ∧
      (w.worked p pool effect).pools = w.pools.set p pool := by
  unfold worked
  cases effect with
  | accepted k | refused k => exact answerOffer_still ..
  | started value | none => exact ⟨rfl, rfl⟩
  | finished value released => cases released <;> exact ⟨rfl, rfl⟩

theorem poolStep_apart {w v : World T α} {p : Nat} {s : Pool.Step}
    (h : w.poolStep p s = some v) : Apart w v := by
  obtain ⟨pool, pool', effect, -, -, rfl⟩ := poolStep_worked h
  exact worked_apart w p pool' effect

end

theorem callStep_apart {w v : World T α} {c : Nat} (h : w.callStep c = some v) : Apart w v := by
  unfold callStep at h
  split at h
  · cases h
  · next p _ =>
    split at h
    · cases h
    · split at h
      · obtain rfl := Option.some.inj h
        cases p.purpose with
        | shutdown => exact ⟨rfl, rfl, .refl _, fun _ => rfl⟩
        | unsubscribe id => exact ⟨rfl, rfl, .refl _, fun _ => acts_note_of_none rfl⟩
        | close result => exact ⟨rfl, rfl, .refl _, fun _ => acts_note_of_none rfl⟩
      · split at h
        · cases h
        · next abnormal _ =>
          obtain rfl := Option.some.inj h
          cases abnormal with
          | true => exact ⟨rfl, rfl, .refl _, fun _ => acts_note_of_none rfl⟩
          | false => exact ⟨rfl, rfl, .refl _, fun _ => rfl⟩

end

theorem Apart.change {w v : World Ledger α} (h : Apart w v) : Change w v none :=
  .keep (h.broker ▸ .refl _) h.loops h.acts

theorem step_change [DecidableEq α] {w v : World Ledger α} {s : Step}
    (possible : w.step s = some v) : Change w v none := by
  cases s with
  | loop k =>
    obtain ⟨l, t, here, takes, eq⟩ := loopStep_takes possible
    exact .turn here takes eq
  | pool p s => exact (poolStep_apart possible).change
  | call c => exact (callStep_apart possible).change
  | wait ms =>
    obtain rfl := Option.some.inj possible
    exact .keep (.refl _) (.refl _) fun _ => rfl

def Command.publishes : Command Ledger α → Bool
  | .publish .. | .publishJson .. => true
  | _ => false

theorem command_change (w : World Ledger α) {c : Command Ledger α} (silent : c.publishes = false) :
    Change w (w.obey c) none := by
  cases c with
  | connect files config => exact connect_change w files config
  | publish | publishJson => simp [Command.publishes] at silent
  | subscribe q topic group label s => exact subscribe_change w q topic group label s
  | unsubscribe q id => exact unsubscribe_change w q id
  | close q => exact close_change w q
  | drop q => exact .keep (.refl _) (cancelAll_kept w q) fun _ => rfl
  | startPool | closePool | shutdownPool | release =>
    exact .keep (.refl _) (.refl _) fun _ => rfl
  | control c => exact control_change w c

theorem move_change [DecidableEq α] {w v : World Ledger α} (h : Move w v) :
    ∃ published, Change w v published := by
  cases h with
  | step s possible => exact ⟨none, step_change possible⟩
  | command c =>
    cases silent : c.publishes with
    | false => exact ⟨none, command_change w silent⟩
    | true =>
      cases c <;> simp [Command.publishes] at silent
      · exact publish_change ..
      · exact publishJson_change ..

end World

end Courier.Queue
