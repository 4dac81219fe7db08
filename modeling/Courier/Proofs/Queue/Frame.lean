import Courier.Proofs.Queue.Commits
import Courier.Proofs.Queue.Journal

/-!
# What an attempt leaves alone

All logs, offsets and loops are in one world, and every attempt works on a few of them:

* `publish_outcome`, `Hushes`: commands write a record, make a loop or cancel some, or do nothing;
* `attempt_log`: a log is written to by publications to its topic, and by nothing else;
* `attempt_committed`: an offset is changed by turns of the loops of its topic and its group;
* `attempt_loop`: a loop's reader, its counters and its acts are changed by its own turns.
-/

namespace Courier.Queue

open Broker (Ledger Transport)

variable {α : Type}

/-- A turn changes the offset of its own topic and group at most. -/
theorem takes_committed {k now : Nat} {b : Ledger} {l : ReadLoop Ledger α} {t : Turn Ledger α}
    {topic : Topic} {group : String} (takes : l.Takes k now b t)
    (reads : l.reader.topic = l.topic.name) (serves : l.reader.group = l.group)
    (foreign : ¬ l.Serves topic group) :
    t.broker.committed topic.name group = b.committed topic.name group := by
  obtain ⟨same, -⟩ | ⟨m, due, -, commits, -⟩ := takes_commits takes
  · exact congrFun (congrFun same _) _
  · have commits := congrFun (congrFun commits topic.name) group
    rw [Ledger.committed_setCommitted, reads, serves, if_neg] at commits
    · exact commits
    · rintro ⟨sameTopic, sameGroup⟩
      exact foreign ⟨(Topic.name_inj.mp sameTopic).symm, sameGroup.symm⟩

namespace World

section
variable {w w' : World Ledger α}

theorem publish_outcome (w : World Ledger α) (q : Nat) (topic : Topic) (payload : Payload) :
    (∃ r, payload.toRecord topic = .ok r ∧ r.topic = topic ∧
      w.publish q topic payload = (.ok (), w.appended r)) ∨
    ∃ e v, w.publish q topic payload = (.error e, v) ∧ v.broker = w.broker ∧ v.loops = w.loops ∧
      ∀ k, v.acts k = w.acts k := by
  rw [publish_eq]
  cases record : payload.toRecord topic with
  | error e => exact .inr ⟨e, w, rfl, rfl, rfl, fun _ => rfl⟩
  | ok r =>
    cases w.writer q with
    | error e => exact .inr ⟨e, w, rfl, rfl, rfl, fun _ => rfl⟩
    | ok writer =>
      obtain put | ⟨e, put⟩ := put_eq w q r
      · exact .inl ⟨r, rfl, (Payload.toRecord_eq_ok record).1, put⟩
      · exact .inr ⟨e, _, put, rfl, rfl, fun _ => acts_note_of_none rfl⟩

/-- Some loops may be cancelled, and the broker may be probed. -/
structure Hushes (w w' : World Ledger α) : Prop where
  broker : w'.broker = { w.broker with probes := w'.broker.probes }
  loops : ∀ k : Nat, Option.Rel (fun l l' => l' = l ∨ l' = { l with cancelled := true })
    w.loops[k]? w'.loops[k]?
  acts : ∀ k, w'.acts k = w.acts k

theorem Hushes.of_loops (broker : w'.broker = { w.broker with probes := w'.broker.probes })
    (loops : w'.loops = w.loops) (acts : ∀ k, w'.acts k = w.acts k) : Hushes w w' := by
  refine ⟨broker, fun k => ?_, acts⟩
  rw [loops]
  cases w.loops[k]? with
  | none => exact .none
  | some l => exact .some (.inl rfl)

theorem Hushes.refl (w : World Ledger α) : Hushes w w := .of_loops rfl rfl fun _ => rfl

theorem Hushes.kept (h : Hushes w w') : KeptAll w.loops w'.loops := by
  intro k
  have rel := h.loops k
  generalize w.loops[k]? = a at rel ⊢
  generalize w'.loops[k]? = b at rel ⊢
  cases rel with
  | none => exact .none
  | some same =>
    obtain rfl | rfl := same
    · exact .some (.refl _)
    · exact .some (.cancel _)

theorem cancelAll_hushes (w : World Ledger α) (q : Nat) : Hushes w (w.cancelAll q) := by
  refine ⟨rfl, fun k => ?_, fun _ => rfl⟩
  rw [cancelAll, List.getElem?_map]
  cases w.loops[k]? with
  | none => exact .none
  | some l => by_cases mine : l.queue = q <;> simp [mine]

theorem connect_hushes (w : World Ledger α) (files : Files) (config : Broker.Config) :
    Hushes w (w.connect files config).2 := by
  unfold connect
  cases config.validate files with
  | error e => exact .refl w
  | ok connection =>
    simp only [Transport.probe, Transport.openWriter, Ledger.probe]
    split
    · exact .of_loops rfl rfl fun _ => rfl
    · exact .of_loops rfl rfl fun _ => acts_note_of_none rfl

theorem unsubscribe_hushes (w : World Ledger α) (q : Nat) (id : SubscriptionId) :
    Hushes w (w.unsubscribe q id).2 := by
  unfold unsubscribe
  split
  · exact .refl w
  · split
    · exact .refl w
    · next j _ =>
      refine ⟨rfl, fun k => ?_, fun _ => rfl⟩
      simp only [await, cancelLoop, setQueue, List.getElem?_modify]
      cases w.loops[k]? with
      | none => exact .none
      | some l => by_cases mine : j = k <;> simp [mine]

theorem close_hushes (w : World Ledger α) (q : Nat) : Hushes w (w.close q).2 := by
  unfold close
  split
  · exact .refl w
  · split
    · exact .refl w
    · exact ⟨rfl, (cancelAll_hushes w q).loops, fun _ => rfl⟩

def Command.topic : Command Ledger α → Option Topic
  | .publish _ topic _ | .publishJson _ topic _ => some topic
  | _ => none

/-- The topic that an attempt publishes to. No step publishes anything. -/
def Attempt.topic : Attempt Ledger α → Option Topic
  | .command c => c.topic
  | .step _ => none

/-- Commands commit nothing, and they write to the topics that they publish to. -/
structure Frame (w w' : World Ledger α) (topic : Option Topic) : Prop where
  committed : w'.broker.committed = w.broker.committed
  log : ∀ t, topic ≠ some t → w'.broker.log t.name = w.broker.log t.name

theorem Frame.of_alike {topic : Option Topic} (alike : w.broker.Alike w'.broker) :
    Frame w w' topic :=
  ⟨alike.committed, fun _ _ => by rw [alike.log]⟩

theorem Hushes.frame (h : Hushes w w') : Frame w w' none :=
  .of_alike ⟨by rw [h.broker], by rw [h.broker]⟩

theorem publish_frame (w : World Ledger α) (q : Nat) (topic : Topic) (payload : Payload) :
    Frame w (w.publish q topic payload).2 (some topic) := by
  obtain ⟨r, -, rfl, eq⟩ | ⟨e, v, eq, broker, -⟩ := publish_outcome w q topic payload
  · rw [eq]
    refine ⟨rfl, fun t other => ?_⟩
    change (w.broker.append _ _).log _ = _
    rw [Ledger.log_append, if_neg fun same => other (congrArg some (Topic.name_inj.mp same).symm),
      List.append_nil]
  · rw [eq]
    exact .of_alike (broker ▸ .refl _)

theorem obey_frame (w : World Ledger α) (c : Command Ledger α) : Frame w (w.obey c) c.topic := by
  cases c with
  | publish q topic payload => exact publish_frame w q topic payload
  | publishJson q topic value =>
    cases value with
    | ok json => exact publish_frame w q topic _
    | error reason => exact .of_alike (.refl _)
  | subscribe q topic group label s =>
    change Frame w (w.subscribe q topic group label s).2 none
    rcases answer : w.subscribe q topic group label s with ⟨result, v⟩
    cases result with
    | error e => exact .of_alike (subscribe_error answer ▸ .refl _)
    | ok id =>
      obtain ⟨-, broker, -⟩ := subscribe_ok answer
      exact .of_alike (broker ▸ .refl _)
  | connect files config => exact (connect_hushes w files config).frame
  | unsubscribe q id => exact (unsubscribe_hushes w q id).frame
  | close q => exact (close_hushes w q).frame
  | drop q => exact (cancelAll_hushes w q).frame
  | startPool | closePool | shutdownPool | release => exact .of_alike (.refl _)
  | control c =>
    have alike := Ledger.control_alike w.broker c
    change Frame w (w.control c) none
    unfold control
    split
    · exact .of_alike alike
    · exact .of_alike alike

end

section
variable [DecidableEq α] {w : World Ledger α} {topic : Topic} {group : String}

theorem attempt_log (w : World Ledger α) {a : Attempt Ledger α} (other : a.topic ≠ some topic) :
    (w.attempt a).broker.log topic.name = w.broker.log topic.name := by
  cases a with
  | command c => exact (obey_frame w c).log topic other
  | step s =>
    cases possible : w.step s with
    | none => simp [attempt, possible]
    | some v => simpa [attempt, possible] using (step_change possible).log_eq topic.name

theorem attempt_committed (reach : Reachable {} w) {a : Attempt Ledger α}
    (foreign : ∀ k l, a = .step (.loop k) → w.loops[k]? = some l → ¬ l.Serves topic group) :
    (w.attempt a).broker.committed topic.name group = w.broker.committed topic.name group := by
  cases a with
  | command c => exact congrFun (congrFun (obey_frame w c).committed _) _
  | step s =>
    cases possible : w.step s with
    | none => simp [attempt, possible]
    | some v =>
      rw [show w.attempt (.step s) = v by simp [attempt, possible]]
      cases s with
      | loop k =>
        obtain ⟨l, t, here, takes, rfl⟩ := loopStep_takes possible
        obtain ⟨c, steady⟩ := (reachable_covered reach).steady here
        exact takes_committed takes steady.topic steady.group (foreign k l rfl here)
      | pool p s => rw [(poolStep_apart possible).broker]
      | call c => rw [(callStep_apart possible).broker]
      | wait ms =>
        obtain rfl := Option.some.inj possible
        rfl

theorem attempt_loop (w : World Ledger α) {a : Attempt Ledger α} {k : Nat}
    {l : ReadLoop Ledger α} (other : a ≠ .step (.loop k)) (here : w.loops[k]? = some l) :
    (w.attempt a).acts k = w.acts k ∧
      ∃ l', (w.attempt a).loops[k]? = some l' ∧ Kept l l' := by
  cases a with
  | command c =>
    have spared := obey_spared w k c
    exact ⟨spared.acts, spared.loop l here⟩
  | step s =>
    cases possible : w.step s with
    | none =>
      rw [show w.attempt (.step s) = w by simp [attempt, possible]]
      exact ⟨rfl, l, here, .refl l⟩
    | some v =>
      rw [show w.attempt (.step s) = v by simp [attempt, possible]]
      obtain ⟨_, _, rfl, -⟩ | ⟨-, spared⟩ := step_turn possible k
      · exact absurd rfl other
      · exact ⟨spared.acts, spared.loop l here⟩

end

end World

end Courier.Queue
