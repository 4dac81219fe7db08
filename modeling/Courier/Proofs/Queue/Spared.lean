import Courier.Proofs.Queue.Change

/-!
# What befalls a loop

Over any broker, a move is the turn of a loop or spares it:

* `Spared`: what befalls a loop that takes no turn, and a loop to come;
* `obey_spared`: no command makes a loop take a turn;
* `step_turn`, `move_turn`: a step is the turn of a loop, or the loop is spared.
-/

namespace Courier.Queue

open Broker (Transport)

variable {T α : Type} [Transport T]

/-- Nothing was fetched or answered yet. -/
structure ReadLoop.Untried (l : ReadLoop T α) : Prop where
  phase : l.phase = .ready
  failures : l.failures = 0
  rejections : l.rejections = 0

namespace World

/-- Loop `k` takes no turn between `w` and `v`. -/
structure Spared (k : Nat) (w v : World T α) : Prop where
  now : w.now ≤ v.now
  loop : ∀ l, w.loops[k]? = some l → ∃ l', v.loops[k]? = some l' ∧ Kept l l'
  new : w.loops[k]? = none → ∀ l, v.loops[k]? = some l → l.Untried
  acts : v.acts k = w.acts k

section
variable {w v : World T α} {k : Nat}

theorem Spared.of_kept (now : w.now ≤ v.now) (loops : KeptAll w.loops v.loops)
    (acts : v.acts k = w.acts k) : Spared k w v := by
  refine ⟨now, fun _ here => loops.of_some here, ?_, acts⟩
  intro absent l here
  have rel := loops k
  rw [absent, here] at rel
  cases rel

theorem Spared.refl (k : Nat) (w : World T α) : Spared k w w :=
  .of_kept (Nat.le_refl _) (.refl _) rfl

theorem turned_spared {j : Nat} {l : ReadLoop T α} {t : Turn T α}
    (takes : l.Takes j w.now w.broker t) (other : j ≠ k) : Spared k w (w.turned j t) := by
  have same : (w.turned j t).loops[k]? = w.loops[k]? := turned_ne t other
  constructor
  case now => exact Nat.le_refl _
  case loop =>
    intro l here
    exact ⟨l, same.trans here, .refl l⟩
  case new =>
    intro absent l here
    simp [same, absent] at here
  case acts => exact acts_turned_ne takes other

theorem publish_spared (w : World T α) (k q : Nat) (topic : Topic) (payload : Payload) :
    Spared k w (w.publish q topic payload).2 := by
  unfold publish
  split
  · exact .refl k w
  · next record _ =>
    split
    · exact .refl k w
    · next writer _ =>
      rcases Transport.write w.now writer record w.broker with ⟨r, broker⟩
      cases r with
      | ok => exact .of_kept (Nat.le_refl _) (wake_kept _) (acts_note_of_none rfl)
      | error e => exact .of_kept (Nat.le_refl _) (.refl _) (acts_note_of_none rfl)

theorem subscribe_spared (w : World T α) (k q : Nat) (topic : Topic) (group label : String)
    (subscriber : Subscriber α) : Spared k w (w.subscribe q topic group label subscriber).2 := by
  unfold subscribe
  split
  · exact .refl k w
  · exact .refl k w
  · split
    · exact .refl k w
    · rcases Transport.openReader topic group w.broker with ⟨opened, broker⟩
      cases opened with
      | error e => exact .of_kept (Nat.le_refl _) (.refl _) rfl
      | ok reader =>
        constructor
        case now => exact Nat.le_refl _
        case loop =>
          intro l here
          have bound := (List.getElem?_eq_some_iff.mp here).1
          exact ⟨l, (List.getElem?_append_left bound).trans here, .refl l⟩
        case new =>
          intro absent l here
          have past : w.loops.length ≤ k := List.getElem?_eq_none_iff.mp absent
          have added := List.mem_of_getElem? ((List.getElem?_append_right past).symm.trans here)
          obtain rfl := List.mem_singleton.mp added
          exact ⟨rfl, rfl, rfl⟩
        case acts => exact acts_note_of_none rfl

theorem connect_spared (w : World T α) (k : Nat) (files : Files) (config : Broker.Config) :
    Spared k w (w.connect files config).2 := by
  unfold connect
  cases config.validate files with
  | error e => exact .refl k w
  | ok connection =>
    rcases Transport.probe w.broker with ⟨probed, broker⟩
    cases probed with
    | error e => exact .of_kept (Nat.le_refl _) (.refl _) rfl
    | ok =>
      rcases opened : Transport.openWriter broker with ⟨result, broker'⟩
      simp only [opened]
      cases result with
      | error e => exact .of_kept (Nat.le_refl _) (.refl _) rfl
      | ok writer => exact .of_kept (Nat.le_refl _) (.refl _) (acts_note_of_none rfl)

theorem control_spared (w : World T α) (k : Nat) (c : Transport.Control T) :
    Spared k w (w.control c) := by
  unfold control
  split
  · exact .of_kept (Nat.le_refl _) (wake_kept _) rfl
  · exact .of_kept (Nat.le_refl _) (.refl _) rfl

theorem unsubscribe_spared (w : World T α) (k q : Nat) (id : SubscriptionId) :
    Spared k w (w.unsubscribe q id).2 := by
  unfold unsubscribe
  split
  · exact .refl k w
  · split
    · exact .refl k w
    · exact .of_kept (Nat.le_refl _) (cancelLoop_kept _ _) rfl

theorem close_spared (w : World T α) (k q : Nat) : Spared k w (w.close q).2 := by
  unfold close
  split
  · exact .refl k w
  · split
    · exact .refl k w
    · next writer _ =>
      rcases closed : Transport.closeWriter writer w.broker with ⟨result, writer', broker⟩
      cases result with
      | ok => exact .of_kept (Nat.le_refl _) (cancelAll_kept w q) rfl
      | error e => exact .of_kept (Nat.le_refl _) (cancelAll_kept w q) (acts_note_of_none rfl)

theorem obey_spared (w : World T α) (k : Nat) (c : Command T α) : Spared k w (w.obey c) := by
  cases c with
  | connect files config => exact connect_spared w k files config
  | publish q topic payload => exact publish_spared w k q topic payload
  | publishJson q topic value =>
    cases value with
    | error reason => exact .refl k w
    | ok json => exact publish_spared w k q topic _
  | subscribe q topic group label s => exact subscribe_spared w k q topic group label s
  | unsubscribe q id => exact unsubscribe_spared w k q id
  | close q => exact close_spared w k q
  | drop q => exact .of_kept (Nat.le_refl _) (cancelAll_kept w q) rfl
  | startPool | closePool | shutdownPool | release =>
    exact .of_kept (Nat.le_refl _) (.refl _) rfl
  | control c => exact control_spared w k c

theorem poolStep_now [DecidableEq α] {p : Nat} {s : Pool.Step} (h : w.poolStep p s = some v) :
    v.now = w.now := by
  obtain ⟨pool, pool', effect, -, -, rfl⟩ := poolStep_worked h
  exact (worked_still w p pool' effect).1

theorem callStep_now {c : Nat} (h : w.callStep c = some v) : v.now = w.now := by
  unfold callStep at h
  split at h
  · cases h
  · next p _ =>
    split at h
    · cases h
    · split at h
      · obtain rfl := Option.some.inj h
        cases p.purpose <;> rfl
      · split at h
        · cases h
        · next abnormal _ =>
          obtain rfl := Option.some.inj h
          cases abnormal <;> rfl

theorem Apart.spared (apart : Apart w v) (now : v.now = w.now) : Spared k w v :=
  .of_kept (Nat.le_of_eq now.symm) apart.loops (apart.acts k)

variable [DecidableEq α]

/-- A step is the turn of loop `k`, or it is another's and the loop is spared. -/
theorem step_turn {s : Step} (possible : w.step s = some v) (k : Nat) :
    (∃ l t, s = .loop k ∧ w.loops[k]? = some l ∧ l.Takes k w.now w.broker t ∧ v = w.turned k t) ∨
      (s ≠ .loop k ∧ Spared k w v) := by
  cases s with
  | loop j =>
    obtain ⟨l, t, here, takes, rfl⟩ := loopStep_takes possible
    by_cases mine : j = k
    · subst mine
      exact .inl ⟨l, t, rfl, here, takes, rfl⟩
    · have other : Step.loop j ≠ .loop k := by simpa using mine
      exact .inr ⟨other, turned_spared takes mine⟩
  | pool p s => exact .inr ⟨nofun, (poolStep_apart possible).spared (poolStep_now possible)⟩
  | call c => exact .inr ⟨nofun, (callStep_apart possible).spared (callStep_now possible)⟩
  | wait ms =>
    obtain rfl := Option.some.inj possible
    exact .inr ⟨nofun, .of_kept (Nat.le_add_right _ _) (.refl _) rfl⟩

theorem move_turn (move : Move w v) (k : Nat) :
    (∃ l t, w.loops[k]? = some l ∧ l.Takes k w.now w.broker t ∧ v = w.turned k t) ∨
      Spared k w v := by
  cases move with
  | step s possible =>
    obtain ⟨l, t, -, turn⟩ | ⟨-, spared⟩ := step_turn possible k
    · exact .inl ⟨l, t, turn⟩
    · exact .inr spared
  | command c => exact .inr (obey_spared w k c)

end

end Courier.Queue.World
