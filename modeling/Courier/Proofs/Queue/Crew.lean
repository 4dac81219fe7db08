import Courier.Proofs.Pool.Shift
import Courier.Proofs.Queue.Change

/-!
# Pools that work for queues

The pools of a world are pools at work: whatever its loops offer and however its
steps are ordered, a pool that nobody closes is where some shift has led it.

* `Manned`: a shift of whole steps has led a pool to where it is;
* `reachable_crewed`: this holds of every pool in every run;
* `pool_slots`: every slot of such a pool is accounted for.
-/

namespace Courier.Queue

open Broker (Transport)
open Pool (Shift)

variable {T α : Type} [Transport T]

/-- A shift of whole steps has led the pool to where it is. -/
def Manned [DecidableEq α] (p : Pool α) : Prop :=
  p.closed = false → (∀ v, p.work v ≠ .fails) →
    ∃ n s, Shift.Runs p.label p.work n s ∧ s.pool = p

theorem manned_start [DecidableEq α] (label : String) (work : α → Work) (n : Nat) :
    Manned (Pool.start label work n) :=
  fun _ _ => ⟨n, Shift.opening label work n, .refl, rfl⟩

theorem manned_closed [DecidableEq α] {p : Pool α} (closed : p.closed = true) : Manned p := by
  intro unclosed
  simp [closed] at unclosed

theorem Manned.offer [DecidableEq α] {p : Pool α} (h : Manned p) (ticket : Nat) (value : α) :
    Manned (p.offer ticket value) := by
  intro unclosed willing
  obtain ⟨n, s, run, rfl⟩ := h unclosed willing
  exact ⟨n, _, run.tail (.offer ticket value), rfl⟩

/-- The pools have the same name and do the same work, and are both open or both closed. -/
structure Alike (p q : Pool α) : Prop where
  label : q.label = p.label
  work : q.work = p.work
  closed : q.closed = p.closed

theorem Alike.setWorker {p q : Pool α} (h : Alike p q) (i : Nat) (w : Worker α) :
    Alike p (q.setWorker i w) := by
  obtain ⟨label, work, closed⟩ := h
  simp only [Pool.setWorker]
  split <;> exact ⟨label, work, closed⟩

theorem step_alike [DecidableEq α] {p q : Pool α} {now : Nat} {released : List α}
    {step : Pool.Step} {effect : Pool.Effect α}
    (possible : p.step now released step = some (q, effect)) : Alike p q := by
  cases step with
  | accept =>
    simp only [Pool.step, Pool.accept] at possible
    split at possible
    · cases possible
    · split at possible
      · obtain ⟨rfl, -⟩ := Prod.mk.inj (Option.some.inj possible)
        exact ⟨rfl, rfl, rfl⟩
      · split at possible
        · cases possible
        · obtain ⟨rfl, -⟩ := Prod.mk.inj (Option.some.inj possible)
          exact ⟨rfl, rfl, rfl⟩
  | take i =>
    simp only [Pool.step, Pool.take] at possible
    split at possible
    · obtain ⟨rfl, -⟩ := Prod.mk.inj (Option.some.inj possible)
      split <;> (apply Alike.setWorker; exact ⟨rfl, rfl, rfl⟩)
    · cases possible
  | finish i =>
    simp only [Pool.step, Pool.finish] at possible
    split at possible
    · split at possible
      · obtain ⟨rfl, -⟩ := Prod.mk.inj (Option.some.inj possible)
        apply Alike.setWorker
        exact ⟨rfl, rfl, rfl⟩
      · cases possible
    · split at possible
      · obtain ⟨rfl, -⟩ := Prod.mk.inj (Option.some.inj possible)
        apply Alike.setWorker
        exact ⟨rfl, rfl, rfl⟩
      · cases possible
    · cases possible
  | halt i =>
    simp only [Pool.step, Pool.halt] at possible
    split at possible
    · split at possible
      · obtain ⟨rfl, -⟩ := Prod.mk.inj (Option.some.inj possible)
        apply Alike.setWorker
        exact ⟨rfl, rfl, rfl⟩
      · cases possible
    · cases possible

theorem Manned.step [DecidableEq α] {p q : Pool α} (h : Manned p) {now : Nat} {released : List α}
    {step : Pool.Step} {effect : Pool.Effect α}
    (possible : p.step now released step = some (q, effect)) : Manned q := by
  obtain ⟨label, work, closed⟩ := step_alike possible
  intro unclosed willing
  rw [label, work]
  obtain ⟨n, s, run, rfl⟩ := h (closed ▸ unclosed) (work ▸ willing)
  exact ⟨n, s.stepped q effect, run.tail (.step possible), rfl⟩

namespace World

variable {w v : World T α}

/-- Queues, subscriptions and messages are nothing to the pools. -/
theorem obey_pools (w : World T α) (c : Command T α) : (w.obey c).pools = w.pools ∨
    (∃ label work n, (w.obey c).pools = w.pools ++ [Pool.start label work n]) ∨
      ∃ p, (w.obey c).pools = w.pools.modify p Pool.close := by
  cases c with
  | startPool label work n => exact .inr (.inl ⟨label, work, n, rfl⟩)
  | closePool p => exact .inr (.inr ⟨p, rfl⟩)
  | shutdownPool p => exact .inr (.inr ⟨p, rfl⟩)
  | drop | release => exact .inl rfl
  | connect | publish | publishJson | subscribe | unsubscribe | close | control =>
    refine .inl ?_
    simp only [obey, connect, publish, publishJson, subscribe, unsubscribe, close, control]
    repeat' split
    all_goals rfl

/-- Every pool is where some shift has led it. -/
def Crewed [DecidableEq α] (w : World T α) : Prop := ∀ p ∈ w.pools, Manned p

section
variable [DecidableEq α]

theorem Crewed.modify (h : Crewed w) {f : Pool α → Pool α} (keeps : ∀ p, Manned p → Manned (f p))
    (k : Nat) : ∀ p ∈ w.pools.modify k f, Manned p := by
  intro p member
  obtain ⟨i, found⟩ := List.mem_iff_getElem?.mp member
  rw [List.getElem?_modify] at found
  obtain ⟨p', here, rfl⟩ := Option.map_eq_some_iff.mp found
  have manned := h p' (List.mem_of_getElem? here)
  split
  · exact keeps p' manned
  · exact manned

theorem turned_crewed (h : Crewed w) (k : Nat) (t : Turn T α) : Crewed (w.turned k t) := by
  intro p member
  unfold turned at member
  cases offer : t.offer with
  | none =>
    simp only [offer] at member
    exact h p member
  | some made =>
    simp only [offer] at member
    exact h.modify (fun p manned => manned.offer k made.2) made.1 p member

theorem poolStep_crewed (h : Crewed w) {p : Nat} {s : Pool.Step}
    (possible : w.poolStep p s = some v) : Crewed v := by
  obtain ⟨pool, pool', effect, here, stepped, rfl⟩ := poolStep_worked possible
  have manned : Manned pool' := (h pool (List.mem_of_getElem? here)).step stepped
  unfold Crewed
  rw [(worked_still w p pool' effect).2]
  intro q member
  obtain old | rfl := List.mem_or_eq_of_mem_set member
  · exact h q old
  · exact manned

theorem callStep_crewed (h : Crewed w) {c : Nat} (possible : w.callStep c = some v) :
    Crewed v := by
  unfold callStep at possible
  split at possible
  · cases possible
  · next p _ =>
    split at possible
    · cases possible
    · split at possible
      · obtain rfl := Option.some.inj possible
        cases p.purpose <;> exact h
      · split at possible
        · cases possible
        · next abnormal _ =>
          obtain rfl := Option.some.inj possible
          cases abnormal <;> exact h

theorem obey_crewed (h : Crewed w) (c : Command T α) : Crewed (w.obey c) := by
  unfold Crewed
  obtain same | ⟨label, work, n, more⟩ | ⟨p, shut⟩ := obey_pools w c
  · rw [same]
    exact h
  · rw [more]
    intro q member
    obtain old | new := List.mem_append.mp member
    · exact h q old
    · obtain rfl := List.mem_singleton.mp new
      exact manned_start label work n
  · rw [shut]
    exact h.modify (fun _ _ => manned_closed rfl) p

theorem reachable_crewed {broker : T} (reach : Reachable broker w) : Crewed w := by
  induction reach with
  | start => intro p member; cases member
  | next _ move ih =>
    cases move with
    | command c => exact obey_crewed ih c
    | step s possible =>
      cases s with
      | loop k =>
        obtain ⟨l, t, -, -, rfl⟩ := loopStep_takes possible
        exact turned_crewed ih k t
      | pool p s => exact poolStep_crewed ih possible
      | call c => exact callStep_crewed ih possible
      | wait ms =>
        obtain rfl := Option.some.inj possible
        exact ih

/-- A pool that works for queues takes on no more than it has workers for: each of its slots is
free, or with a value that was accepted, or with a callback that is running. -/
theorem pool_slots {broker : T} (reach : Reachable broker w) {p : Pool α}
    (member : p ∈ w.pools) (unclosed : p.closed = false) (willing : ∀ v, p.work v ≠ .fails) :
    p.free + p.accepted.length + p.running.length = p.size := by
  obtain ⟨n, s, run, rfl⟩ := reachable_crewed reach p member unclosed willing
  obtain ⟨size, slots, -⟩ := run.slots willing
  exact slots.trans size.symm

end

end World

end Courier.Queue
