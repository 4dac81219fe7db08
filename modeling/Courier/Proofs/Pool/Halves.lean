import Courier.Pool
import Mathlib.Data.List.Basic

/-!
# A pool in small steps

To send a value is to get a slot first and to enter the channel then, and to
finish is to complete first and to give the slot back then. Others may come in
between:

* `grant` and `enter`, `complete` and `release`: the halves;
* `accept_eq`, `finish_eq`: a step is its two halves with nothing in between;
* `Staffed`: in a pool whose work never fails and that is not closed every
  worker is there.
-/

namespace Courier

def Worker.value {α : Type} : Worker α → Option α
  | .busy value _ => some value
  | _ => none

namespace Pool

open scoped List

variable {α : Type}

def running (p : Pool α) : List α := p.workers.filterMap Worker.value

/-- The first half of an acceptance: the first of those who wait gets a slot. -/
def grant (p : Pool α) : Option ((Nat × α) × Pool α) :=
  match p.offers with
  | [] => none
  | offer :: rest =>
    if p.closed || !p.isAlive || p.free = 0 then none
    else some (offer, { p with offers := rest, free := p.free - 1 })

/-- The second half: the value enters the channel, if there is room. The channel has as many
places as there are workers. -/
def enter (p : Pool α) (value : α) : Option (Pool α) :=
  if p.accepted.length < p.size then some { p with accepted := p.accepted ++ [value] } else none

/-- The first half of an end: the callback of a busy worker has completed. -/
def complete (p : Pool α) (i : Nat) : Option (α × Pool α) :=
  match p.workers[i]? with
  | some (.busy value _) => some (value, p.setWorker i .idle)
  | _ => none

/-- The second half: a slot is given back. -/
def release (p : Pool α) : Pool α := { p with free := p.free + 1 }

/-- Every worker waits or works. -/
structure Staffed (p : Pool α) : Prop where
  unclosed : p.closed = false
  willing : ∀ v, p.work v ≠ .fails
  nonempty : p.workers ≠ []
  alive : ∀ w ∈ p.workers, w.isAlive = true

variable {p : Pool α}

theorem Staffed.isAlive (h : p.Staffed) : p.isAlive = true := by
  obtain ⟨w, rest, eq⟩ := List.exists_cons_of_ne_nil h.nonempty
  have first : w ∈ p.workers := eq ▸ List.mem_cons_self
  exact List.any_eq_true.mpr ⟨w, first, h.alive w first⟩

theorem setWorker_workers (p : Pool α) (i : Nat) (worker : Worker α) :
    (p.setWorker i worker).workers = p.workers.set i worker := by
  unfold setWorker
  simp only
  split <;> rfl

/-- While a worker is there, what was accepted stays when one is set. -/
theorem setWorker_eq {i : Nat} {w : Worker α} (here : i < p.workers.length)
    (alive : w.isAlive = true) : p.setWorker i w = { p with workers := p.workers.set i w } := by
  have member : w ∈ p.workers.set i w := List.mem_set here w
  have stays : ({ p with workers := p.workers.set i w } : Pool α).isAlive = true :=
    List.any_eq_true.mpr ⟨w, member, alive⟩
  exact if_pos stays

/-- A worker that comes for another brings its value and takes the other's away. -/
theorem running_set {i : Nat} {a b : Worker α} (here : p.workers[i]? = some a) :
    ((p.workers.set i b).filterMap Worker.value ++ a.value.toList).Perm
      (p.running ++ b.value.toList) := by
  obtain ⟨bound, worker⟩ := List.getElem?_eq_some_iff.mp here
  obtain ⟨before, after, old, -, new⟩ : ∃ before after,
      p.workers = before ++ p.workers[i] :: after ∧ before.length = i ∧
        p.workers.set i b = before ++ b :: after := List.exists_of_set bound
  rw [worker] at old
  have split (w : Worker α) : (before ++ w :: after).filterMap Worker.value =
      before.filterMap Worker.value ++ (w.value.toList ++ after.filterMap Worker.value) := by
    rw [List.filterMap_append]
    cases w <;> rfl
  rw [running, new, old, split, split, List.append_assoc, List.append_assoc, List.append_assoc,
    List.append_assoc]
  apply List.Perm.append_left
  calc b.value.toList ++ (after.filterMap Worker.value ++ a.value.toList)
      _ ~ (after.filterMap Worker.value ++ a.value.toList) ++ b.value.toList :=
        List.perm_append_comm
      _ ~ (a.value.toList ++ after.filterMap Worker.value) ++ b.value.toList :=
        List.perm_append_comm.append_right _
      _ = a.value.toList ++ (after.filterMap Worker.value ++ b.value.toList) :=
        List.append_assoc ..

/-- An offer is accepted when it gets a slot and enters at once. There is room for it, for a slot
that is free is not taken by anything in the channel. -/
theorem accept_eq (h : p.Staffed) (room : p.free + p.accepted.length ≤ p.size) :
    p.accept = p.grant.bind fun (offer, q) =>
      (q.enter offer.2).map fun q => (q, .accepted offer.1) := by
  unfold accept grant
  cases p.offers with
  | nil => rfl
  | cons offer rest =>
    obtain ⟨ticket, value⟩ := offer
    by_cases none : p.free = 0
    · simp [h.unclosed, h.isAlive, none]
    · have room : p.accepted.length < p.workers.length := by
        unfold size at room
        omega
      simp [h.unclosed, h.isAlive, none, enter, size, room]

theorem take_effect {now i : Nat} {q : Pool α} {effect : Effect α}
    (h : p.take now i = some (q, effect)) : ∃ value, effect = .started value := by
  unfold take at h
  split at h
  · obtain ⟨-, rfl⟩ := Prod.mk.inj (Option.some.inj h)
    exact ⟨_, rfl⟩
  · cases h

theorem release_idle {i : Nat} (here : i < p.workers.length) :
    ({ p with free := p.free + 1 } : Pool α).setWorker i .idle = (p.setWorker i .idle).release := by
  rw [setWorker_eq here rfl, setWorker_eq (p := { p with free := p.free + 1 }) here rfl]
  rfl

/-- An end is a completion whose slot is given back at once. -/
theorem finish_eq [DecidableEq α] {now : Nat} {released : List α} {i : Nat} {q : Pool α}
    {effect : Effect α} (finished : p.finish now released i = some (q, effect)) :
    ∃ value r, p.complete i = some (value, r) ∧ q = r.release ∧
      ∃ freed, effect = .finished value freed := by
  unfold finish at finished
  split at finished
  · next value time busy =>
    have bound := (List.getElem?_eq_some_iff.mp busy).1
    split at finished
    · obtain ⟨rfl, rfl⟩ := Prod.mk.inj (Option.some.inj finished)
      exact ⟨value, p.setWorker i .idle, by simp [complete, busy], release_idle bound, false, rfl⟩
    · cases finished
  · next value busy =>
    have bound := (List.getElem?_eq_some_iff.mp busy).1
    split at finished
    · obtain ⟨rfl, rfl⟩ := Prod.mk.inj (Option.some.inj finished)
      exact ⟨value, p.setWorker i .idle, by simp [complete, busy], release_idle bound, true, rfl⟩
    · cases finished
  · cases finished

section
variable {q : Pool α} {i : Nat}

theorem Staffed.same (h : p.Staffed) (closed : q.closed = p.closed) (work : q.work = p.work)
    (workers : q.workers = p.workers) : q.Staffed := by
  constructor
  case unclosed => exact closed.trans h.unclosed
  case willing => exact work ▸ h.willing
  case nonempty => exact workers ▸ h.nonempty
  case alive => exact workers ▸ h.alive

theorem Staffed.set (h : p.Staffed) {w : Worker α} (alive : w.isAlive = true) (i : Nat) :
    ({ p with workers := p.workers.set i w } : Pool α).Staffed := by
  constructor
  case unclosed => exact h.unclosed
  case willing => exact h.willing
  case nonempty =>
    have many := List.length_pos_iff.mpr h.nonempty
    exact List.length_pos_iff.mp (by simpa using many)
  case alive =>
    intro w' member
    obtain old | rfl := List.mem_or_eq_of_mem_set member
    · exact h.alive w' old
    · exact alive

theorem grant_some {offer : Nat × α} (h : p.grant = some (offer, q)) :
    ∃ rest, p.offers = offer :: rest ∧ p.free ≠ 0 ∧
      q = { p with offers := rest, free := p.free - 1 } := by
  unfold grant at h
  split at h
  · cases h
  · next offer' rest offers =>
    split at h
    · cases h
    · next free =>
      obtain ⟨rfl, rfl⟩ := Prod.mk.inj (Option.some.inj h)
      simp only [Bool.or_eq_true, decide_eq_true_eq, not_or] at free
      exact ⟨rest, offers, free.2, rfl⟩

theorem Staffed.grant_isSome (h : p.Staffed) :
    p.grant.isSome ↔ p.offers ≠ [] ∧ p.free ≠ 0 := by
  unfold grant
  cases p.offers with
  | nil => simp
  | cons offer rest => by_cases none : p.free = 0 <;> simp [h.unclosed, h.isAlive, none]

theorem Staffed.accept_isSome (h : p.Staffed) :
    p.accept.isSome ↔ p.offers ≠ [] ∧ p.free ≠ 0 := by
  unfold accept
  cases p.offers with
  | nil => simp
  | cons offer rest => by_cases none : p.free = 0 <;> simp [h.unclosed, h.isAlive, none]

theorem enter_some {value : α} (h : p.enter value = some q) :
    q = { p with accepted := p.accepted ++ [value] } := by
  unfold enter at h
  split at h
  · exact (Option.some.inj h).symm
  · cases h

theorem Staffed.take_some {now : Nat} {value : α} (h : p.Staffed)
    (takes : p.take now i = some (q, .started value)) :
    ∃ rest workers, p.accepted = value :: rest ∧ q = { p with accepted := rest, workers } ∧
      q.size = p.size ∧ q.running ~ p.running ++ [value] ∧ q.Staffed := by
  unfold take at takes
  split at takes
  · next value' rest idle accepted =>
    have bound := (List.getElem?_eq_some_iff.mp idle).1
    obtain ⟨pool, effect⟩ := Prod.mk.inj (Option.some.inj takes)
    obtain rfl : value' = value := by simpa using effect
    obtain ⟨ending, rfl⟩ : ∃ ending,
        q = { p with accepted := rest, workers := p.workers.set i (.busy value' ending) } := by
      split at pool
      · next fails => exact absurd fails (h.willing value')
      · exact ⟨_, pool.symm.trans (setWorker_eq (p := { p with accepted := rest }) bound rfl)⟩
      · exact ⟨_, pool.symm.trans (setWorker_eq (p := { p with accepted := rest }) bound rfl)⟩
    have more := running_set (b := .busy value' ending) idle
    rw [show (Worker.idle : Worker α).value.toList = [] from rfl, List.append_nil] at more
    exact ⟨rest, _, accepted, rfl, List.length_set, more, (h.set rfl i).same rfl rfl rfl⟩
  · cases takes

theorem complete_busy {value : α} (h : p.complete i = some (value, q)) :
    ∃ ending, p.workers[i]? = some (.busy value ending) ∧ q = p.setWorker i .idle := by
  unfold complete at h
  split at h
  · next value' ending busy =>
    obtain ⟨rfl, rfl⟩ := Prod.mk.inj (Option.some.inj h)
    exact ⟨ending, busy, rfl⟩
  · cases h

theorem Staffed.complete_some {value : α} (h : p.Staffed)
    (completes : p.complete i = some (value, q)) :
    ∃ workers, q = { p with workers } ∧
      q.size = p.size ∧ q.running ++ [value] ~ p.running ∧ q.Staffed := by
  obtain ⟨ending, busy, rfl⟩ := complete_busy completes
  have bound := (List.getElem?_eq_some_iff.mp busy).1
  have less := running_set (b := .idle) busy
  rw [show (Worker.idle : Worker α).value.toList = [] from rfl, List.append_nil] at less
  rw [setWorker_eq bound rfl]
  exact ⟨_, rfl, List.length_set, less, h.set rfl i⟩

end

end Pool

end Courier
