import Courier.Proofs.Queue.Commits
import Courier.Proofs.Queue.Journal

/-!
# What a run has for one topic and one group

Of all that is attempted in a run, little concerns a given topic and a given group:

* `own`: their loops, which are numbered among themselves;
* `Matter`: what concerns them, whatever other loops, queues and pools there are;
* `matter`: what an attempt is to them, if it is anything;
* `traffic`: what they have of a run.
-/

namespace Courier.Queue

open Broker (Ledger)

variable {α : Type}

/-- What a run has for a topic and a group. Their loops are numbered among themselves. -/
inductive Matter (α : Type) where
  | written (r : Record)
  | joined (subscriber : Subscriber α)
  /-- A loop takes a turn. To look and to find nothing is none. -/
  | turn (i : Nat)
  | answered (i : Nat) (accept : Bool)
  | cancelled (those : List Nat)

def Matter.ofCancelled : List Nat → Option (Matter α)
  | [] => none
  | those => some (.cancelled those)

instance (l : ReadLoop Ledger α) (topic : Topic) (group : String) :
    Decidable (l.Serves topic group) :=
  inferInstanceAs (Decidable (_ ∧ _))

namespace World

/-- The loops of a topic and a group. -/
def own (w : World Ledger α) (topic : Topic) (group : String) : List Nat :=
  (List.range w.loops.length).filter fun k => w.loops[k]?.any (·.Serves topic group)

/-- The number of a loop among those of its topic and its group. -/
def place (w : World Ledger α) (topic : Topic) (group : String) (k : Nat) : Option Nat :=
  (w.own topic group).findIdx? (· == k)

section
variable {w v : World Ledger α} {topic : Topic} {group : String} {i k : Nat}

theorem mem_own : k ∈ w.own topic group ↔ ∃ l, w.loops[k]? = some l ∧ l.Serves topic group := by
  simp only [own, List.mem_filter, List.mem_range, Option.any_eq_true, decide_eq_true_eq]
  constructor
  · rintro ⟨-, l, here, serves⟩
    exact ⟨l, here, serves⟩
  · rintro ⟨l, here, serves⟩
    exact ⟨(List.getElem?_eq_some_iff.mp here).1, l, here, serves⟩

theorem nodup_own (w : World Ledger α) (topic : Topic) (group : String) :
    (w.own topic group).Nodup :=
  List.nodup_range.filter _

theorem lt_of_own (mine : k ∈ w.own topic group) : k < w.loops.length := by
  obtain ⟨l, here, -⟩ := mem_own.mp mine
  exact (List.getElem?_eq_some_iff.mp here).1

theorem own_inj {j : Nat} (h : (w.own topic group)[i]? = some k)
    (h' : (w.own topic group)[j]? = some k) : i = j :=
  (List.getElem?_inj (List.getElem?_eq_some_iff.mp h).1 (nodup_own w topic group)).mp
    (h.trans h'.symm)

theorem own_congr
    (same : v.loops.map (fun l => (l.topic, l.group)) = w.loops.map fun l => (l.topic, l.group)) :
    v.own topic group = w.own topic group := by
  have served (u : World Ledger α) : u.own topic group =
      (List.range (u.loops.map fun l => (l.topic, l.group)).length).filter fun k =>
        (u.loops.map fun l => (l.topic, l.group))[k]?.any fun s => s.1 = topic ∧ s.2 = group := by
    rw [own, List.length_map]
    refine List.filter_congr fun k _ => ?_
    rw [List.getElem?_map, Option.any_map]
    rfl
  rw [served, served, same]

theorem own_kept (kept : KeptAll w.loops v.loops) : v.own topic group = w.own topic group :=
  own_congr (kept.map_eq fun _ _ h => by rw [h.topic, h.group])

theorem own_concat {l : ReadLoop Ledger α} (loops : v.loops = w.loops ++ [l]) :
    v.own topic group =
      w.own topic group ++ if l.Serves topic group then [w.loops.length] else [] := by
  have old : ∀ k ∈ List.range w.loops.length, (w.loops ++ [l])[k]? = w.loops[k]? := by
    intro k member
    exact List.getElem?_append_left (List.mem_range.mp member)
  rw [own, loops, List.length_append, List.length_singleton, List.range_succ, List.filter_append,
    List.filter_congr fun k member => by rw [old k member], own, List.filter_singleton]
  by_cases serves : l.Serves topic group <;> simp [serves]

theorem place_eq_some : w.place topic group k = some i ↔ (w.own topic group)[i]? = some k := by
  unfold place
  rw [List.findIdx?_eq_some_iff_getElem, List.getElem?_eq_some_iff]
  simp only [beq_iff_eq]
  constructor
  · rintro ⟨bound, found, -⟩
    exact ⟨bound, found⟩
  · rintro ⟨bound, found⟩
    refine ⟨bound, found, ?_⟩
    intro j before again
    have found := (List.getElem?_eq_getElem bound).trans (congrArg some found)
    have again := (List.getElem?_eq_getElem (Nat.lt_trans before bound)).trans (congrArg some again)
    exact absurd (own_inj again found) (Nat.ne_of_lt before)

theorem place_eq_none : w.place topic group k = none ↔ k ∉ w.own topic group := by
  unfold place
  rw [List.findIdx?_eq_none_iff]
  constructor
  · intro none member
    simpa using none k member
  · intro foreign j member
    simp only [beq_eq_false_iff_ne]
    rintro rfl
    exact foreign member

end

/-- Whether loop `k` has a step, and does not only look and find nothing. -/
def fares (w : World Ledger α) (k : Nat) : Bool :=
  match w.loopStep k with
  | none => false
  | some v => v.loops[k]?.all fun l => !(l.phase matches .parked)

def posted (w : World Ledger α) (topic : Topic) (q : Nat) (t : Topic) (payload : Payload) :
    Option Record :=
  if t = topic ∧ (w.publish q t payload).1.toOption.isSome then (payload.toRecord t).toOption
  else none

/-- Those of the loops of a topic and a group that are cancelled between `w` and `v`. -/
def cancelledBy (w v : World Ledger α) (topic : Topic) (group : String) : List Nat :=
  (List.range (w.own topic group).length).filter fun i =>
    (w.own topic group)[i]?.any fun k =>
      !w.loops[k]?.any (·.cancelled) && v.loops[k]?.any (·.cancelled)

def poolEffect [DecidableEq α] (w : World Ledger α) (p : Nat) (s : Pool.Step) :
    Option (Pool.Effect α) :=
  (w.pools[p]?.bind fun pool => pool.step w.now w.released s).map (·.2)

/-- What an attempt is to a topic and a group, if it is anything to them. -/
def matter [DecidableEq α] (w : World Ledger α) (topic : Topic) (group : String) :
    Attempt Ledger α → Option (Matter α)
  | .step (.loop k) => if w.fares k then (w.place topic group k).map .turn else none
  | .step (.pool p s) =>
    match w.poolEffect p s with
    | some (.accepted k) => (w.place topic group k).map (.answered · true)
    | some (.refused k) => (w.place topic group k).map (.answered · false)
    | _ => none
  | .step _ => none
  | .command (.publish q t payload) => (w.posted topic q t payload).map .written
  | .command (.publishJson q t (.ok json)) =>
    (w.posted topic q t (.text json.compact)).map .written
  | .command (.subscribe q t g label s) =>
    if t = topic ∧ g = group ∧ (w.subscribe q t g label s).1.toOption.isSome then some (.joined s)
    else none
  | .command c => Matter.ofCancelled (w.cancelledBy (w.obey c) topic group)

/-- What a run has for a topic and a group, each with its time. -/
def traffic [DecidableEq α] (topic : Topic) (group : String) :
    World Ledger α → List (Attempt Ledger α) → List (Nat × Matter α)
  | _, [] => []
  | w, a :: rest =>
    (w.matter topic group a).toList.map (w.now, ·) ++ traffic topic group (w.attempt a) rest

end World

end Courier.Queue
