import Courier.Proofs.Queue.Course
import Courier.Proofs.Queue.Spared

/-!
# The transcript of a loop

What a loop and its subscriber say, turn by turn, told apart from all else that
the journal of a run holds:

* `transcript`: the notes of each turn that a loop takes in a run;
* `attempt_turn`: an attempt is a turn of the loop, or spares it.
-/

namespace Courier.Queue.World

open Broker (Ledger Transport)

variable {α : Type}

/-- The notes of `v` that are not in `w` yet, the first one first. -/
def added (w v : World Ledger α) : List (Note α) :=
  ((v.journal.take (v.journal.length - w.journal.length)).map (·.2)).reverse

theorem added_turned (w : World Ledger α) (k : Nat) (t : Turn Ledger α) :
    w.added (w.turned k t) = t.notes := by
  have journal : (w.turned k t).journal = (t.notes.map (w.now, ·)).reverse ++ w.journal := rfl
  have count : ((t.notes.map (w.now, ·)).reverse ++ w.journal).length - w.journal.length =
      (t.notes.map (w.now, ·)).reverse.length := by
    rw [List.length_append, Nat.add_sub_cancel]
  rw [added, journal, count, List.take_left, List.map_reverse, List.reverse_reverse]
  simp [List.map_map, Function.comp_def]

section
variable [DecidableEq α]

def turnNotes (w : World Ledger α) (k : Nat) : Attempt Ledger α → List (List (Note α))
  | .step (.loop j) =>
    if j = k then
      match w.loopStep k with
      | some v => [w.added v]
      | none => []
    else []
  | _ => []

/-- The notes of loop `k`, turn by turn, while some attempts are made. -/
def transcript (w : World Ledger α) (k : Nat) : List (Attempt Ledger α) → List (List (Note α))
  | [] => []
  | a :: attempts => w.turnNotes k a ++ (w.attempt a).transcript k attempts

theorem transcript_concat (w : World Ledger α) (k : Nat) (attempts : List (Attempt Ledger α))
    (a : Attempt Ledger α) :
    w.transcript k (attempts ++ [a]) =
      w.transcript k attempts ++ (w.after attempts).turnNotes k a := by
  induction attempts generalizing w with
  | nil => simp [transcript, after]
  | cons b attempts ih =>
    rw [List.cons_append, transcript, ih, transcript, List.append_assoc]
    rfl

/-- An attempt is a turn of a loop, with notes in its transcript, or the loop is spared. -/
theorem attempt_turn (w : World Ledger α) (k : Nat) (a : Attempt Ledger α) :
    (∃ l t, w.loops[k]? = some l ∧ l.Takes k w.now w.broker t ∧ w.attempt a = w.turned k t ∧
        w.turnNotes k a = [t.notes]) ∨
      (w.turnNotes k a = [] ∧ Spared k w (w.attempt a)) := by
  cases a with
  | command c => exact .inr ⟨rfl, obey_spared w k c⟩
  | step s =>
    cases possible : w.step s with
    | none =>
      refine .inr ⟨?_, by simpa [attempt, possible] using Spared.refl k w⟩
      cases s with
      | loop j =>
        have none : w.loopStep j = none := possible
        by_cases mine : j = k
        · subst mine
          simp [turnNotes, none]
        · exact if_neg mine
      | pool | call | wait => rfl
    | some v =>
      have eq : w.attempt (.step s) = v := by simp [attempt, possible]
      rw [eq]
      obtain ⟨l, t, rfl, here, takes, rfl⟩ | ⟨other, spared⟩ := step_turn possible k
      · have taken : w.loopStep k = some (w.turned k t) := possible
        exact .inl ⟨l, t, here, takes, rfl, by simp [turnNotes, taken, added_turned]⟩
      · refine .inr ⟨?_, spared⟩
        cases s with
        | loop j => exact if_neg (mt (congrArg Step.loop) other)
        | pool | call | wait => rfl

/-- The acts of a loop are those in its transcript. -/
theorem acts_after (w : World Ledger α) (k : Nat) (attempts : List (Attempt Ledger α)) :
    (w.after attempts).acts k =
      w.acts k ++ (w.transcript k attempts).flatten.filterMap (·.actOf k) := by
  induction attempts using List.reverseRecOn with
  | nil => simp [after, transcript]
  | append_singleton attempts a ih =>
    rw [after_concat, transcript_concat]
    obtain ⟨l, t, -, -, eq, notes⟩ | ⟨none, spared⟩ := attempt_turn (w.after attempts) k a
    · rw [eq, notes, acts_turned, ih]
      simp
    · rw [spared.acts, none, ih, List.append_nil]

end

end Courier.Queue.World
