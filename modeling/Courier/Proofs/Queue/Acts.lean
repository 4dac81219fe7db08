import Courier.Queue.Step
import Mathlib.Data.List.Induction
import Mathlib.Logic.Relation

/-! What each loop has done so far, read off the journal, and the worlds that come later. -/
namespace Courier.Queue

variable {T α : Type} [Broker.Transport T]

def Note.actOf (k : Nat) : Note α → Option Act
  | .act j _ a => if j = k then some a else none
  | _ => none

@[simp] theorem actOf_act (k j : Nat) (topic : String) (a : Act) :
    (Note.act j topic a : Note α).actOf k = if j = k then some a else none := rfl

@[simp] theorem actOf_line (k : Nat) (l : Log.Line) : (Note.line l : Note α).actOf k = none := rfl

/-- What an utterance of a loop's subscriber is noted as. -/
def noteOf (label : String) : Utterance α → Note α
  | .event e => .heard label e
  | .line l => .line l

@[simp] theorem actOf_noteOf (k : Nat) (label : String) (u : Utterance α) :
    (noteOf label u).actOf k = none := by
  cases u <;> rfl

namespace World

/-- The acts of loop `k`, the first one first. -/
def acts (w : World T α) (k : Nat) : List Act :=
  (w.journal.filterMap fun (_, n) => n.actOf k).reverse

def jot (w : World T α) (notes : List (Note α)) : World T α :=
  { w with journal := (notes.map (w.now, ·)).reverse ++ w.journal }

theorem jot_nil (w : World T α) : w.jot [] = w := rfl

theorem note_jot (w : World T α) (n : Note α) (notes : List (Note α)) :
    (w.note n).jot notes = w.jot (n :: notes) := by
  simp [jot, note]

theorem jot_jot (w : World T α) (a b : List (Note α)) : (w.jot a).jot b = w.jot (a ++ b) := by
  simp [jot]

theorem utter_eq_note (w : World T α) (label : String) (u : Utterance α) :
    w.utter label u = w.note (noteOf label u) := by
  cases u <;> rfl

theorem foldl_utter (w : World T α) (label : String) (said : List (Utterance α)) :
    said.foldl (fun w u => w.utter label u) w = w.jot (said.map (noteOf label)) := by
  induction said generalizing w with
  | nil => rfl
  | cons u said ih => rw [List.foldl_cons, ih, utter_eq_note, note_jot, List.map_cons]

theorem acts_jot (w : World T α) (notes : List (Note α)) (k : Nat) :
    (w.jot notes).acts k = w.acts k ++ notes.filterMap (·.actOf k) := by
  rw [acts, jot, List.filterMap_append, List.reverse_append, List.filterMap_reverse,
    List.reverse_reverse, List.filterMap_map]
  rfl

theorem acts_note (w : World T α) (n : Note α) (k : Nat) :
    (w.note n).acts k = w.acts k ++ (n.actOf k).toList := by
  rw [← jot_nil (w.note n), note_jot, acts_jot]
  cases h : n.actOf k <;> simp [h]

theorem acts_note_of_none {w : World T α} {n : Note α} {k : Nat} (h : n.actOf k = none) :
    (w.note n).acts k = w.acts k := by
  rw [acts_note, h]
  exact List.append_nil _

/-- One world comes about from another by moves. -/
abbrev Leads [DecidableEq α] : World T α → World T α → Prop := Relation.ReflTransGen Move

theorem Reachable.leads [DecidableEq α] {broker : T} {v w : World T α}
    (h : Reachable broker w) (later : w.Leads v) : Reachable broker v := by
  induction later with
  | refl => exact h
  | tail _ move ih => exact ih.next move

/-- A step that is taken if it is possible, or a command. -/
inductive Attempt (T α : Type) [Broker.Transport T] where
  | step (s : Step)
  | command (c : Command T α)

variable [DecidableEq α]

def attempt (w : World T α) : Attempt T α → World T α
  | .step s => (w.step s).getD w
  | .command c => w.obey c

def after (w : World T α) (attempts : List (Attempt T α)) : World T α := attempts.foldl attempt w

theorem attempt_move (w : World T α) (a : Attempt T α) :
    w.attempt a = w ∨ Move w (w.attempt a) := by
  cases a with
  | command c => exact .inr (.command c)
  | step s =>
    cases h : w.step s with
    | none => exact .inl (by simp [attempt, h])
    | some v => exact .inr (by simpa [attempt, h] using Move.step s h)

theorem leads_attempt (w : World T α) (a : Attempt T α) : w.Leads (w.attempt a) := by
  obtain same | move := attempt_move w a
  · rw [same]
  · exact .single move

@[simp] theorem after_concat (w : World T α) (attempts : List (Attempt T α)) (a : Attempt T α) :
    w.after (attempts ++ [a]) = (w.after attempts).attempt a := by
  simp [after]

/-- The worlds that come later are those that some attempts end in. -/
theorem leads_iff_after {w v : World T α} : w.Leads v ↔ ∃ attempts, v = w.after attempts := by
  constructor
  · intro later
    induction later with
    | refl => exact ⟨[], rfl⟩
    | @tail u v _ move ih =>
      obtain ⟨attempts, rfl⟩ := ih
      obtain ⟨a, rfl⟩ : ∃ a, v = (w.after attempts).attempt a := by
        cases move with
        | step s possible =>
          have taken : (w.after attempts).attempt (.step s) = v := by
            simp [attempt, possible]
          exact ⟨.step s, taken.symm⟩
        | command c => exact ⟨.command c, rfl⟩
      exact ⟨attempts ++ [a], (after_concat w attempts a).symm⟩
  · rintro ⟨attempts, rfl⟩
    induction attempts using List.reverseRecOn with
    | nil => exact .refl
    | append_singleton attempts a ih =>
      rw [after_concat]
      exact ih.trans (leads_attempt (w.after attempts) a)

theorem reachable_after (broker : T) (attempts : List (Attempt T α)) :
    Reachable broker (after { broker } attempts) :=
  Reachable.leads .start (leads_iff_after.mpr ⟨attempts, rfl⟩)

end World

end Courier.Queue
