import Courier.Proofs.Queue.Decoding

/-!
# What the loop of a pooled subscriber says

A pooled subscriber leaves a value to its pool and answers as the pool does. When
the pool takes nothing on any more, every value comes back:

* `Rebuff`: what the loop says, turn by turn, once the pool is closed;
* `takes_rebuff`: every turn of the loop goes on with it;
* `Fates`: a message that can be decoded is given back, reported once and held
  back, and one that cannot be decoded is reported once and committed;
* `Rebuff.fates`: this holds of all that the loop says.
-/

namespace Courier.Queue

open Broker (Ledger)

variable {α : Type}

/-- How far a pooled subscriber is with a message. -/
inductive Stand where
  | waiting
  | holding
  | answered (accept : Bool)
  deriving DecidableEq

/-- The message that a loop has in hand, and how far its subscriber is with it. `holds` says whether
its value has a slot. -/
def ReadLoop.standing (l : ReadLoop Ledger α) (holds : Bool) : Option (Message × Stand) :=
  match l.phase with
  | .handling m (.answered accept _) => some (m, .answered accept)
  | .handling m .offered => some (m, if holds then .holding else .waiting)
  | _ => none

/-- An act of a loop that has no message in hand. -/
def Act.isAside : Act → Bool
  | .fetchFailed _ | .rested _ | .closed => true
  | _ => false

/-- Notes of a turn without a message. -/
def Aside (k : Nat) (notes : List (Note α)) : Prop :=
  ∀ a ∈ notes.filterMap (·.actOf k), a.isAside = true

/-- A message is handed over, and its value is left to the pool. -/
def leaving (k : Nat) (topic : String) (m : Message) (lines : List Log.Line) : List (Note α) :=
  .act k topic (.delivered m) :: lines.map .line

/-- The pool has given the value of a message back. -/
def returning (m : Message) : List (Note α) :=
  [.line (Subscriber.pooledError (some m) Subscriber.handoffRefused)]

/-- What a pooled subscriber lets out of a call that failed. -/
def complaining (m : Message) : Except Error Unit → List (Note α)
  | .ok () => []
  | .error e => [.line (Subscriber.pooledError (some m) e)]

def committing (k : Nat) (topic : String) (m : Message) (r : Except Error Unit) : List (Note α) :=
  .act k topic (.answered m true) :: .act k topic (.committed m r) :: complaining m r

def withholding (k : Nat) (topic : String) (m : Message) (r : Except Error Unit) (ms : Nat) :
    List (Note α) :=
  .act k topic (.answered m false) :: .act k topic (.withheld m r) ::
    (complaining m r ++ [.act k topic (.rested ms)])

/-- What the loop of a pooled subscriber says, turn by turn, once its pool is closed, and what it is
at; `start` is what it was at then. -/
inductive Rebuff (k : Nat) (topic : String) (decoder : Decoder α)
    (start : Option (Message × Stand)) :
    List (List (Note α)) → Option (Message × Stand) → Prop where
  | start : Rebuff k topic decoder start [] start
  | aside {said : List (List (Note α))} {notes : List (Note α)}
    (before : Rebuff k topic decoder start said none) (aside : Aside k notes) :
    Rebuff k topic decoder start (said ++ [notes]) none
  | leave {said : List (List (Note α))} {m : Message} {value : α}
    (before : Rebuff k topic decoder start said none)
    (decoded : decoder.decode m.payload = .ok value) {lines : List Log.Line}
    (debug : ∀ line ∈ lines, line.level = .debug) :
    Rebuff k topic decoder start (said ++ [leaving k topic m lines]) (some (m, .waiting))
  /-- A message that cannot be decoded is reported and accepted. -/
  | drop {said : List (List (Note α))} {m : Message} {e : Error}
    (before : Rebuff k topic decoder start said none)
    (undecoded : decoder.decode m.payload = .error e) {lines : List Log.Line}
    (debug : ∀ line ∈ lines, line.level = .debug) :
    Rebuff k topic decoder start
      (said ++ [handing k topic m lines (.line (Subscriber.pooledError (some m) e))])
      (some (m, .answered true))
  /-- What waited for a slot is given back. -/
  | refuse {said : List (List (Note α))} {m : Message}
    (before : Rebuff k topic decoder start said (some (m, .waiting))) :
    Rebuff k topic decoder start (said ++ [returning m]) (some (m, .answered false))
  /-- What had a slot before may still be taken. -/
  | enter {said : List (List (Note α))} {m : Message}
    (before : Rebuff k topic decoder start said (some (m, .holding))) :
    Rebuff k topic decoder start said (some (m, .answered true))
  | bounce {said : List (List (Note α))} {m : Message}
    (before : Rebuff k topic decoder start said (some (m, .holding))) :
    Rebuff k topic decoder start (said ++ [returning m]) (some (m, .answered false))
  | commit {said : List (List (Note α))} {m : Message}
    (before : Rebuff k topic decoder start said (some (m, .answered true)))
    (r : Except Error Unit) :
    Rebuff k topic decoder start (said ++ [committing k topic m r]) none
  | withhold {said : List (List (Note α))} {m : Message}
    (before : Rebuff k topic decoder start said (some (m, .answered false)))
    (r : Except Error Unit) (ms : Nat) :
    Rebuff k topic decoder start (said ++ [withholding k topic m r ms]) none

section
variable {k now : Nat} {topic : String} {decoder : Decoder α} {p : Nat}
  {start stand : Option (Message × Stand)} {said : List (List (Note α))} {m : Message}

@[simp] theorem acts_leaving (m : Message) (lines : List Log.Line) :
    (leaving k topic m lines : List (Note α)).filterMap (·.actOf k) = [.delivered m] := by
  simp [leaving, filterMap_lines lines _ (actOf_line (α := α) k)]

@[simp] theorem acts_returning (m : Message) :
    (returning m : List (Note α)).filterMap (·.actOf k) = [] := rfl

theorem acts_complaining (m : Message) (r : Except Error Unit) :
    (complaining m r : List (Note α)).filterMap (·.actOf k) = [] := by
  cases r <;> rfl

@[simp] theorem acts_committing (m : Message) (r : Except Error Unit) :
    (committing k topic m r : List (Note α)).filterMap (·.actOf k) =
      [.answered m true, .committed m r] := by
  simp [committing, acts_complaining]

@[simp] theorem acts_withholding (m : Message) (r : Except Error Unit) (ms : Nat) :
    (withholding k topic m r ms : List (Note α)).filterMap (·.actOf k) =
      [.answered m false, .withheld m r, .rested ms] := by
  simp [withholding, acts_complaining]

theorem toldOf_pooled {l : ReadLoop Ledger α} (pooled : l.subscriber = .pooled decoder p)
    (m : Message) (r : Except Error Unit) : l.toldOf m r = complaining m r := by
  cases r with
  | ok => rfl
  | error e => simp [ReadLoop.toldOf, complaining, pooled, Subscriber.report, noteOf]

/-- Every turn of a pooled subscriber's loop goes on as it does when the pool is closed. -/
theorem takes_rebuff {b : Ledger} {l : ReadLoop Ledger α} {t : Turn Ledger α} {holds : Bool}
    (pooled : l.subscriber = .pooled decoder p) (takes : l.Takes k now b t)
    (rebuff : Rebuff k l.topic.name decoder start said (l.standing holds)) :
    Rebuff k l.topic.name decoder start (said ++ [t.notes]) (t.loop.standing false) := by
  -- A loop with nothing in hand has nothing outstanding.
  have free (phase : l.phase = .ready ∨ l.phase = .parked ∨ ∃ due, l.phase = .resting due) :
      Rebuff k l.topic.name decoder start said none := by
    have none : l.standing holds = none := by
      unfold ReadLoop.standing
      obtain phase | phase | ⟨due, phase⟩ := phase <;> rw [phase]
    rwa [none] at rebuff
  cases takes with
  | stop phase =>
    refine (free (phase.imp_right .inl)).aside ?_
    simp [Aside, ReadLoop.streamNote, Act.isAside]
  | park phase => exact (free (.inl phase)).aside (by simp [Aside])
  | lose phase =>
    refine (free (.inl phase)).aside ?_
    simp [Aside, ReadLoop.streamNote, Act.isAside]
  | falter phase =>
    refine (free (.inl phase)).aside ?_
    simp [Aside, Act.isAside]
  | leave phase =>
    refine (free (.inr (.inr ⟨_, phase⟩))).aside ?_
    simp [Aside, Act.isAside]
  | rise phase => exact (free (.inr (.inr ⟨_, phase⟩))).aside (by simp [Aside])
  | @deliver _ _ m _ _ _ phase _ _ received =>
    obtain ⟨lines, debug, lines_eq⟩ := receivedNotes_lines l m
    simp only [pooled, Subscriber.receive] at received
    rw [lines_eq]
    cases decoded : decoder.decode m.payload with
    | error e =>
      simp only [decoded, Prod.mk.injEq] at received
      obtain ⟨rfl, rfl, rfl⟩ := received
      exact (free (.inl phase)).drop decoded debug
    | ok value =>
      simp only [decoded, Prod.mk.injEq] at received
      obtain ⟨rfl, rfl, rfl⟩ := received
      rw [List.map_nil, List.append_nil]
      exact (free (.inl phase)).leave decoded debug
  | @accept _ _ m due r phase =>
    have held : l.standing holds = some (m, .answered true) := by
      unfold ReadLoop.standing
      rw [phase]
    rw [held] at rebuff
    rw [toldOf_pooled pooled]
    exact rebuff.commit r
  | @reject _ _ m due r phase =>
    have held : l.standing holds = some (m, .answered false) := by
      unfold ReadLoop.standing
      rw [phase]
    rw [held] at rebuff
    rw [toldOf_pooled pooled]
    exact rebuff.withhold r _
  | fail phase =>
    have none : l.standing holds = none := by
      unfold ReadLoop.standing
      rw [phase]
    rw [none] at rebuff
    exact rebuff.aside (by simp [Aside])

/-- From turn `i` on, the value of a message is given back, which is reported once, and the message
is held back, as far as the loop has come. -/
def GivenBack (k : Nat) (topic : String) (said : List (List (Note α)))
    (stand : Option (Message × Stand)) (i : Nat) (m : Message) : Prop :=
  (i = said.length ∧ stand = some (m, .waiting)) ∨
    (said[i]? = some (returning m) ∧
      ((i + 1 = said.length ∧ stand = some (m, .answered false)) ∨
        ∃ r ms, said[i + 1]? = some (withholding k topic m r ms)))

/-- From turn `i` on, a message is committed, as far as the loop has come. -/
def PassedOn (k : Nat) (topic : String) (said : List (List (Note α)))
    (stand : Option (Message × Stand)) (i : Nat) (m : Message) : Prop :=
  (i = said.length ∧ stand = some (m, .answered true)) ∨
    ∃ r, said[i]? = some (committing k topic m r)

variable {i : Nat} {notes : List (Note α)} {stand' : Option (Message × Stand)}

theorem GivenBack.snoc (h : GivenBack k topic said stand i m)
    (waited : stand = some (m, .waiting) → notes = returning m ∧ stand' = some (m, .answered false))
    (refused : stand = some (m, .answered false) → ∃ r ms, notes = withholding k topic m r ms) :
    GivenBack k topic (said ++ [notes]) stand' i m := by
  obtain ⟨rfl, waits⟩ | ⟨back, rest⟩ := h
  · obtain ⟨rfl, answered⟩ := waited waits
    exact .inr ⟨List.getElem?_concat_length, .inl ⟨by simp, answered⟩⟩
  · have bound := (List.getElem?_eq_some_iff.mp back).1
    refine .inr ⟨by rw [List.getElem?_append_left bound, back], .inr ?_⟩
    obtain ⟨last, answered⟩ | ⟨r, ms, held⟩ := rest
    · obtain ⟨r, ms, rfl⟩ := refused answered
      exact ⟨r, ms, by rw [last, List.getElem?_concat_length]⟩
    · have bound := (List.getElem?_eq_some_iff.mp held).1
      exact ⟨r, ms, by rw [List.getElem?_append_left bound, held]⟩

theorem PassedOn.snoc (h : PassedOn k topic said stand i m)
    (accepted : stand = some (m, .answered true) → ∃ r, notes = committing k topic m r) :
    PassedOn k topic (said ++ [notes]) stand' i m := by
  obtain ⟨rfl, answered⟩ | ⟨r, passed⟩ := h
  · obtain ⟨r, rfl⟩ := accepted answered
    exact .inr ⟨r, List.getElem?_concat_length⟩
  · have bound := (List.getElem?_eq_some_iff.mp passed).1
    exact .inr ⟨r, by rw [List.getElem?_append_left bound, passed]⟩

/-- What becomes of the messages that are handed over, and of the one that was waiting. -/
structure Fates (k : Nat) (topic : String) (decoder : Decoder α)
    (start : Option (Message × Stand)) (said : List (List (Note α)))
    (stand : Option (Message × Stand)) : Prop where
  waiting : ∀ m, start = some (m, .waiting) → GivenBack k topic said stand 0 m
  handed : ∀ i notes m v, said[i]? = some notes → .act k topic (.delivered m) ∈ notes →
    decoder.decode m.payload = .ok v →
    (∃ lines : List Log.Line, (∀ line ∈ lines, line.level = .debug) ∧
      notes = leaving k topic m lines) ∧ GivenBack k topic said stand (i + 1) m
  dropped : ∀ i notes m e, said[i]? = some notes → .act k topic (.delivered m) ∈ notes →
    decoder.decode m.payload = .error e →
    (∃ lines : List Log.Line, (∀ line ∈ lines, line.level = .debug) ∧
      notes = handing k topic m lines (.line (Subscriber.pooledError (some m) e))) ∧
      PassedOn k topic said stand (i + 1) m
  /-- Nothing is committed but what cannot be decoded and what the pool had in hand already. -/
  committed : ∀ m r, .committed m r ∈ actsIn k said → decoder.value m = none ∨
    start = some (m, .holding) ∨ start = some (m, .answered true)

/-- A turn goes on with what was in hand before it, and may hand over one message. -/
theorem Fates.snoc (h : Fates k topic decoder start said stand)
    (waited : ∀ m, stand = some (m, .waiting) →
      notes = returning m ∧ stand' = some (m, .answered false))
    (refused : ∀ m, stand = some (m, .answered false) →
      ∃ r ms, notes = withholding k topic m r ms)
    (accepted : ∀ m, stand = some (m, .answered true) → ∃ r, notes = committing k topic m r)
    (handed : ∀ m v, .act k topic (.delivered m) ∈ notes → decoder.decode m.payload = .ok v →
      (∃ lines : List Log.Line, (∀ line ∈ lines, line.level = .debug) ∧
        notes = leaving k topic m lines) ∧ stand' = some (m, .waiting))
    (dropped : ∀ m e, .act k topic (.delivered m) ∈ notes → decoder.decode m.payload = .error e →
      (∃ lines : List Log.Line, (∀ line ∈ lines, line.level = .debug) ∧
        notes = handing k topic m lines (.line (Subscriber.pooledError (some m) e))) ∧
        stand' = some (m, .answered true))
    (committed : ∀ m r, .committed m r ∈ notes.filterMap (·.actOf k) → decoder.value m = none ∨
      start = some (m, .holding) ∨ start = some (m, .answered true)) :
    Fates k topic decoder start (said ++ [notes]) stand' := by
  constructor
  case waiting =>
    intro m was
    exact (h.waiting m was).snoc (waited m) (refused m)
  case handed =>
    intro i notes' m v turn given decoded
    obtain old | ⟨rfl, rfl⟩ := getElem?_concat_some turn
    · obtain ⟨shape, back⟩ := h.handed i notes' m v old given decoded
      exact ⟨shape, back.snoc (waited m) (refused m)⟩
    · obtain ⟨shape, now⟩ := handed m v given decoded
      exact ⟨shape, .inl ⟨by simp, now⟩⟩
  case dropped =>
    intro i notes' m e turn given undecoded
    obtain old | ⟨rfl, rfl⟩ := getElem?_concat_some turn
    · obtain ⟨shape, on⟩ := h.dropped i notes' m e old given undecoded
      exact ⟨shape, on.snoc (accepted m)⟩
    · obtain ⟨shape, now⟩ := dropped m e given undecoded
      exact ⟨shape, .inl ⟨by simp, now⟩⟩
  case committed =>
    intro m r done
    rw [actsIn_concat] at done
    obtain old | new := List.mem_append.mp done
    · exact h.committed m r old
    · exact committed m r new

/-- A turn that hands over nothing. -/
theorem Fates.plain (h : Fates k topic decoder start said stand)
    (undelivered : ∀ m, .act k topic (.delivered m) ∉ notes)
    (waited : ∀ m, stand = some (m, .waiting) →
      notes = returning m ∧ stand' = some (m, .answered false))
    (refused : ∀ m, stand = some (m, .answered false) →
      ∃ r ms, notes = withholding k topic m r ms)
    (accepted : ∀ m, stand = some (m, .answered true) → ∃ r, notes = committing k topic m r)
    (committed : ∀ m r, .committed m r ∈ notes.filterMap (·.actOf k) → decoder.value m = none ∨
      start = some (m, .holding) ∨ start = some (m, .answered true)) :
    Fates k topic decoder start (said ++ [notes]) stand' :=
  h.snoc waited refused accepted (fun m _ given => absurd given (undelivered m))
    (fun m _ given => absurd given (undelivered m)) committed

/-- Nothing is said when a value that had a slot is taken. -/
theorem Fates.enter {m : Message}
    (h : Fates k topic decoder start said (some (m, .holding))) :
    Fates k topic decoder start said (some (m, .answered true)) := by
  have back {i : Nat} {m' : Message}
      (given : GivenBack k topic said (some (m, .holding)) i m') :
      GivenBack k topic said (some (m, .answered true)) i m' := by
    obtain ⟨-, waits⟩ | ⟨back, ⟨-, refused⟩ | held⟩ := given
    · simp at waits
    · simp at refused
    · exact .inr ⟨back, .inr held⟩
  have on {i : Nat} {m' : Message} (passed : PassedOn k topic said (some (m, .holding)) i m') :
      PassedOn k topic said (some (m, .answered true)) i m' := by
    obtain ⟨-, answered⟩ | passed := passed
    · simp at answered
    · exact .inr passed
  constructor
  case waiting => exact fun m' was => back (h.waiting m' was)
  case handed =>
    intro i notes m' v turn given decoded
    obtain ⟨shape, given⟩ := h.handed i notes m' v turn given decoded
    exact ⟨shape, back given⟩
  case dropped =>
    intro i notes m' e turn given undecoded
    obtain ⟨shape, passed⟩ := h.dropped i notes m' e turn given undecoded
    exact ⟨shape, on passed⟩
  case committed => exact h.committed

/-- What has a slot had it when the pool was closed, and what is accepted cannot be decoded or was
in the pool's hands then. -/
theorem Rebuff.origin (h : Rebuff k topic decoder start said stand) :
    (∀ m, stand = some (m, .holding) → start = some (m, .holding)) ∧
      ∀ m, stand = some (m, .answered true) → decoder.value m = none ∨
        start = some (m, .holding) ∨ start = some (m, .answered true) := by
  induction h with
  | start => exact ⟨fun _ => id, fun _ was => .inr (.inr was)⟩
  | aside | leave | refuse | bounce | commit | withhold => exact ⟨by simp, by simp⟩
  | @drop _ m e _ undecoded =>
    refine ⟨by simp, ?_⟩
    intro m' answered
    obtain rfl : m = m' := by simpa using answered
    exact .inl (by simp [Decoder.value, undecoded, Except.toOption])
  | @enter _ m _ ih =>
    refine ⟨by simp, ?_⟩
    intro m' answered
    obtain rfl : m = m' := by simpa using answered
    exact .inr (.inl (ih.1 m rfl))

theorem undelivered {notes : List (Note α)} {acts : List Act}
    (eq : notes.filterMap (·.actOf k) = acts) (none : acts.filterMap Act.delivery = [])
    (m : Message) : .act k topic (.delivered m) ∉ notes := by
  intro given
  have delivered := delivered_mem given
  rw [eq, none] at delivered
  cases delivered

theorem Aside.undelivered {notes : List (Note α)} (aside : Aside k notes) (m : Message) :
    .act k topic (.delivered m) ∉ notes := by
  intro given
  have silent := aside (.delivered m) (List.mem_filterMap.mpr ⟨_, given, by simp⟩)
  cases silent

theorem Rebuff.fates (h : Rebuff k topic decoder start said stand) :
    Fates k topic decoder start said stand := by
  induction h with
  | start =>
    constructor
    case waiting => exact fun m was => .inl ⟨rfl, was⟩
    case handed => exact fun _ _ _ _ turn => by simp at turn
    case dropped => exact fun _ _ _ _ turn => by simp at turn
    case committed => exact fun _ _ done => by simp [actsIn] at done
  | aside _ aside ih =>
    apply ih.plain aside.undelivered (by simp) (by simp) (by simp)
    exact fun m r done => (Bool.false_ne_true (aside _ done)).elim
  | @leave _ m value _ decoded lines debug ih =>
    apply ih.snoc (by simp) (by simp) (by simp)
    · intro m' v given _
      obtain rfl : m' = m := by simpa [Act.delivery] using delivered_mem given
      exact ⟨⟨lines, debug, rfl⟩, rfl⟩
    · intro m' e given undecoded
      obtain rfl : m' = m := by simpa [Act.delivery] using delivered_mem given
      simp [decoded] at undecoded
    · intro m' r done
      simp at done
  | @drop _ m e _ undecoded lines debug ih =>
    apply ih.snoc (by simp) (by simp) (by simp)
    · intro m' v given decoded
      obtain rfl : m' = m := by simpa [Act.delivery] using delivered_mem given
      simp [undecoded] at decoded
    · intro m' e' given undecoded'
      obtain rfl : m' = m := by simpa [Act.delivery] using delivered_mem given
      obtain rfl := Except.error.inj (undecoded.symm.trans undecoded')
      exact ⟨⟨lines, debug, rfl⟩, rfl⟩
    · intro m' r done
      simp at done
  | @refuse _ m _ ih =>
    apply ih.plain (undelivered (acts_returning m) rfl) ?_ (by simp) (by simp) (by simp)
    intro m' waits
    obtain rfl : m = m' := by simpa using waits
    exact ⟨rfl, rfl⟩
  | enter _ ih => exact ih.enter
  | @bounce _ m _ ih =>
    exact ih.plain (undelivered (acts_returning m) rfl) (by simp) (by simp) (by simp) (by simp)
  | @commit _ m before r ih =>
    apply ih.plain (undelivered (acts_committing m r) rfl) (by simp) (by simp)
    · intro m' answered
      obtain rfl : m = m' := by simpa using answered
      exact ⟨r, rfl⟩
    · intro m' r' done
      obtain ⟨rfl, -⟩ : m' = m ∧ r' = r := by simpa using done
      exact before.origin.2 m' rfl
  | @withhold _ m _ r ms ih =>
    apply ih.plain (undelivered (acts_withholding m r ms) rfl) (by simp) ?_ (by simp) (by simp)
    intro m' answered
    obtain rfl : m = m' := by simpa using answered
    exact ⟨r, ms, rfl⟩

end

end Courier.Queue
