import Courier.Proofs.Queue.Handing
import Courier.Proofs.Queue.Rebuff
import Mathlib.Data.List.Forall2

/-!
# Pooled subscribers and their twins

A subscriber that leaves its values to a pool has a twin, which calls a willing
listener itself:

* `Twin`: the loops of the two are at the same point, though the answer to the
  message in hand may be there for the one and not for the other;
* `Echoes`: what the two say in the same turn;
* `Twin.takes`: a turn of the one is a turn of the other;
* `Level`: worlds that are the same but for the subscribers of a pool;
* `Level.obey`: what is done to the one can be done to the other.
-/

namespace Courier

open List (Forall₂)

section
variable {α β : Type} {R : α → β → Prop} {a : List α} {b : List β} {x : α} {y : β}

theorem forall₂_getElem? (h : Forall₂ R a b) (k : Nat) : Option.Rel R a[k]? b[k]? := by
  induction h generalizing k with
  | nil => exact .none
  | cons here _ ih =>
    cases k with
    | zero => exact .some here
    | succ k => exact ih k

theorem forall₂_some {k : Nat} (h : Forall₂ R a b) (here : a[k]? = some x) :
    ∃ y, b[k]? = some y ∧ R x y := by
  have rel := forall₂_getElem? h k
  rw [here] at rel
  cases there : b[k]? with
  | none => simp [there] at rel
  | some y =>
    rw [there] at rel
    cases rel with
    | some related => exact ⟨y, rfl, related⟩

theorem forall₂_set (h : Forall₂ R a b) (k : Nat) (new : R x y) :
    Forall₂ R (a.set k x) (b.set k y) := by
  induction h generalizing k with
  | nil => exact .nil
  | cons here rest ih =>
    cases k with
    | zero => exact .cons new rest
    | succ k => exact .cons here (ih k)

theorem forall₂_set_left {k : Nat} (h : Forall₂ R a b) (there : b[k]? = some y) (new : R x y) :
    Forall₂ R (a.set k x) b := by
  obtain ⟨bound, is⟩ := List.getElem?_eq_some_iff.mp there
  have kept : b.set k y = b := by
    rw [← is]
    exact List.set_getElem_self bound
  exact kept ▸ forall₂_set h k new

theorem forall₂_modify {f : α → α} {g : β → β} (h : Forall₂ R a b) (k : Nat)
    (keeps : ∀ x y, R x y → R (f x) (g y)) : Forall₂ R (a.modify k f) (b.modify k g) := by
  induction h generalizing k with
  | nil => cases k <;> exact .nil
  | cons here rest ih =>
    cases k with
    | zero => exact .cons (keeps _ _ here) rest
    | succ k => exact .cons here (ih k)

end

variable {α : Type}

/-- A listener that accepts whatever it is called with. -/
def willing : Listener α := ⟨fun _ _ => { accept := true }⟩

/-- The same subscriber, with a willing listener in the place of pool `p`. -/
def Subscriber.serial (p : Nat) : Subscriber α → Subscriber α
  | .pooled decoder q => if q = p then .typed decoder willing else .pooled decoder q
  | s => s

theorem Subscriber.serial_pooled (decoder : Decoder α) (p : Nat) :
    (Subscriber.pooled decoder p).serial p = .typed decoder willing := if_pos rfl

theorem Subscriber.serial_apart {s : Subscriber α} {p : Nat}
    (apart : ∀ decoder, s ≠ .pooled decoder p) : s.serial p = s := by
  cases s with
  | direct | typed => rfl
  | pooled decoder q =>
    apply if_neg
    rintro rfl
    exact apart decoder rfl

namespace Queue

open Broker (Ledger Transport)

/-- Whoever is to leave values to pool `p` calls a willing listener instead. -/
def World.Command.serial (p : Nat) : World.Command Ledger α → World.Command Ledger α
  | .subscribe q topic group label s => .subscribe q topic group label (s.serial p)
  | c => c

def Phase.isHandling : Phase α → Bool
  | .handling .. => true
  | _ => false

/-- The loop of a pooled subscriber and that of its twin are at the same point. The twin has its
answer at once. -/
inductive Pace (now : Nat) : Phase α → Phase α → Prop where
  | free {phase : Phase α} (free : phase.isHandling = false) : Pace now phase phase
  | ahead {m : Message} {due : Nat} (elapsed : due ≤ now) :
    Pace now (.handling m .offered) (.handling m (.answered true due))
  | even {m : Message} {due due' : Nat} (elapsed : due' ≤ now) :
    Pace now (.handling m (.answered true due)) (.handling m (.answered true due'))

theorem Pace.eq_of_free {now : Nat} {phase phase' : Phase α} (h : Pace now phase phase')
    (free : phase.isHandling = false) : phase' = phase := by
  cases h with
  | free => rfl
  | ahead | even => cases free

theorem Pace.later {now now' : Nat} {phase phase' : Phase α} (h : Pace now phase phase')
    (later : now ≤ now') : Pace now' phase phase' := by
  cases h with
  | free free => exact .free free
  | ahead elapsed => exact .ahead (elapsed.trans later)
  | even elapsed => exact .even (elapsed.trans later)

/-- A loop and its twin: the same loop, unless it is that of a subscriber of pool `p`. -/
inductive Twin (p now : Nat) (l l' : ReadLoop Ledger α) : Prop where
  | other (apart : ∀ d, l.subscriber ≠ .pooled d p) (same : l' = l)
  | pooled {d : Decoder α} (pooled : l.subscriber = .pooled d p)
    (rest : l' = { l with
      subscriber := .typed d willing, calls := l'.calls, phase := l'.phase })
    (pace : Pace now l.phase l'.phase)

namespace Twin

variable {p now : Nat} {l l' : ReadLoop Ledger α}

theorem later {now' : Nat} (h : Twin p now l l') (later : now ≤ now') : Twin p now' l l' := by
  cases h with
  | other apart same => exact .other apart same
  | pooled pooled rest pace => exact .pooled pooled rest (pace.later later)

theorem subscriber (h : Twin p now l l') : l'.subscriber = l.subscriber.serial p := by
  cases h with
  | other apart same => rw [same, Subscriber.serial_apart apart]
  | pooled pooled rest => rw [pooled, Subscriber.serial_pooled, rest]

theorem queue (h : Twin p now l l') : l'.queue = l.queue := by
  cases h with
  | other _ same => rw [same]
  | pooled _ rest => rw [rest]

theorem isFinished (h : Twin p now l l') : l'.phase.isFinished = l.phase.isFinished := by
  cases h with
  | other _ same => rw [same]
  | pooled _ _ pace =>
    generalize l.phase = phase at pace
    generalize l'.phase = phase' at pace
    cases pace <;> rfl

theorem cancel (h : Twin p now l l') :
    Twin p now { l with cancelled := true } { l' with cancelled := true } := by
  cases h with
  | other apart same => exact .other apart (by rw [same])
  | pooled pooled rest pace => exact .pooled pooled (by rw [rest]) pace

/-- The twin has had its answer already when the pool gives one. -/
theorem answered (h : Twin p now l l') {d : Decoder α} {m : Message}
    (pooled : l.subscriber = .pooled d p) (phase : l.phase = .handling m .offered) (due : Nat) :
    Twin p now { l with phase := .handling m (.answered true due) } l' := by
  cases h with
  | other apart => exact absurd pooled (apart d)
  | pooled pooled rest pace =>
    refine .pooled pooled rest ?_
    rw [phase] at pace
    generalize l'.phase = phase' at pace ⊢
    cases pace with
    | free free => cases free
    | ahead elapsed => exact .even elapsed

/-- What was subscribed just now has a twin. -/
theorem fresh (p now : Nat) (l : ReadLoop Ledger α) (ready : l.phase = .ready) :
    Twin p now l { l with subscriber := l.subscriber.serial p } := by
  by_cases pooled : ∃ d, l.subscriber = .pooled d p
  · obtain ⟨d, pooled⟩ := pooled
    refine .pooled pooled ?_ (.free (by rw [ready]; rfl))
    rw [pooled, Subscriber.serial_pooled]
  · have apart (d : Decoder α) : l.subscriber ≠ .pooled d p := fun same => pooled ⟨d, same⟩
    exact .other apart (by rw [Subscriber.serial_apart apart])

end Twin

theorem twins_subscribers {p now : Nat} {a b : List (ReadLoop Ledger α)}
    (h : Forall₂ (Twin p now) a b) :
    b.map (·.subscriber) = a.map fun l => l.subscriber.serial p := by
  induction h with
  | nil => rfl
  | cons twin _ ih => rw [List.map_cons, List.map_cons, twin.subscriber, ih]

/-- What the loop of a pooled subscriber says in a turn, and what that of its twin says. An error
is reported by both, with the same fields. -/
inductive Echoes (k : Nat) (topic label : String) (decoder : Decoder α) :
    List (Note α) → List (Note α) → Prop where
  | aside {notes : List (Note α)} (quiet : Quiet k notes) :
    Echoes k topic label decoder notes notes
  | call {m : Message} {value : α} (decoded : decoder.decode m.payload = .ok value)
    {lines : List Log.Line} (debug : ∀ line ∈ lines, line.level = .debug) :
    Echoes k topic label decoder (leaving k topic m lines)
      (handing k topic m lines (.heard label (.value value true)))
  | drop {m : Message} {e : Error} (undecoded : decoder.decode m.payload = .error e)
    {lines : List Log.Line} (debug : ∀ line ∈ lines, line.level = .debug) :
    Echoes k topic label decoder
      (handing k topic m lines (.line (Subscriber.pooledError (some m) e)))
      (handing k topic m lines (.line (Subscriber.typedError (some m) e)))
  | commit (m : Message) (r : Except Error Unit) :
    Echoes k topic label decoder (committing k topic m r) (accepting k topic m r)
  | falter (e : Error) (ms : Nat) :
    Echoes k topic label decoder
      [.act k topic (.fetchFailed e), .line (Subscriber.pooledError none e),
        .act k topic (.rested ms)]
      [.act k topic (.fetchFailed e), .line (Subscriber.typedError none e),
        .act k topic (.rested ms)]

section
variable {k : Nat} {topic label : String} {decoder : Decoder α}

theorem Echoes.acts {notes notes' : List (Note α)} (h : Echoes k topic label decoder notes notes') :
    notes'.filterMap (·.actOf k) = notes.filterMap (·.actOf k) := by
  cases h with
  | aside => rfl
  | call => simp
  | drop => simp
  | commit => simp
  | falter => simp [List.filterMap_cons]

theorem Echoes.accepted {notes notes' : List (Note α)}
    (h : Echoes k topic label decoder notes notes') :
    ∀ answer ∈ (notes.filterMap (·.actOf k)).filterMap Act.answer, answer.2 = true := by
  cases h with
  | aside quiet => simp [quiet.answers]
  | call | drop | falter => simp [List.filterMap_cons, Act.answer]
  | commit => simp [Act.answer]

/-- A message that cannot be decoded is reported by both, once and in the same turn. -/
theorem Echoes.reported {notes notes' : List (Note α)} {m : Message}
    {e : Error} (h : Echoes k topic label decoder notes notes')
    (given : .act k topic (.delivered m) ∈ notes)
    (undecoded : decoder.decode m.payload = .error e) :
    ∃ lines : List Log.Line, (∀ line ∈ lines, line.level = .debug) ∧
      notes = handing k topic m lines (.line (Subscriber.pooledError (some m) e)) ∧
      notes' = handing k topic m lines (.line (Subscriber.typedError (some m) e)) := by
  have delivered := delivered_mem given
  cases h with
  | aside quiet => simp [quiet.deliveries] at delivered
  | @call m' value decoded =>
    obtain rfl : m = m' := by simpa [Act.delivery] using delivered
    simp [decoded] at undecoded
  | @drop m' e' undecoded' lines debug =>
    obtain rfl : m = m' := by simpa [Act.delivery] using delivered
    obtain rfl : e' = e := by simpa [undecoded'] using undecoded
    exact ⟨lines, debug, rfl, rfl⟩
  | commit | falter => simp [List.filterMap_cons, Act.delivery] at delivered

theorem echoes_accepted {said said' : List (List (Note α))}
    (h : Forall₂ (Echoes k topic label decoder) said said') :
    ∀ answer ∈ (actsIn k said).filterMap Act.answer, answer.2 = true := by
  induction h with
  | nil => nofun
  | @cons notes notes' said _ echo _ ih =>
    intro answer given
    have split : actsIn k (notes :: said) = notes.filterMap (·.actOf k) ++ actsIn k said := by
      simp [actsIn]
    rw [split, List.filterMap_append] at given
    obtain now | later := List.mem_append.mp given
    · exact echo.accepted answer now
    · exact ih answer later

end

/-- The value that a loop has left to its pool, which has not answered yet. -/
def ReadLoop.asked (l : ReadLoop Ledger α) (decoder : Decoder α) : List α :=
  match l.phase with
  | .handling m .offered => (decoder.value m).toList
  | _ => []

/-- A turn of a loop and the turn of its twin. -/
structure Paired (p k now : Nat) (l : ReadLoop Ledger α) (t t' : Turn Ledger α) : Prop where
  broker : t'.broker = t.broker
  loop : Twin p now t.loop t'.loop
  acts : ∀ j, t'.notes.filterMap (·.actOf j) = t.notes.filterMap (·.actOf j)
  /-- The twin has nothing for pool `p`. -/
  offer : t'.offer = t.offer.filter (·.1 ≠ p)
  echoes : ∀ d, l.subscriber = .pooled d p → Echoes k l.topic.name l.label d t.notes t'.notes
  /-- It calls its listener with what is left to the pool. -/
  calls : ∀ d, l.subscriber = .pooled d p →
    (t'.notes.filterMap Note.call).map (·.1) = t.loop.asked d

section
variable {p k now : Nat} {l l' : ReadLoop Ledger α} {b : Ledger} {t : Turn Ledger α}

theorem takes_label (takes : l.Takes k now b t) : t.loop.label = l.label := by
  cases takes <;> rfl

/-- What a pooled subscriber does with a message that was fetched, and what its twin does. -/
theorem receive_pooled {d : Decoder α} {m : Message} {r : Reception α} {said : List (Utterance α)}
    {calls : Nat} (received : (Subscriber.pooled d p).receive l.calls m = (r, said, calls))
    (calls' : Nat) : ∃ r' said' calls'',
      (Subscriber.typed d willing).receive calls' m = (r', said', calls'') ∧
      Pace now (phaseAfter now m r) (phaseAfter now m r') ∧
      Echoes k l.topic.name l.label d
        (.act k l.topic.name (.delivered m) :: (l.receivedNotes m ++ said.map (noteOf l.label)))
        (.act k l.topic.name (.delivered m) :: (l.receivedNotes m ++ said'.map (noteOf l.label))) ∧
      ((Note.act k l.topic.name (.delivered m) ::
        (l.receivedNotes m ++ said'.map (noteOf l.label))).filterMap Note.call).map (·.1) =
          ({ l with phase := phaseAfter now m r } : ReadLoop Ledger α).asked d := by
  obtain ⟨lines, debug, lines_eq⟩ := receivedNotes_lines l m
  rw [lines_eq]
  simp only [Subscriber.receive] at received
  cases decoded : d.decode m.payload with
  | error e =>
    simp only [decoded, Prod.mk.injEq] at received
    obtain ⟨rfl, rfl, rfl⟩ := received
    have received : (Subscriber.typed d willing).receive calls' m =
        (.answered true 0, [.line (Subscriber.typedError (some m) e)], calls') := by
      simp [Subscriber.receive, decoded, Subscriber.report]
    refine ⟨_, _, _, received, .even (Nat.le_refl _), .drop decoded debug, ?_⟩
    exact congrArg (List.map (·.1)) (calls_handing m lines _)
  | ok value =>
    simp only [decoded, Prod.mk.injEq] at received
    obtain ⟨rfl, rfl, rfl⟩ := received
    have received : (Subscriber.typed d willing).receive calls' m =
        (.answered true 0, [.event (.value value true)], calls' + 1) := by
      simp [Subscriber.receive, decoded, willing, Subscriber.reception]
    refine ⟨_, _, _, received, .ahead (Nat.le_refl _), ?_, ?_⟩
    · rw [List.map_nil, List.append_nil]
      exact .call decoded debug
    · have value_eq : d.value m = some value := by
        rw [Decoder.value, decoded, Except.toOption]
      refine (congrArg (List.map (·.1)) (calls_handing m lines _)).trans ?_
      simp [ReadLoop.asked, phaseAfter, value_eq, noteOf, Note.call]

/-- A turn of a pooled subscriber's loop is a turn of the loop of its twin. -/
theorem takes_pooled {d : Decoder α} (pooled : l.subscriber = .pooled d p) (calls : Nat)
    {phase' : Phase α} (pace : Pace now l.phase phase') (takes : l.Takes k now b t) :
    ∃ t' : Turn Ledger α,
      ReadLoop.Takes k now b { l with subscriber := .typed d willing, calls, phase := phase' } t' ∧
      t'.broker = t.broker ∧ Twin p now t.loop t'.loop ∧ t'.offer = none ∧
      Echoes k l.topic.name l.label d t.notes t'.notes ∧
      (t'.notes.filterMap Note.call).map (·.1) = t.loop.asked d := by
  have idle (phase : l.phase = .ready ∨ l.phase = .parked ∨ ∃ due, l.phase = .resting due) :
      phase' = l.phase := by
    apply pace.eq_of_free
    obtain phase | phase | ⟨due, phase⟩ := phase <;> rw [phase] <;> rfl
  cases takes with
  | stop phase cancelled =>
    have same := idle (phase.imp_right .inl)
    refine ⟨_, .stop (by simpa [same] using phase) cancelled, rfl,
      .pooled pooled rfl (.free rfl), rfl, .aside ?_, rfl⟩
    constructor <;> simp [List.filterMap_cons, Act.delivery, Act.answer, ReadLoop.streamNote]
  | park phase running fetched =>
    have same := idle (.inl phase)
    exact ⟨_, .park (same.trans phase) running fetched, rfl,
      .pooled pooled rfl (.free rfl), rfl, .aside ⟨rfl, rfl, rfl⟩, rfl⟩
  | deliver phase running fetched received =>
    have same := idle (.inl phase)
    rw [pooled] at received
    obtain ⟨r', said', calls'', received', on, echoes, called⟩ := receive_pooled received calls
    refine ⟨_, .deliver (same.trans phase) running fetched received', rfl,
      .pooled pooled rfl on, ?_, echoes, called⟩
    cases r' <;> rfl
  | lose phase running fetched =>
    have same := idle (.inl phase)
    refine ⟨_, .lose (same.trans phase) running fetched, rfl,
      .pooled pooled rfl (.free rfl), rfl, .aside ?_, rfl⟩
    constructor <;> simp [List.filterMap_cons, Act.delivery, Act.answer, ReadLoop.streamNote]
  | falter phase running fetched =>
    have same := idle (.inl phase)
    refine ⟨_, .falter (same.trans phase) running fetched, rfl,
      .pooled pooled rfl (.free rfl), rfl, ?_, rfl⟩
    rw [pooled]
    exact .falter _ _
  -- The twin has its answer already, and it is due.
  | @accept reader b' m due r phase elapsed committed =>
    rw [phase] at pace
    cases pace with
    | free free => cases free
    | even elapsed =>
      refine ⟨_, .accept rfl elapsed committed, rfl,
        .pooled pooled rfl (.free rfl), rfl, ?_, ?_⟩
      · rw [toldOf_pooled pooled, toldOf_typed rfl]
        exact .commit m r
      · rw [toldOf_typed rfl]
        exact congrArg (List.map (·.1)) (calls_accepting m r)
  -- The twin has no such answer, since its listener is willing.
  | reject phase | fail phase =>
    rw [phase] at pace
    cases pace with
    | free free => cases free
  | leave phase cancelled =>
    have same := idle (.inr (.inr ⟨_, phase⟩))
    refine ⟨_, .leave (same.trans phase) cancelled, rfl,
      .pooled pooled rfl (.free rfl), rfl, .aside ?_, rfl⟩
    constructor <;> simp [List.filterMap_cons, Act.delivery, Act.answer]
  | rise phase running elapsed =>
    have same := idle (.inr (.inr ⟨_, phase⟩))
    exact ⟨_, .rise (same.trans phase) running elapsed, rfl,
      .pooled pooled rfl (.free rfl), rfl, .aside ⟨rfl, rfl, rfl⟩, rfl⟩

/-- A turn of a loop is a turn of its twin. -/
theorem Twin.takes (twin : Twin p now l l') (takes : l.Takes k now b t) :
    ∃ t', l'.Takes k now b t' ∧ Paired p k now l t t' := by
  have mine {q : Nat} {value : α} (offer : t.offer = some (q, value)) :
      ∃ d, l.subscriber = .pooled d q := by
    obtain ⟨d, -, pooled, -⟩ := Workplace.takes_offer takes offer
    exact ⟨d, (takes_subscriber takes).symm.trans pooled⟩
  cases twin with
  | other apart same =>
    subst same
    refine ⟨t, takes, rfl, .other ?_ rfl, fun _ => rfl, ?_, ?_, ?_⟩
    · rw [takes_subscriber takes]
      exact apart
    · cases offer : t.offer with
      | none => rfl
      | some made =>
        obtain ⟨d, pooled⟩ := mine offer
        have elsewhere : made.1 ≠ p := by
          rintro rfl
          exact apart d pooled
        simp [Option.filter, elsewhere]
    · exact fun d pooled => absurd pooled (apart d)
    · exact fun d pooled => absurd pooled (apart d)
  | @pooled d pooled rest pace =>
    obtain ⟨t', takes', broker, loop, offer', echoes, calls⟩ :=
      takes_pooled pooled l'.calls pace takes
    rw [← rest] at takes'
    refine ⟨t', takes', broker, loop, ?_, ?_, ?_, ?_⟩
    · intro j
      by_cases own : k = j
      · subst own
        exact echoes.acts
      · rw [takes_other takes own, takes_other takes' own]
    · rw [offer']
      cases offer : t.offer with
      | none => rfl
      | some made =>
        obtain ⟨d', pooled'⟩ := mine offer
        obtain ⟨-, here⟩ : d = d' ∧ p = made.1 := by simpa [pooled] using pooled'
        simp [Option.filter, here]
    · intro d' pooled'
      obtain rfl : d = d' := by simpa [pooled] using pooled'
      exact echoes
    · intro d' pooled'
      obtain rfl : d = d' := by simpa [pooled] using pooled'
      exact calls

end

/-- Two worlds that are the same, but for the loops of the subscribers of pool `p` and for the pool
itself. -/
structure Level (p : Nat) (w v : World Ledger α) : Prop where
  now : v.now = w.now
  broker : v.broker = w.broker
  queues : v.queues = w.queues
  loops : Forall₂ (Twin p w.now) w.loops v.loops
  acts : ∀ k, v.acts k = w.acts k
  count : v.pools.length = w.pools.length
  pools : ∀ q, q ≠ p → v.pools[q]? = w.pools[q]?

namespace Level

variable {p : Nat} {w v : World Ledger α}

theorem opening (p : Nat) (b : Ledger) :
    Level p ({ broker := b } : World Ledger α) { broker := b } :=
  ⟨rfl, rfl, rfl, .nil, fun _ => rfl, rfl, fun _ _ => rfl⟩

theorem apart (h : Level p w v) {w' v' : World Ledger α} (left : World.Apart w w')
    (right : World.Apart v v') (now : w'.now = w.now) (now' : v'.now = v.now)
    (loops : Forall₂ (Twin p w.now) w'.loops v'.loops)
    (count : v'.pools.length = w'.pools.length)
    (pools : ∀ q, q ≠ p → v'.pools[q]? = w'.pools[q]?) : Level p w' v' := by
  constructor
  case now => rw [now, now', h.now]
  case broker => rw [left.broker, right.broker, h.broker]
  case queues => rw [left.queues, right.queues, h.queues]
  case loops => rwa [now]
  case acts => exact fun k => by rw [left.acts, right.acts, h.acts]
  case count => exact count
  case pools => exact pools

theorem turned (h : Level p w v) {k : Nat} {l : ReadLoop Ledger α} {t t' : Turn Ledger α}
    (paired : Paired p k w.now l t t') : Level p (w.turned k t) (v.turned k t') := by
  obtain ⟨now, broker, queues, loops, acts, count, pools⟩ := h
  constructor
  case now => exact now
  case broker => exact paired.broker
  case queues => exact queues
  case loops => exact forall₂_set loops k paired.loop
  case acts =>
    intro j
    rw [World.acts_turned, World.acts_turned, acts, paired.acts]
  case count =>
    simp only [World.turned, paired.offer]
    cases t.offer with
    | none => exact count
    | some made => by_cases mine : made.1 = p <;> simp [Option.filter, mine, count]
  case pools =>
    intro q other
    simp only [World.turned, paired.offer]
    cases t.offer with
    | none => exact pools q other
    | some made =>
      by_cases mine : made.1 = p
      · simp [Option.filter, mine, Ne.symm other, pools q other]
      · simp [Option.filter, mine, List.getElem?_modify, pools q other]

/-- What is to be seen of pool `p` concerns its subscribers only. -/
theorem served [DecidableEq α] (h : Level p w v) {pool : Pool α} {effect : Pool.Effect α}
    (loops : Forall₂ (Twin p w.now) (w.worked p pool effect).loops v.loops) :
    Level p (w.worked p pool effect) v := by
  have pools := (World.worked_still w p pool effect).2
  apply h.apart (World.worked_apart ..) (.refl v) (World.worked_still ..).1 rfl loops
  · rw [pools, List.length_set, h.count]
  · intro q other
    rw [pools, List.getElem?_set_ne (Ne.symm other), h.pools q other]

theorem worked [DecidableEq α] (h : Level p w v) {q : Nat} {was pool : Pool α}
    {effect : Pool.Effect α} (here : w.pools[q]? = some was)
    (loops : Forall₂ (Twin p w.now) (w.worked q pool effect).loops
      (v.worked q pool effect).loops) :
    Level p (w.worked q pool effect) (v.worked q pool effect) := by
  have pools := (World.worked_still w q pool effect).2
  have pools' := (World.worked_still v q pool effect).2
  apply h.apart (World.worked_apart ..) (World.worked_apart ..) (World.worked_still ..).1
    (World.worked_still ..).1 loops
  · rw [pools, pools', List.length_set, List.length_set, h.count]
  · intro j other
    rw [pools, pools']
    by_cases mine : q = j
    · subst mine
      have bound := (List.getElem?_eq_some_iff.mp here).1
      rw [List.getElem?_set_self bound, List.getElem?_set_self (h.count ▸ bound)]
    · rw [List.getElem?_set_ne mine, List.getElem?_set_ne mine, h.pools j other]

theorem note (h : Level p w v) {n : Note α} (idle : ∀ k, n.actOf k = none) :
    Level p (w.note n) (v.note n) := by
  obtain ⟨now, broker, queues, loops, acts, count, pools⟩ := h
  refine ⟨now, broker, queues, loops, ?_, count, pools⟩
  intro k
  rw [World.acts_note_of_none (idle k), World.acts_note_of_none (idle k), acts]

theorem map (h : Level p w v) {f : ReadLoop Ledger α → ReadLoop Ledger α}
    (keeps : ∀ l l', Twin p w.now l l' → Twin p w.now (f l) (f l')) :
    Level p { w with loops := w.loops.map f } { v with loops := v.loops.map f } := by
  obtain ⟨now, broker, queues, loops, acts, count, pools⟩ := h
  refine ⟨now, broker, queues, ?_, acts, count, pools⟩
  exact List.rel_map (fun l l' twin => keeps l l' twin) loops

theorem wake (h : Level p w v) : Level p w.wake v.wake := by
  apply h.map
  intro l l' twin
  cases twin with
  | other apart same =>
    refine .other ?_ (by rw [same])
    split <;> exact apart
  | pooled pooled rest pace =>
    have both : l.phase = .parked ↔ l'.phase = .parked := by
      generalize l.phase = phase at pace
      generalize l'.phase = phase' at pace
      cases pace <;> simp
    split
    · next parked =>
      rw [both.mp parked]
      exact .pooled pooled (by rw [rest]) (.free rfl)
    · next awake =>
      split
      · next parked => exact absurd (both.mpr parked) awake
      · exact .pooled pooled rest pace

theorem cancelAll (h : Level p w v) (q : Nat) : Level p (w.cancelAll q) (v.cancelAll q) := by
  apply h.map
  intro l l' twin
  by_cases mine : l.queue = q
  · rw [if_pos mine, if_pos (twin.queue.trans mine)]
    exact twin.cancel
  · rw [if_neg mine, if_neg (fun same => mine (twin.queue.symm.trans same))]
    exact twin

theorem cancelLoop (h : Level p w v) (k : Nat) : Level p (w.cancelLoop k) (v.cancelLoop k) := by
  obtain ⟨now, broker, queues, loops, acts, count, pools⟩ := h
  refine ⟨now, broker, queues, ?_, acts, count, pools⟩
  exact forall₂_modify loops k fun _ _ twin => twin.cancel

theorem supply (h : Level p w v) (b : Ledger) (queues : List (MessageQueue Ledger)) :
    Level p { w with broker := b, queues } { v with broker := b, queues } :=
  ⟨h.now, rfl, rfl, h.loops, h.acts, h.count, h.pools⟩

theorem rebroker (h : Level p w v) (b : Ledger) :
    Level p { w with broker := b } { v with broker := b } :=
  ⟨h.now, rfl, h.queues, h.loops, h.acts, h.count, h.pools⟩

/-- The calls that wait may be others. -/
theorem pending (h : Level p w v) (a b : List Pending) :
    Level p { w with pending := a } { v with pending := b } :=
  ⟨h.now, h.broker, h.queues, h.loops, h.acts, h.count, h.pools⟩

theorem setQueue (h : Level p w v) (q : Nat) (queue : MessageQueue Ledger) :
    Level p (w.setQueue q queue) (v.setQueue q queue) := by
  obtain ⟨now, broker, queues, loops, acts, count, pools⟩ := h
  refine ⟨now, broker, ?_, loops, acts, count, pools⟩
  simp only [World.setQueue, queues]

theorem writer (h : Level p w v) (q : Nat) : v.writer q = w.writer q := by
  simp only [World.writer, h.queues]

theorem loopFinished (h : Level p w v) (k : Nat) : v.loopFinished k = w.loopFinished k := by
  have rel := forall₂_getElem? h.loops k
  unfold World.loopFinished
  generalize w.loops[k]? = here at rel
  generalize v.loops[k]? = there at rel
  cases rel with
  | none => rfl
  | some twin => exact twin.isFinished

theorem connect (h : Level p w v) (files : Files) (config : Broker.Config) :
    Level p (w.connect files config).2 (v.connect files config).2 := by
  unfold World.connect
  cases config.validate files with
  | error e => exact h
  | ok connection =>
    simp only [Transport.probe, Transport.openWriter, Ledger.probe, h.broker, h.queues]
    split
    · exact h.supply _ w.queues
    · exact (h.supply _ _).note fun _ => rfl

theorem publish (h : Level p w v) (q : Nat) (topic : Topic) (payload : Payload) :
    Level p (w.publish q topic payload).2 (v.publish q topic payload).2 := by
  unfold World.publish
  cases payload.toRecord topic with
  | error e => exact h
  | ok r =>
    rw [h.writer]
    cases w.writer q with
    | error e => exact h
    | ok writer =>
      have same : Transport.write v.now writer r v.broker =
          Transport.write w.now writer r w.broker := by rw [h.now, h.broker]
      simp only [same]
      rcases Transport.write w.now writer r w.broker with ⟨result, b⟩
      cases result with
      | ok => exact ((h.rebroker b).note (n := .published r true) fun _ => rfl).wake
      | error e => exact (h.rebroker b).note (n := .published r false) fun _ => rfl

/-- Whoever subscribes on the one side has a twin that does so on the other. -/
theorem subscribe (h : Level p w v) (q : Nat) (topic : Topic) (group label : String)
    (s : Subscriber α) :
    Level p (w.subscribe q topic group label s).2
      (v.subscribe q topic group label (s.serial p)).2 := by
  unfold World.subscribe
  simp only [h.writer, h.queues, h.broker, h.loops.length_eq.symm]
  split
  · exact h
  · exact h
  · split
    · exact h
    · have finished (j : Nat) :
          World.loopFinished { v with broker := w.broker, queues := w.queues } j =
            w.loopFinished j := h.loopFinished j
      simp only [Transport.openReader, finished]
      apply note ?_ fun _ => rfl
      refine setQueue ?_ q _
      obtain ⟨now, broker, queues, loops, acts, count, pools⟩ := h
      refine ⟨now, rfl, rfl, ?_, acts, count, pools⟩
      exact List.rel_append loops (.cons (.fresh p w.now _ rfl) .nil)

theorem unsubscribe (h : Level p w v) (q : Nat) (id : SubscriptionId) :
    Level p (w.unsubscribe q id).2 (v.unsubscribe q id).2 := by
  unfold World.unsubscribe
  rw [h.queues]
  split
  · exact h
  · split
    · exact h
    · next queue _ _ _ k _ =>
      have level := (h.setQueue q { queue with registry := { queue.registry with
        entries := queue.registry.entries.filter (·.1 ≠ id) } }).cancelLoop k
      exact level.pending _ _

theorem close (h : Level p w v) (q : Nat) : Level p (w.close q).2 (v.close q).2 := by
  have found : v.queues[q]? = w.queues[q]? := by rw [h.queues]
  unfold World.close
  rw [found]
  cases w.queues[q]? with
  | none => exact h
  | some queue =>
    have shut {w v : World Ledger α} (level : Level p w v) :=
      (level.setQueue q { queue with
        writer := none, registry := { queue.registry with entries := [] } }).cancelAll q
    cases held : queue.writer with
    | none =>
      simp only [held]
      exact h
    | some writer =>
      have same : Transport.closeWriter writer v.broker =
          Transport.closeWriter writer w.broker := by rw [h.broker]
      simp only [held, same]
      rcases Transport.closeWriter writer w.broker with ⟨result, writer', b⟩
      cases result with
      | ok => exact (shut (h.rebroker b)).pending _ _
      | error e => exact (shut ((h.rebroker b).note (n := .line _) fun _ => rfl)).pending _ _

theorem modifyPool (h : Level p w v) (q : Nat) (f : Pool α → Pool α) :
    Level p { w with pools := w.pools.modify q f } { v with pools := v.pools.modify q f } := by
  obtain ⟨now, broker, queues, loops, acts, count, pools⟩ := h
  refine ⟨now, broker, queues, loops, acts, by simp [count], ?_⟩
  intro j other
  simp only [List.getElem?_modify, pools j other]

theorem startPool (h : Level p w v) (label : String) (work : α → Work) (size : Nat) :
    Level p (w.startPool label work size).2 (v.startPool label work size).2 := by
  obtain ⟨now, broker, queues, loops, acts, count, pools⟩ := h
  refine ⟨now, broker, queues, loops, acts, by simp [World.startPool, count], ?_⟩
  intro j other
  simp only [World.startPool, List.getElem?_append, count, pools j other]

/-- **Whatever is done to one world can be done to the other**, with twins for the subscribers of
the pool. -/
theorem obey (h : Level p w v) (c : World.Command Ledger α) :
    Level p (w.obey c) (v.obey (c.serial p)) := by
  cases c with
  | connect files config => exact h.connect files config
  | publish q topic payload => exact h.publish q topic payload
  | publishJson q topic value =>
    cases value with
    | error reason => exact h
    | ok json => exact h.publish q topic _
  | subscribe q topic group label s => exact h.subscribe q topic group label s
  | unsubscribe q id => exact h.unsubscribe q id
  | close q => exact h.close q
  | drop q => exact h.cancelAll q
  | startPool label work size => exact h.startPool label work size
  | closePool q => exact h.modifyPool q Pool.close
  | shutdownPool q => exact (h.modifyPool q Pool.close).pending _ _
  | release value => exact ⟨h.now, h.broker, h.queues, h.loops, h.acts, h.count, h.pools⟩
  | control c =>
    simp only [World.Command.serial, World.obey, World.control, h.broker]
    split
    · exact (h.rebroker _).wake
    · exact h.rebroker _

end Level

end Queue

end Courier
