import Courier.Proofs.Queue.Enrolment

/-!
# Subscriptions that can still be given up

A subscription can be given up once, also when its loop has ended by itself. What others do to
their own subscriptions takes this from it in one case only: the next subscription to its queue
makes room, and what has ended is forgotten then:

* `Proceeds`, `World.concludes`: a call whose loops and workers have ended goes on until it has
  returned;
* `Sweep`: a subscription is forgotten because another one is made;
* `Lost`: all that can have become of a subscription that its queue does not know any more;
* `Leads.known`, `Lost.absent`: a subscription is in the registry, or it is lost, and not both;
* `departure_law`: the law of a call to give a subscription up, made at any time;
* `departure_overtaken`: the call of one is refused for what another one did.
-/

namespace Courier.Queue

open Broker (Transport Ledger)

namespace World

section
variable {T α : Type} [Transport T] {w v : World T α} {c : Nat} {p : Pending}

/-- The steps of one call, with nothing in between. -/
abbrev Proceeds (c : Nat) : World T α → World T α → Prop :=
  Relation.ReflTransGen fun w v => w.callStep c = some v

/-- Call `c` has returned without an error. -/
def Returned (w : World T α) (c : Nat) : Prop :=
  ∃ p, w.pending[c]? = some p ∧ p.result = some (.ok ())

theorem callStep_hear {a : Awaited} {rest : List Awaited} (here : w.pending[c]? = some p)
    (unanswered : p.result = none) (awaiting : p.awaiting = a :: rest) (finished : w.Over a) :
    ∃ v, w.callStep c = some v ∧ v.pending[c]? = some { p with awaiting := rest } := by
  have bound := (List.getElem?_eq_some_iff.mp here).1
  obtain ⟨abnormal, ended⟩ := ended_of_over finished
  unfold callStep
  simp only [here, unanswered, awaiting, ended, Option.isSome_none, Bool.false_eq_true, ↓reduceIte]
  refine ⟨_, rfl, ?_⟩
  cases abnormal <;> exact List.getElem?_set_self bound

theorem callStep_answer (here : w.pending[c]? = some p) (unanswered : p.result = none)
    (awaiting : p.awaiting = []) :
    ∃ v, w.callStep c = some v ∧
      v.pending[c]? = some { p with result := some p.purpose.answer } := by
  have bound := (List.getElem?_eq_some_iff.mp here).1
  unfold callStep
  simp only [here, unanswered, awaiting, Option.isSome_none, Bool.false_eq_true, ↓reduceIte]
  refine ⟨_, rfl, ?_⟩
  cases p.purpose <;> exact List.getElem?_set_self bound

/-- A call that need not wait any more goes on until it has returned. -/
theorem concludes (here : w.pending[c]? = some p) (unanswered : p.result = none)
    (finished : ∀ a ∈ p.awaiting, w.Over a) :
    ∃ v, Proceeds c w v ∧ ∃ p', v.pending[c]? = some p' ∧ p'.result = some p.purpose.answer := by
  obtain ⟨purpose, awaiting, result⟩ := p
  induction awaiting generalizing w with
  | nil =>
    obtain ⟨v, step, there⟩ := callStep_answer here unanswered rfl
    exact ⟨v, .single step, _, there, rfl⟩
  | cons a rest ih =>
    obtain ⟨u, step, between⟩ := callStep_hear here unanswered rfl (finished a List.mem_cons_self)
    obtain ⟨-, -, loops, pools⟩ := callStep_still step
    have still (b : Awaited) (ended : w.Over b) : u.Over b := by
      cases b with
      | loop k => simpa only [Over, loops] using ended
      | worker j i => simpa only [Over, pools] using ended
    obtain ⟨v, later, done⟩ := ih between unanswered
      fun b waits => still b (finished b (List.mem_cons_of_mem _ waits))
    exact ⟨v, .head step later, done⟩

theorem unsubscribe_known (listed : Listed w) {q k : Nat} {id : SubscriptionId}
    (entry : (id, k) ∈ (w.registry q).entries) :
    (w.unsubscribe q id).1 = .ok w.pending.length ∧ (w.unsubscribe q id).2.pending =
      w.pending ++ [{ purpose := .unsubscribe id, awaiting := [.loop k] }] := by
  obtain ⟨queue, here, entry⟩ := registered_of_entry entry
  have first := (listed.registries queue (List.mem_of_getElem? here)).find entry
  constructor
  · simp [unsubscribe, here, first, await, cancelLoop, setQueue]
  · rw [unsubscribe_eq here first]

end

end World

variable {α : Type}

namespace Closing

variable [DecidableEq α] {s t : Closing α}

theorem Move.goes (move : Move s t) : World.Goes s.world t.world := by
  cases move with
  | step st possible => exact World.step_goes possible
  | command c other => exact World.command_goes other
  | put q r =>
    obtain ⟨result, v, eq, change⟩ := World.put_change s.world q r
    have books := World.put_books s.world q r
    have pools := World.put_pools s.world q r
    rw [eq] at books pools ⊢
    cases result <;> exact ⟨⟨_, books⟩, change.lasting (pools ▸ .refl _)⟩
  | take taken => exact World.takeWriter_goes taken
  | drain has here => exact World.drain_goes here _

theorem Leads.passes (later : Leads s t) : World.Passes s.world t.world :=
  later.lift Closing.world fun _ _ move => move.goes

end Closing

namespace Roll

section
variable {s t : Roll α} {e : Enrolment} {q : Nat}

theorem Shift.givenUp_grows (shift : Shift s t) : s.givenUp ⊆ t.givenUp := by
  cases shift with
  | stays same => exact same.givenUp ▸ List.Subset.refl _
  | enrols e enrols => exact enrols.givenUp ▸ List.Subset.refl _
  | givesUp q id givesUp => exact givesUp.givenUp ▸ List.subset_append_left ..
  | drains q n drains => exact drains.givenUp ▸ List.Subset.refl _

/-- What was made before a move was made, and what was not was made by it. -/
theorem Shift.made (shift : Shift s t) (made : e ∈ t.made) : e ∈ s.made ∨ Enrols s t e := by
  cases shift with
  | stays same => exact .inl (same.made ▸ made)
  | enrols e' enrols =>
    rw [enrols.made, List.mem_append, List.mem_singleton] at made
    exact made.imp_right fun same => by rwa [same]
  | givesUp q id givesUp => exact .inl (givesUp.made ▸ made)
  | drains q n drains => exact .inl (drains.made ▸ made)

theorem Shift.keeps (shift : Shift s t) (made : e ∈ s.made) : e ∈ t.made := by
  cases shift with
  | stays same => exact same.made ▸ made
  | enrols e' enrols =>
    rw [enrols.made]
    exact List.mem_append_left _ made
  | givesUp q id givesUp => exact givesUp.made ▸ made
  | drains q n drains => exact drains.made ▸ made

theorem Shift.enrols_of_made (shift : Shift s t) (made : t.made = s.made ++ [e]) :
    Enrols s t e := by
  have grown {b : List Enrolment} (same : t.made = b) : b ≠ s.made := by
    rintro rfl
    simp [made] at same
  cases shift with
  | stays same => exact absurd rfl (grown same.made)
  | enrols e' enrols =>
    obtain rfl : e' = e := by simpa [made, eq_comm] using enrols.made
    exact enrols
  | givesUp q id givesUp => exact absurd rfl (grown givesUp.made)
  | drains q n drains => exact absurd rfl (grown drains.made)

/-- What is in the registry leaves it when it is given up, or all is, or when another subscription
is made after its loop has ended. -/
theorem Shift.entry (shift : Shift s t) (before : ∀ n, (q, n) ∉ t.left) (current : e ∈ s.current q)
    (entry : e.entry ∈ (s.world.registry q).entries) :
    e ∈ t.givenUp ∨
      (∃ e', Enrols s t e' ∧ e'.queue = q ∧ s.world.loopFinished e.loop = true) ∨
      e.entry ∈ (t.world.registry q).entries := by
  cases shift with
  | stays same =>
    rw [same.registry]
    exact .inr (.inr entry)
  | enrols e' enrols =>
    right
    rw [enrols.registry]
    split
    · next mine =>
      cases finished : s.world.loopFinished e.loop with
      | true => exact .inl ⟨e', enrols, mine.symm, rfl⟩
      | false =>
        subst mine
        right
        refine List.mem_append_left _ (List.mem_filter.mpr ⟨entry, ?_⟩)
        simp [Enrolment.entry, finished]
    · exact .inr entry
  | givesUp j id givesUp =>
    rw [givesUp.givenUp, givesUp.registry]
    split
    · next mine =>
      subst mine
      by_cases meant : e.id = id
      · have asked : e ∈ (s.of q).filter (·.id = id) :=
          List.mem_filter.mpr ⟨(mem_current.mp current).1, decide_eq_true meant⟩
        exact .inl (List.mem_append_right _ asked)
      · exact .inr (.inr (List.mem_filter.mpr ⟨entry, decide_eq_true meant⟩))
    · exact .inr (.inr entry)
  | drains j n drains =>
    have other : q ≠ j := by
      rintro rfl
      refine before n ?_
      rw [drains.left]
      exact List.mem_append_right _ (List.mem_singleton_self _)
    rw [drains.registry, if_neg other]
    exact .inr (.inr entry)

theorem Sound.entry_ne (sound : Sound s) (made : e ∈ s.made) {e' : Enrolment}
    (enrols : Enrols s t e') : e.entry ≠ e'.entry := by
  intro same
  have last : e.loop = e'.loop := congrArg Prod.snd same
  have bound := sound.bound made
  rw [last, enrols.loop] at bound
  exact Nat.lt_irrefl _ bound

/-- What has left the registry does not come back. -/
theorem Sound.absent (sound : Sound s) (shift : Shift s t) (made : e ∈ s.made)
    (absent : e.entry ∉ (s.world.registry q).entries) :
    e.entry ∉ (t.world.registry q).entries := by
  cases shift with
  | stays same =>
    rw [same.registry]
    exact absent
  | enrols e' enrols =>
    rw [enrols.registry]
    split
    · next mine =>
      subst mine
      intro entry
      obtain old | new := List.mem_append.mp entry
      · exact absent (List.mem_of_mem_filter old)
      · exact sound.entry_ne made enrols (List.mem_singleton.mp new)
    · exact absent
  | givesUp j id givesUp =>
    rw [givesUp.registry]
    split
    · next mine =>
      subst mine
      exact fun entry => absent (List.mem_of_mem_filter entry)
    · exact absent
  | drains j n drains =>
    rw [drains.registry]
    split
    · exact List.not_mem_nil
    · exact absent

theorem Sound.entry_of_id (sound : Sound s) (made : e ∈ s.made) {k : Nat}
    (entry : (e.id, k) ∈ (s.world.registry e.queue).entries) :
    e ∈ s.current e.queue ∧ e.entry = (e.id, k) := by
  obtain ⟨e', current, same⟩ := List.mem_map.mp ((sound.entries e.queue).subset entry)
  have own := (mem_current.mp current).1
  have mine : e ∈ s.of e.queue := mem_of.mpr ⟨made, rfl⟩
  have distinct := sound.distinct e.queue
  obtain rfl := List.inj_on_of_nodup_map distinct own mine (congrArg Prod.fst same)
  exact ⟨current, same⟩

end

section
variable [DecidableEq α] {s t u v : Roll α} {e : Enrolment}

/-- A subscription whose loop has ended is forgotten when another one is made in its queue. -/
structure Sweep (s t : Roll α) (e : Enrolment) : Prop where
  move : Move s t
  made : ∃ e', t.made = s.made ++ [e'] ∧ e'.queue = e.queue
  old : e ∈ s.made
  finished : s.world.loopFinished e.loop = true

/-- What has become of a subscription that its queue does not know any more. -/
inductive Lost (t : Roll α) (e : Enrolment) : Prop where
  | givenUp (asked : e ∈ t.givenUp)
  /-- The queue was closed. -/
  | closed {n : Nat} (left : (e.queue, n) ∈ t.left)
  | forgotten {u v : Roll α} (run : Leads { world := { broker := {} } } u) (sweep : Sweep u v e)
    (later : Leads v t)

theorem Lost.move (lost : Lost s e) (move : Move s t) : Lost t e := by
  cases lost with
  | givenUp asked => exact .givenUp (move.shift.givenUp_grows asked)
  | closed left => exact .closed (Closing.Move.left_grows move.closing left)
  | forgotten run sweep later => exact .forgotten run sweep (later.tail move)

theorem Lost.leads (lost : Lost s e) (later : Leads s t) : Lost t e := by
  induction later with
  | refl => exact lost
  | tail _ move ih => exact ih.move move

/-- A subscription that one move takes out of the registry was given up, its queue was closed, or
it was forgotten. -/
theorem Move.spares (move : Move s t) (made : e ∈ s.made) (kept : e ∉ s.givenUp)
    (entry : e.entry ∈ (s.world.registry e.queue).entries) :
    e ∈ t.givenUp ∨ (∃ n, (e.queue, n) ∈ t.left) ∨ Sweep s t e ∨
      e.entry ∈ (t.world.registry e.queue).entries := by
  by_cases closed : ∃ n, (e.queue, n) ∈ t.left
  · exact .inr (.inl closed)
  · have current : e ∈ s.current e.queue := mem_current.mpr ⟨mem_of.mpr ⟨made, rfl⟩, kept⟩
    obtain asked | ⟨e', enrols, mine, finished⟩ | entry :=
      move.shift.entry (not_exists.mp closed) current entry
    · exact .inl asked
    · exact .inr (.inr (.inl ⟨move, ⟨e', enrols.made, mine⟩, made, finished⟩))
    · exact .inr (.inr (.inr entry))

/-- A subscription is in the registry of its queue, or it is lost. -/
theorem Leads.known (run : Leads { world := { broker := {} } } t) (made : e ∈ t.made) :
    Lost t e ∨ e.entry ∈ (t.world.registry e.queue).entries := by
  induction run with
  | refl => cases made
  | @tail s t run move ih =>
    obtain old | enrols := move.shift.made made
    · obtain lost | entry := ih old
      · exact .inl (lost.move move)
      · have kept := (mem_current.mp ((Leads.sound run).entry_of_id old entry).1).2
        obtain asked | ⟨n, left⟩ | sweep | entry := move.spares old kept entry
        · exact .inl (.givenUp asked)
        · exact .inl (.closed left)
        · exact .inl (.forgotten run sweep .refl)
        · exact .inr entry
    · rw [enrols.registry, if_pos rfl]
      exact .inr (List.mem_append_right _ (List.mem_singleton_self _))

theorem Sweep.absent (sweep : Sweep s t e) (sound : Sound s) :
    e ∈ t.made ∧ e.entry ∉ (t.world.registry e.queue).entries := by
  obtain ⟨e', made, mine⟩ := sweep.made
  have enrols := sweep.move.shift.enrols_of_made made
  constructor
  · rw [made]
    exact List.mem_append_left _ sweep.old
  · rw [enrols.registry, if_pos mine.symm]
    intro entry
    obtain kept | new := List.mem_append.mp entry
    · have runs := (List.mem_filter.mp kept).2
      simp [Enrolment.entry, sweep.finished] at runs
    · exact sound.entry_ne sweep.old enrols (List.mem_singleton.mp new)

/-- What has left the registry never comes back. -/
theorem Leads.absent (later : Leads s t) (run : Leads { world := { broker := {} } } s)
    (made : e ∈ s.made) (absent : e.entry ∉ (s.world.registry e.queue).entries) :
    e ∈ t.made ∧ e.entry ∉ (t.world.registry e.queue).entries := by
  induction later with
  | refl => exact ⟨made, absent⟩
  | tail between move ih =>
    have sound := Leads.sound (run.trans between)
    exact ⟨move.shift.keeps ih.1, sound.absent move.shift ih.1 ih.2⟩

theorem Lost.absent (run : Leads { world := { broker := {} } } t) (made : e ∈ t.made)
    (lost : Lost t e) : e.entry ∉ (t.world.registry e.queue).entries := by
  cases lost with
  | givenUp asked =>
    intro entry
    exact (mem_current.mp (run.sound.entry_of_id made entry).1).2 asked
  | closed left =>
    obtain ⟨queue, here, empty⟩ := run.closing.attended.emptied _ _ left
    rw [World.registry_of_some here, empty]
    exact List.not_mem_nil
  | forgotten before sweep later =>
    obtain ⟨made, absent⟩ := sweep.absent before.sound
    exact (later.absent (before.tail sweep.move) made absent).2

def asking (t : Roll α) (e : Enrolment) : Closing α :=
  { t.toClosing with world := (t.world.unsubscribe e.queue e.id).2 }

/-- What comes of the call that gives subscription `e` up. -/
structure Granted (t : Roll α) (e : Enrolment) : Prop where
  called : (t.world.unsubscribe e.queue e.id).1 = .ok t.world.pending.length
  /-- When the call has returned, it has returned without an error and the loop has ended. -/
  answered : ∀ u, Closing.Leads (t.asking e) u → ∀ p r,
    u.world.pending[t.world.pending.length]? = some p → p.result = some r →
    r = .ok () ∧ u.world.Over (.loop e.loop)
  /-- When the loop has ended, the call goes on until it has returned. -/
  returns : ∀ u, Closing.Leads (t.asking e) u → u.world.Over (.loop e.loop) →
    ∃ v, World.Proceeds t.world.pending.length u.world v ∧ v.Returned t.world.pending.length
  /-- If the loop had ended by itself, that is at once. -/
  atOnce : t.world.loopFinished e.loop = true → ∃ v,
    World.Proceeds t.world.pending.length (t.asking e).world v ∧ v.Returned t.world.pending.length
  /-- If it runs, it is wound up. -/
  winds : ∀ l, t.world.loops[e.loop]? = some l → l.Running →
    ∀ v, (t.world.unsubscribe e.queue e.id).2.Leads v → World.CancellationLaw t.world v e.loop l

/-- The call is granted while the subscription is in the registry. -/
theorem Leads.granted (run : Leads { world := { broker := {} } } t) (made : e ∈ t.made)
    (entry : e.entry ∈ (t.world.registry e.queue).entries) : Granted t e := by
  have listed := run.closing.attended.listed
  obtain ⟨called, pending⟩ := World.unsubscribe_known listed entry
  have goes : World.Goes t.world (t.world.obey (.unsubscribe e.queue e.id)) :=
    World.command_goes rfl
  have listed' := listed.goes goes
  have asked : World.Awaits (t.asking e).world t.world.pending.length (.unsubscribe e.id)
      [.loop e.loop] := .new pending rfl
  have returns (u : Closing α) (later : Closing.Leads (t.asking e) u)
      (finished : u.world.Over (.loop e.loop)) : ∃ v,
      World.Proceeds t.world.pending.length u.world v ∧ v.Returned t.world.pending.length := by
    obtain ⟨p, heard, here, purpose, split, -, answered⟩ := later.passes.awaits listed' asked
    -- If the call has not answered yet, it waits for this loop at most, which has ended.
    obtain unanswered | ⟨-, answer⟩ := answered
    · have rest : ∀ a ∈ p.awaiting, u.world.Over a := by
        intro a waits
        have only : a ∈ [Awaited.loop e.loop] := split ▸ List.mem_append_right heard waits
        exact List.mem_singleton.mp only ▸ finished
      obtain ⟨v, steps, p', there, answer⟩ := World.concludes here unanswered rest
      exact ⟨v, steps, p', there, by rw [answer, purpose]; rfl⟩
    · exact ⟨u.world, .refl, p, here, answer⟩
  constructor
  case called => exact called
  case answered =>
    intro u later p r here returned
    obtain ⟨rfl, finished⟩ := (later.passes.awaits listed' asked).returned here returned
    exact ⟨rfl, finished _ (List.mem_singleton_self _)⟩
  case returns => exact returns
  case atOnce =>
    intro finished
    have here := List.getElem?_eq_getElem (run.sound.bound made)
    have ended : t.world.Over (.loop e.loop) :=
      ⟨_, here, by simpa [World.loopFinished, here] using finished⟩
    exact returns _ .refl (goes.lasting.ceased _ ended)
  case winds =>
    intro l here running v later
    exact (stops_of_registered listed run.covered.2 entry here running later).1

/-- The law of the call that gives subscription `e` up, made in the state `t`. -/
structure DepartureLaw (t : Roll α) (e : Enrolment) : Prop where
  /-- The call is refused, and then for good and without anything being done, if the subscription
  is lost. -/
  refused : t.world.unsubscribe e.queue e.id =
    (.error (unknownSubscription e.id), t.world) ↔ Lost t e
  lasting : Lost t e → ∀ u, Leads t u → Lost u e
  /-- Otherwise it is granted, whatever was done to other subscriptions. -/
  granted : ¬ Lost t e → Granted t e
  /-- It takes one of three moves to be lost. -/
  spared : ¬ Lost t e → ∀ u, Move t u → Lost u e →
    e ∈ u.givenUp ∨ (∃ n, (e.queue, n) ∈ u.left) ∨ Sweep t u e

/-- **A subscription can be given up until it is forgotten.** Whatever other subscriptions are made
and given up, the call is granted, and returns without an error, as long as nobody has made it
before, the queue is not closed, and no other subscription was made in the queue since the loop
ended by itself. Each of these makes the subscription unknown, and nothing else does. -/
theorem departure_law (run : Leads { world := { broker := {} } } t) (made : e ∈ t.made) :
    DepartureLaw t e := by
  constructor
  case refused =>
    constructor
    · intro refused
      obtain lost | entry := run.known made
      · exact lost
      · have called := (run.granted made entry).called
        rw [refused] at called
        cases called
    · intro lost
      refine World.unsubscribe_unknown fun k entry => lost.absent run made ?_
      rw [(run.sound.entry_of_id made entry).2]
      exact entry
  case lasting => exact fun lost u later => lost.leads later
  case granted =>
    intro present
    obtain lost | entry := run.known made
    · exact absurd lost present
    · exact run.granted made entry
  case spared =>
    intro present u move lost
    have entry := (run.known made).resolve_left present
    have kept : e ∉ t.givenUp := fun asked => present (.givenUp asked)
    obtain asked | left | sweep | still := move.spares made kept entry
    · exact .inl asked
    · exact .inr (.inl left)
    · exact .inr (.inr sweep)
    · exact absurd still (lost.absent (run.tail move) (move.shift.keeps made))

end

def told (s : Roll α) (c : World.Command Ledger α) : Roll α :=
  { s with
    world := s.world.obey c
    made := s.made ++ (s.world.enrolment c).toList
    givenUp := s.givenUp ++ s.asked c }

/-- The loop of the first of two subscriptions has ended by itself. The second one is given up. -/
def lapsed : Roll String :=
  let s := ((told { world := World.opened } (join "audit")).told (join "stock")).told
    (.control Ledger.Control.closeReaders)
  told { s with world := s.world.attempt (.step (.loop 0)) } (.unsubscribe 0 ⟨2⟩)

theorem leads_lapsed : Leads { world := { broker := {} } } lapsed := by
  have opened : Leads { world := { broker := {} } } { world := World.opened } :=
    .single (.command (.connect ⟨[]⟩ _) rfl)
  have joined := (opened.tail (.command (join "audit") rfl)).tail (.command (join "stock") rfl)
  have closed := joined.tail (.command (.control Ledger.Control.closeReaders) rfl)
  exact (closed.tail (.step (.loop 0) rfl)).tail (.command (.unsubscribe 0 ⟨2⟩) rfl)

/-- The first subscription can still be given up then, and cannot any more when a third one was
made. -/
theorem departure_law_lapsed : DepartureLaw lapsed ⟨0, ⟨1⟩, 0⟩ ∧
    DepartureLaw (lapsed.told (join "audit")) ⟨0, ⟨1⟩, 0⟩ ∧ Granted lapsed ⟨0, ⟨1⟩, 0⟩ ∧
      Lost (lapsed.told (join "audit")) ⟨0, ⟨1⟩, 0⟩ ∧ lapsed.givenUp = [⟨0, ⟨2⟩, 1⟩] := by
  have law := departure_law leads_lapsed (e := ⟨0, ⟨1⟩, 0⟩) (by decide)
  have law' := departure_law (leads_lapsed.tail (.command (join "audit") rfl)) (e := ⟨0, ⟨1⟩, 0⟩)
    (by decide)
  refine ⟨law, law', law.granted fun lost => ?_, law'.refused.mp rfl, by decide⟩
  have refused := congrArg Prod.fst (law.refused.mpr lost)
  cases refused

/-- The call that gives a subscription up depends on what is done to others: it is granted, and
returns without an error, unless another subscription is made first. -/
theorem departure_overtaken :
    Leads { world := { broker := {} } } lapsed ∧ Move lapsed (lapsed.told (join "audit")) ∧
      ⟨0, ⟨1⟩, 0⟩ ∈ lapsed.current 0 ∧ ⟨0, ⟨1⟩, 0⟩ ∈ (lapsed.told (join "audit")).current 0 ∧
      (lapsed.told (join "audit")).parted = [] ∧
      (lapsed.world.unsubscribe 0 ⟨1⟩).1 = .ok 1 ∧
      (∃ v, World.Proceeds 1 (lapsed.world.unsubscribe 0 ⟨1⟩).2 v ∧ v.Returned 1) ∧
      ((lapsed.told (join "audit")).world.unsubscribe 0 ⟨1⟩).1 =
        .error (unknownSubscription ⟨1⟩) := by
  refine ⟨leads_lapsed, .command (join "audit") rfl, by decide, by decide, rfl, rfl, ?_, rfl⟩
  refine World.concludes (p := { purpose := .unsubscribe ⟨1⟩, awaiting := [.loop 0] }) rfl rfl ?_
  intro a waits
  obtain rfl := List.mem_singleton.mp waits
  exact ⟨_, rfl, rfl⟩

end Roll

end Courier.Queue
